import Amigo.Local.LevelDbQueueRuns

/-!
# Laws of the queues in the local database

What the queues in memory promise, the queues in the database promise as far as numbers
have 32 bits: a batch is found by its number, the next after a number is the first with a
higher one, all batches are read in their order, and an empty queue leaves nothing behind.
The highest number is read off the row before the end of the user's rows, to which there is
a way back only from a row behind it; the version of the schema is one in every database
the client has opened. The token of the stream is the one set last for the user, whoever
used the database since.
-/

namespace Amigo.Firestore

open OrderedCodes OrderedCode MemoryMutationQueue

/-- The first batch above a number is the least above it. -/
theorem Ascending.find_least {M : Type} {queue : List (MutationBatch M)}
    (ascending : Ascending queue) {batchId : Int} {batch : MutationBatch M}
    (member : batch ∈ queue) (above : batchId < batch.batchId)
    (least : ∀ other ∈ queue, batchId < other.batchId → batch.batchId ≤ other.batchId) :
    queue.find? (fun other => batchId < other.batchId) = some batch := by
  induction queue with
  | nil => cases member
  | cons head rest inductionHypothesis =>
    obtain ⟨below, others⟩ := List.pairwise_cons.mp ascending
    obtain rfl | later := List.mem_cons.mp member
    · exact List.find?_cons_of_pos (by simpa using above)
    · have before := below batch later
      have passed : ¬ batchId < head.batchId := fun higher =>
        absurd before (not_lt.mpr (least head (by simp) higher))
      rw [List.find?_cons_of_neg (by simpa using passed)]
      exact inductionHypothesis others later fun other isOther =>
        least other (List.mem_cons_of_mem _ isOther)

/-- The last batch is the one that none exceeds. -/
theorem Ascending.getLast_greatest {M : Type} {queue : List (MutationBatch M)}
    (ascending : Ascending queue) {batch : MutationBatch M} (member : batch ∈ queue)
    (greatest : ∀ other ∈ queue, other.batchId ≤ batch.batchId) :
    queue.getLast? = some batch := by
  obtain ⟨front, last, rfl⟩ := List.eq_nil_or_concat' queue |>.resolve_left
    (List.ne_nil_of_mem member)
  rw [List.getLast?_concat]
  obtain earlier | same := List.mem_append.mp member
  · have before := (List.pairwise_append.mp ascending).2.2 batch earlier last (by simp)
    exact absurd (greatest last (by simp)) (not_le.mpr before)
  · rw [List.mem_singleton.mp same]

namespace LevelDb

/-- Of rows from a beginning on those that begin so come first. -/
theorem takeWhile_begins {rows : LevelDb} (sorted : SortedEntries.Sorted rows) {start : ByteString}
    (onward : ∀ row ∈ rows, start ≤ row.1) :
    rows.takeWhile (fun row => start.isPrefixOf row.1) =
      rows.filter fun row => start.isPrefixOf row.1 := by
  induction rows with
  | nil => rfl
  | cons row rest inductionHypothesis =>
    obtain ⟨below, others⟩ := List.pairwise_cons.mp sorted
    by_cases begins : start <+: row.1
    · simp only [List.takeWhile_cons, List.filter_cons, List.isPrefixOf_iff_prefix.mpr begins,
        ↓reduceIte, inductionHypothesis others fun other later => onward other (by simp [later])]
    · -- no row begins so any more
      have none : ∀ other ∈ row :: rest, ¬ start.isPrefixOf other.1 = true := by
        intro other member isOther
        have ends := List.isPrefixOf_iff_prefix.mp isOther
        obtain rfl | later := List.mem_cons.mp member
        · exact begins ends
        · exact begins (begins_before (onward row (by simp)) (below other later) ends)
      rw [List.filter_eq_nil_iff.mpr none]
      simp only [List.takeWhile_cons, none row (by simp), Bool.false_eq_true, ↓reduceIte]

/-- The rows from a beginning on, as long as they begin so, are all rows that do. -/
theorem beginning_eq {db : LevelDb} (sorted : SortedEntries.Sorted db) (start : ByteString) :
    (db.seek start).takeWhile (fun row => start.isPrefixOf row.1) =
      db.filter fun row => start.isPrefixOf row.1 := by
  have onward : SortedEntries.Sorted (SortedEntries.above start db) := sorted.filter _
  rw [seek_eq sorted, takeWhile_begins onward (by simp [SortedEntries.above]), SortedEntries.above,
    List.filter_filter]
  refine List.filter_congr fun row _ => ?_
  rw [Bool.and_eq_left_iff_imp, decide_eq_true_eq, List.isPrefixOf_iff_prefix]
  exact prefix_le

end LevelDb

namespace LevelDbMutationQueue.Valid

variable {Change : Type} {serializer : LocalSerializer Change} {queue : LevelDbMutationQueue}
  {pending : ByteString → List (MutationBatch (Mutation DocumentKey Change))}

/-- The row of a batch has the batch in it. -/
theorem row_value (valid : queue.Valid serializer pending) {userId : ByteString}
    {batch : MutationBatch (Mutation DocumentKey Change)} (held : batch ∈ pending userId)
    {row : ByteString × ByteString} (member : row ∈ queue.db)
    (isRow : row.1 = LevelDbMutationKey.rowWord userId batch.batchId) :
    row.2 = serializer.encodeMutationBatch batch := by
  obtain ⟨key, isKey, found⟩ := valid.batch_row held
  obtain ⟨number, isNumber⟩ := valid.signed held
  rw [← isNumber, LevelDbMutationKey.key_eq, isNumber, ← isRow, Option.some_inj] at isKey
  rw [← isKey, LevelDb.head_seek valid.sorted member, Option.some_inj] at found
  exact congrArg Prod.snd found

/-- A row begins with a user where it is of a batch of the user. -/
theorem row_of_user (valid : queue.Valid serializer pending) {userId : ByteString}
    {row : ByteString × ByteString} (member : row ∈ queue.db) :
    tableWord kMutationsTable userId <+: row.1 ↔
      ∃ batch ∈ pending userId, row.1 = LevelDbMutationKey.rowWord userId batch.batchId := by
  constructor
  · intro begins
    have table : stringComponent .TableName kMutationsTable <+: row.1 :=
      (List.prefix_append _ _).trans begins
    obtain ⟨owner, batch, held, isRow, -⟩ := valid.row_held member table
    rw [isRow, LevelDbMutationKey.prefix_rowWord_iff] at begins
    subst begins
    exact ⟨batch, held, isRow⟩
  · rintro ⟨batch, -, isRow⟩
    rw [isRow, LevelDbMutationKey.prefix_rowWord_iff]

/-- A queue is empty where its user has no batches. -/
theorem isEmpty (valid : queue.Valid serializer pending) :
    queue.isEmpty = some (pending queue.userId).isEmpty := by
  rw [LevelDbMutationQueue.isEmpty, LevelDbMutationKey.userPrefix_eq, Option.bind_eq_bind,
    Option.bind_some]
  obtain ⟨nothing, passed⟩ | ⟨first, isFirst, found, from_, least⟩ :=
    LevelDb.first_from valid.sorted (tableWord kMutationsTable queue.userId)
  · have none : pending queue.userId = [] := by
      by_contra some
      obtain ⟨batch, held⟩ := List.exists_mem_of_ne_nil _ some
      obtain ⟨row, member, isRow⟩ := valid.held_row held
      exact absurd (passed row member) (not_lt.mpr (prefix_le
        ((valid.row_of_user member).mpr ⟨batch, held, isRow⟩)))
    rw [nothing, none]
    rfl
  · have vacant : tableWord kMutationsTable queue.userId <+: first.1 ↔
        pending queue.userId ≠ [] := by
      rw [valid.row_of_user isFirst]
      constructor
      · rintro ⟨batch, held, -⟩
        exact List.ne_nil_of_mem held
      · intro some
        obtain ⟨batch, held⟩ := List.exists_mem_of_ne_nil _ some
        obtain ⟨row, member, isRow⟩ := valid.held_row held
        have begins := (valid.row_of_user member).mpr ⟨batch, held, isRow⟩
        exact (valid.row_of_user isFirst).mp (prefix_between List.prefix_rfl begins from_
          (least row member (prefix_le begins)))
    rw [found, Option.some_inj, Bool.eq_iff_iff, Bool.not_eq_true', Bool.eq_false_iff, ne_eq,
      List.isPrefixOf_iff_prefix, vacant, not_not, List.isEmpty_iff]

/-- All batches of a user are read in the order of their numbers. -/
theorem allMutationBatches (valid : queue.Valid serializer pending)
    (roundTrips : serializer.RoundTrips) :
    queue.allMutationBatches serializer = some (pending queue.userId) := by
  rw [LevelDbMutationQueue.allMutationBatches, LevelDbMutationKey.userPrefix_eq,
    Option.bind_eq_bind, Option.bind_some, LevelDb.beginning_eq valid.sorted]
  have decoded : ∀ row ∈ queue.db.filter
      (fun row => (tableWord kMutationsTable queue.userId).isPrefixOf row.1),
      ∃ batch ∈ pending queue.userId,
        row.1 = LevelDbMutationKey.rowWord queue.userId batch.batchId ∧
        serializer.decodeMutationBatch row.2 = some batch := by
    intro row member
    obtain ⟨inside, begins⟩ := List.mem_filter.mp member
    obtain ⟨batch, held, isRow⟩ :=
      (valid.row_of_user inside).mp (List.isPrefixOf_iff_prefix.mp begins)
    exact ⟨batch, held, isRow, by rw [valid.row_value held inside isRow, roundTrips]⟩
  rw [mapM_isSome fun row member => by
    obtain ⟨batch, -, -, isBatch⟩ := decoded row member
    rw [isBatch]
    rfl]
  refine congrArg some (Ascending.eq ?_ (valid.ascending _) fun batch => ?_)
  · have kept : SortedEntries.Sorted (queue.db.filter
        fun row => (tableWord kMutationsTable queue.userId).isPrefixOf row.1) :=
      valid.sorted.filter _
    refine List.pairwise_filterMap.mpr (kept.imp_of_mem ?_)
    intro row later member laterMember before batch isBatch last isLast
    obtain ⟨own, held, isRow, isOwn⟩ := decoded row member
    obtain ⟨next, nextHeld, isNextRow, isNext⟩ := decoded later laterMember
    rw [isOwn, Option.some_inj] at isBatch
    rw [isNext, Option.some_inj] at isLast
    subst isBatch isLast
    rw [isRow, isNextRow, valid.rows_lt_iff held nextHeld] at before
    obtain less | ⟨-, lower⟩ := before
    · exact absurd less (lt_irrefl _)
    · exact lower
  · rw [List.mem_filterMap]
    constructor
    · rintro ⟨row, member, isBatch⟩
      obtain ⟨own, held, -, isOwn⟩ := decoded row member
      rw [isOwn, Option.some_inj] at isBatch
      exact isBatch ▸ held
    · intro held
      obtain ⟨row, member, isRow⟩ := valid.held_row held
      have begins := (valid.row_of_user member).mpr ⟨batch, held, isRow⟩
      refine ⟨row, List.mem_filter.mpr ⟨member, List.isPrefixOf_iff_prefix.mpr begins⟩, ?_⟩
      rw [valid.row_value held member isRow, roundTrips]

/-- A number has a row where a batch of the user has the number. -/
theorem lookup (valid : queue.Valid serializer pending) (roundTrips : serializer.RoundTrips)
    {batchId : Int} (range : -2 ^ 31 ≤ batchId ∧ batchId ≤ 2 ^ 31 - 1) :
    queue.lookupMutationBatch serializer batchId =
      some ((pending queue.userId).find? fun batch => batch.batchId = batchId) := by
  obtain ⟨sought, isSought⟩ : ∃ sought : SignedNum, sought.1 = batchId :=
    ⟨⟨batchId, by omega, by omega⟩, rfl⟩
  have key := LevelDbMutationKey.key_eq queue.userId sought
  rw [isSought] at key
  rw [lookupMutationBatch, key, Option.bind_eq_bind, Option.bind_some]
  cases stored : SortedEntries.get (LevelDbMutationKey.rowWord queue.userId batchId) queue.db with
  | none =>
    refine congrArg some (List.find?_eq_none.mpr fun batch held same => ?_).symm
    rw [← of_decide_eq_true same, valid.batchRows _ batch held] at stored
    cases stored
  | some value =>
    obtain ⟨userId, batch, held, isRow⟩ := valid.batchKeys _
      (LevelDbMutationKey.table_begins queue.userId batchId) (by rw [stored]; rfl)
    obtain ⟨rfl, own⟩ := LevelDbMutationKey.rowWord_numbers range (valid.range held) isRow
    rw [own, valid.batchRows _ batch held, Option.some_inj] at stored
    rw [own, (valid.ascending _).find_own held, ← stored]
    exact congrArg (Option.map some) (roundTrips batch)

/-- The first row from that of a number on is of the user's first batch with this number or
a higher one, and is no row of the user where there is no such batch. -/
theorem first_after (valid : queue.Valid serializer pending) {batchId : Int}
    (range : -2 ^ 31 ≤ batchId ∧ batchId < 2 ^ 31 - 1) :
    let start := LevelDbMutationKey.rowWord queue.userId (batchId + 1)
    (∃ batch ∈ pending queue.userId, ∃ row ∈ queue.db,
      (queue.db.seek start).head? = some row ∧
      row.1 = LevelDbMutationKey.rowWord queue.userId batch.batchId ∧ batchId < batch.batchId ∧
      ∀ other ∈ pending queue.userId, batchId < other.batchId → batch.batchId ≤ other.batchId) ∨
    ((∀ batch ∈ pending queue.userId, ¬ batchId < batch.batchId) ∧
      ∀ row, (queue.db.seek start).head? = some row →
        ∃ decoded, LevelDbMutationKey.decode row.1 = some decoded ∧
          ∀ userId found, decoded = some (userId, found) → userId ≠ queue.userId) := by
  intro start
  obtain ⟨sought, isSought⟩ : ∃ sought : SignedNum, sought.1 = batchId + 1 :=
    ⟨⟨batchId + 1, by omega, by omega⟩, rfl⟩
  have before_iff {userId : ByteString} {batch : MutationBatch (Mutation DocumentKey Change)}
      (held : batch ∈ pending userId) : LevelDbMutationKey.rowWord userId batch.batchId < start ↔
        userId < queue.userId ∨ userId = queue.userId ∧ batch.batchId < batchId + 1 := by
    obtain ⟨number, isNumber⟩ := valid.signed held
    rw [← isNumber, ← isSought]
    simp only [start, ← isSought]
    exact LevelDbMutationKey.rowWord_lt_iff userId queue.userId number sought
  have behind {batch : MutationBatch (Mutation DocumentKey Change)}
      (held : batch ∈ pending queue.userId) (higher : batchId < batch.batchId) :
      ∃ row ∈ queue.db, row.1 = LevelDbMutationKey.rowWord queue.userId batch.batchId ∧
        start ≤ row.1 := by
    obtain ⟨row, member, isRow⟩ := valid.held_row held
    refine ⟨row, member, isRow, not_lt.mp ?_⟩
    rw [isRow, before_iff held]
    rintro (less | ⟨-, lower⟩)
    · exact lt_irrefl _ less
    · omega
  obtain ⟨nothing, passed⟩ | ⟨first, isFirst, found, from_, least⟩ :=
    LevelDb.first_from valid.sorted start
  · refine .inr ⟨fun batch held higher => ?_, fun row isRow => ?_⟩
    · obtain ⟨row, member, -, above⟩ := behind held higher
      exact absurd (passed row member) (not_lt.mpr above)
    · rw [nothing] at isRow
      cases isRow
  by_cases table : stringComponent .TableName kMutationsTable <+: first.1
  · obtain ⟨userId, batch, held, isRow, decoded⟩ := valid.row_held isFirst table
    have notBefore := not_lt.mpr from_
    rw [isRow, before_iff held, not_or, not_and, not_lt, not_lt] at notBefore
    have below {own : MutationBatch (Mutation DocumentKey Change)}
        (ownHeld : own ∈ pending queue.userId) (higher : batchId < own.batchId) :
        ¬ (queue.userId < userId ∨ queue.userId = userId ∧ own.batchId < batch.batchId) := by
      obtain ⟨row, member, isOwn, above⟩ := behind ownHeld higher
      have reached := least row member above
      rwa [isRow, isOwn, ← not_lt, valid.rows_lt_iff ownHeld held] at reached
    by_cases same : userId = queue.userId
    · subst same
      refine .inl ⟨batch, held, first, isFirst, found, isRow, notBefore.2 rfl, ?_⟩
      intro own ownHeld higher
      exact not_lt.mp fun lower => below ownHeld higher (.inr ⟨rfl, lower⟩)
    · -- the first row is of a later user
      refine .inr ⟨fun own ownHeld higher => below ownHeld higher
        (.inl (lt_of_le_of_ne notBefore.1 (Ne.symm same))), fun row isRow => ?_⟩
      rw [found, Option.some_inj] at isRow
      refine ⟨_, isRow ▸ decoded, fun other _ isOther => ?_⟩
      cases isOther
      exact same
  · refine .inr ⟨fun batch held higher => ?_, fun row isRow => ?_⟩
    · obtain ⟨row, member, isRow, above⟩ := behind held higher
      exact table (prefix_between (LevelDbMutationKey.table_begins _ _)
        (isRow ▸ LevelDbMutationKey.table_begins _ _) from_ (least row member above))
    · rw [found, Option.some_inj] at isRow
      exact ⟨none, isRow ▸ valid.row_other isFirst table, by simp⟩

/-- The next batch after a number is the first with a higher one. -/
theorem nextAfter (valid : queue.Valid serializer pending) (roundTrips : serializer.RoundTrips)
    {batchId : Int} (range : -2 ^ 31 ≤ batchId ∧ batchId < 2 ^ 31 - 1) :
    queue.nextMutationBatchAfterBatchId serializer batchId =
      some ((pending queue.userId).find? fun batch => batchId < batch.batchId) := by
  have key := LevelDbMutationKey.key_eq queue.userId ⟨batchId + 1, by omega, by omega⟩
  rw [nextMutationBatchAfterBatchId]
  simp only [key, Option.bind_eq_bind, Option.bind_some]
  obtain ⟨batch, held, row, member, found, isRow, higher, least⟩ | ⟨nobody, others⟩ :=
    valid.first_after range
  · have reached : batchId + 1 ≤ batch.batchId := by omega
    simp only [found, isRow, LevelDbMutationKey.decode_rowWord queue.userId (valid.range held),
      Option.bind_some, guard, reached, ↓reduceIte, ne_eq, not_true_eq_false, Option.pure_def,
      valid.row_value held member isRow, (valid.ascending _).find_least held higher least]
    exact congrArg (Option.map some) (roundTrips batch)
  · have nothing : (pending queue.userId).find? (fun batch => batchId < batch.batchId) = none :=
      List.find?_eq_none.mpr fun batch held => by simpa using nobody batch held
    rw [nothing]
    cases found : (queue.db.seek
        (LevelDbMutationKey.rowWord queue.userId (batchId + 1))).head? with
    | none => rfl
    | some row =>
      obtain ⟨decoded, isDecoded, another⟩ := others row found
      simp only [isDecoded, Option.bind_some]
      cases decoded with
      | none => rfl
      | some read => exact if_pos (another read.1 read.2 rfl)

/-- Where a row is behind the user's rows, the row before their end tells the highest number. -/
theorem highest (valid : queue.Valid serializer pending) {row : ByteString × ByteString}
    (member : row ∈ queue.db)
    (beyond : ByteString.prefixSuccessor (tableWord kMutationsTable queue.userId) ≤ row.1) :
    queue.getHighestUnacknowledgedBatchId =
      some (((pending queue.userId).getLast?.map MutationBatch.batchId).getD kBatchIdUnknown) := by
  rw [getHighestUnacknowledgedBatchId, LevelDbMutationKey.userPrefix_eq]
  simp only [Option.bind_eq_bind, Option.bind_some]
  obtain ⟨-, passed⟩ | ⟨first, -, found, -⟩ := LevelDb.first_from valid.sorted
    (ByteString.prefixSuccessor (tableWord kMutationsTable queue.userId))
  · exact absurd (passed row member) (not_lt.mpr beyond)
  rw [found, Option.bind_some]
  by_cases vacant : pending queue.userId = []
  · rw [vacant, List.getLast?_nil]
    cases isLast : (queue.db.takeWhile fun row => row.1 < ByteString.prefixSuccessor
        (tableWord kMutationsTable queue.userId)).getLast? with
    | none => rfl
    | some last =>
      obtain ⟨inside, -⟩ := (LevelDb.mem_takeWhile valid.sorted).mp
        (List.mem_of_getLast? isLast)
      by_cases table : stringComponent .TableName kMutationsTable <+: last.1
      · obtain ⟨userId, batch, held, -, decoded⟩ := valid.row_held inside table
        have other : userId ≠ queue.userId := by
          rintro rfl
          rw [vacant] at held
          cases held
        simp only [decoded, Option.bind_some, if_neg other, Option.map_none, Option.getD_none]
      · simp only [valid.row_other inside table, Option.bind_some, Option.map_none,
          Option.getD_none]
  · obtain ⟨last, -, batch, held, isLast, -, decoded, greatest⟩ := valid.last_of_user vacant
    simp only [isLast, decoded, Option.bind_some, if_pos,
      (valid.ascending _).getLast_greatest held greatest, Option.map_some, Option.getD_some]

/-- Rows of a queue without batches are not in the index. -/
theorem check (valid : queue.Valid serializer pending) :
    queue.performConsistencyCheck = some () := by
  rw [performConsistencyCheck, valid.isEmpty, Option.bind_eq_bind, Option.bind_some]
  split_ifs with vacant
  · rw [List.isEmpty_iff] at vacant
    have none : queue.db.filter (fun row =>
        (tableWord kDocumentMutationsTable queue.userId).isPrefixOf row.1) = [] := by
      refine List.filter_eq_nil_iff.mpr fun row member begins => ?_
      have starts : tableWord kDocumentMutationsTable queue.userId ++ pathWord [] <+: row.1 := by
        simpa [pathWord] using List.isPrefixOf_iff_prefix.mp begins
      obtain ⟨batch, held, -⟩ := valid.row_beneath member starts
      rw [vacant] at held
      cases held
    simp [LevelDbDocumentMutationKey.userPrefix_eq, LevelDb.beginning_eq valid.sorted, none, guard]
  · rfl

/-- Adding a batch leaves the rows of the other tables alone. -/
theorem get_added (valid : queue.Valid serializer pending)
    (room : queue.nextBatchId < 2 ^ 31 - 1) {mutations : List (Mutation DocumentKey Change)}
    {batch : MutationBatch (Mutation DocumentKey Change)} {after : LevelDbMutationQueue}
    (added : queue.addMutationBatch serializer mutations = some (batch, after))
    {key table : ByteString} (begins : stringComponent .TableName table <+: key)
    (notBatches : table ≠ kMutationsTable) (notIndex : table ≠ kDocumentMutationsTable) :
    SortedEntries.get key after.db = SortedEntries.get key queue.db := by
  rw [valid.addMutationBatch_eq room (nonempty_of_added added), Option.some_inj,
    Prod.mk.injEq] at added
  obtain ⟨-, rfl⟩ := added
  rw [LevelDb.get_puts, if_neg, SortedEntries.get_put, if_neg]
  · rintro rfl
    exact notBatches (one_table begins (LevelDbMutationKey.table_begins _ _))
  · intro isWord
    obtain ⟨mutation, -, rfl⟩ := List.mem_map.mp isWord
    exact notIndex (one_table begins (LevelDbDocumentMutationKey.table_begins _ _ _))

/-- So does taking one out. -/
theorem get_removed (valid : queue.Valid serializer pending)
    {batch : MutationBatch (Mutation DocumentKey Change)} (held : batch ∈ pending queue.userId)
    {after : LevelDbMutationQueue} (removed : queue.removeMutationBatch batch = some after)
    {key table : ByteString} (begins : stringComponent .TableName table <+: key)
    (notBatches : table ≠ kMutationsTable) (notIndex : table ≠ kDocumentMutationsTable) :
    SortedEntries.get key after.db = SortedEntries.get key queue.db := by
  rw [valid.removeMutationBatch_eq held, Option.some_inj] at removed
  obtain rfl := removed
  rw [LevelDb.get_removes, if_neg, SortedEntries.get_remove, if_neg]
  · rintro rfl
    exact notBatches (one_table begins (LevelDbMutationKey.table_begins _ _))
  · intro isOld
    obtain ⟨mutation, -, rfl⟩ := List.mem_map.mp isOld
    exact notIndex (one_table begins (LevelDbDocumentMutationKey.table_begins _ _ _))

end LevelDbMutationQueue.Valid

/-- The row of the schema's version is behind the batches of every user. -/
theorem version_behind (userId : ByteString) :
    ByteString.prefixSuccessor (tableWord kMutationsTable userId) ≤ LevelDbVersionKey.rowWord := by
  rw [← not_lt, lt_userEnd_iff]
  rintro (less | batches)
  · rw [LevelDbVersionKey.rowWord, tableWord, (ordered_stringComponent .TableName).lt_iff] at less
    obtain earlier | ⟨same, -⟩ := less
    · exact absurd earlier (by decide)
    · exact absurd same (by decide)
  · have table := (List.prefix_append (stringComponent .TableName kMutationsTable) _).trans batches
    exact absurd (one_table LevelDbVersionKey.table_begins table) (by decide)

/-- The coding reads what it writes. -/
def MessageCoding.RoundTrips (coding : MessageCoding) : Prop :=
  ∀ message, coding.tryParse (coding.makeStdString message) = some message

namespace StartedMutationQueue

variable {Change : Type}

/-- What the queues of a database and the tokens of their streams go through. The rest of
the client changes the other tables, and leaves the version of the schema in the last. -/
inductive Run (serializer : LocalSerializer Change) (coding : MessageCoding) :
    StartedMutationQueue → (ByteString → List (MutationBatch (Mutation DocumentKey Change))) →
      (ByteString → ByteString) → Prop
  | create {db : LevelDb} (sorted : SortedEntries.Sorted db)
      (tables : ∀ row ∈ db, ∃ table, stringComponent .TableName table <+: row.1)
      (unused : ∀ row ∈ db, ∀ table ∈ [kMutationsTable, kDocumentMutationsTable,
        kMutationQueuesTable], ¬ stringComponent .TableName table <+: row.1)
      (versioned : ∃ row ∈ db, LevelDbVersionKey.key = some row.1)
      {userId : ByteString} {queue} (started : start coding userId db = some queue) :
      Run serializer coding queue (fun _ => []) fun _ => []
  | start {queue pending tokens} (run : Run serializer coding queue pending tokens)
      {userId : ByteString} {after} (started : start coding userId queue.db = some after) :
      Run serializer coding after pending tokens
  | add {queue pending tokens} (run : Run serializer coding queue pending tokens)
      (room : queue.nextBatchId < 2 ^ 31 - 1) {mutations : List (Mutation DocumentKey Change)}
      (named : ∀ mutation ∈ mutations, mutation.key.val ≠ []) {batch after}
      (added : queue.addMutationBatch serializer mutations = some (batch, after)) :
      Run serializer coding ⟨after, queue.metadata⟩
        (Function.update pending queue.userId (pending queue.userId ++ [batch])) tokens
  | remove {queue pending tokens} (run : Run serializer coding queue pending tokens) {batch}
      (held : batch ∈ pending queue.userId) {after}
      (removed : queue.removeMutationBatch batch = some after) :
      Run serializer coding ⟨after, queue.metadata⟩ (Function.update pending queue.userId
        ((pending queue.userId).filter fun other => other.batchId ≠ batch.batchId)) tokens
  | token {queue pending tokens} (run : Run serializer coding queue pending tokens)
      {streamToken : ByteString} {after}
      (set : queue.setLastStreamToken coding streamToken = some after) :
      Run serializer coding after pending (Function.update tokens queue.userId streamToken)
  | others {queue pending tokens} (run : Run serializer coding queue pending tokens) {db : LevelDb}
      (sorted : SortedEntries.Sorted db)
      (tables : ∀ row ∈ db, ∃ table, stringComponent .TableName table <+: row.1)
      (same : ∀ table ∈ [kMutationsTable, kDocumentMutationsTable, kMutationQueuesTable],
        ∀ key, stringComponent .TableName table <+: key →
          SortedEntries.get key db = SortedEntries.get key queue.db)
      (versioned : ∃ row ∈ db, LevelDbVersionKey.key = some row.1) :
      Run serializer coding ⟨⟨db, queue.userId, queue.nextBatchId⟩, queue.metadata⟩ pending tokens

variable {serializer : LocalSerializer Change} {coding : MessageCoding}
  {queue : StartedMutationQueue}
  {pending : ByteString → List (MutationBatch (Mutation DocumentKey Change))}
  {tokens : ByteString → ByteString}

/-- A queue is started with the number and what is kept of it. -/
theorem of_started {userId : ByteString} {db : LevelDb} (started : start coding userId db = some queue) :
    LevelDbMutationQueue.start userId db = some queue.toLevelDbMutationQueue ∧
      metadataForKey coding userId db = some queue.metadata ∧ queue.db = db ∧
      queue.userId = userId := by
  rw [start, Option.bind_eq_bind, Option.bind_eq_some_iff] at started
  obtain ⟨taken, isTaken, rest⟩ := started
  rw [Option.bind_eq_bind, Option.bind_eq_some_iff] at rest
  obtain ⟨metadata, isMetadata, same⟩ := rest
  cases same
  refine ⟨isTaken, isMetadata, ?_⟩
  rw [LevelDbMutationQueue.start, Option.map_eq_some_iff] at isTaken
  obtain ⟨nextBatchId, -, rfl⟩ := isTaken
  exact ⟨rfl, rfl⟩

/-- What is kept of a queue is in its row, or is a message of default values. -/
theorem metadataForKey_eq (coding : MessageCoding) (userId : ByteString) (db : LevelDb) :
    metadataForKey coding userId db =
      match SortedEntries.get (LevelDbMutationQueueKey.rowWord userId) db with
      | none => some ⟨0, []⟩
      | some value => coding.tryParse value := by
  rw [metadataForKey, LevelDbMutationQueueKey.key_eq]
  rfl

/-- Setting the token puts one row. -/
theorem setLastStreamToken_eq (coding : MessageCoding) (streamToken : ByteString)
    (queue : StartedMutationQueue) : queue.setLastStreamToken coding streamToken =
      some ⟨⟨SortedEntries.put (LevelDbMutationQueueKey.rowWord queue.userId)
        (coding.makeStdString { queue.metadata with lastStreamToken := streamToken }) queue.db,
        queue.userId, queue.nextBatchId⟩, { queue.metadata with lastStreamToken := streamToken }⟩ := by
  rw [setLastStreamToken, LevelDbMutationQueueKey.key_eq, Option.bind_eq_bind, Option.bind_some]

/-- Such a run is a run of the queues without the tokens. -/
theorem Run.batches (run : Run serializer coding queue pending tokens) :
    LevelDbMutationQueue.Run serializer queue.toLevelDbMutationQueue pending := by
  induction run with
  | create sorted tables unused _ started =>
    exact .create sorted tables (fun row member => ⟨unused row member _ (by simp),
      unused row member _ (by simp)⟩) (of_started started).1
  | start _ started batches => exact batches.start (of_started started).1
  | add _ room named added batches => exact batches.add room named added
  | remove _ held removed batches => exact batches.remove held removed
  | @token queue pending tokens _ streamToken after set batches =>
    rw [setLastStreamToken_eq, Option.some_inj] at set
    subst set
    have valid := batches.valid
    refine batches.others (valid.sorted.put _ _) (fun row member => ?_) fun key table => ?_
    · have present := SortedEntries.get_isSome_iff.mpr (List.mem_map_of_mem member)
      rw [SortedEntries.get_put] at present
      split_ifs at present with isRow
      · exact ⟨_, isRow ▸ LevelDbMutationQueueKey.table_begins _⟩
      · exact valid.tables row.1 present
    · rw [SortedEntries.get_put, if_neg]
      rintro rfl
      obtain batches | index := table
      · exact absurd (one_table batches (LevelDbMutationQueueKey.table_begins _)) (by decide)
      · exact absurd (one_table index (LevelDbMutationQueueKey.table_begins _)) (by decide)
  | others _ sorted tables same _ batches =>
    refine batches.others sorted tables fun key table => ?_
    obtain batches | index := table
    · exact same _ (by simp) key batches
    · exact same _ (by simp) key index

/-- What is kept of the queues: the token set last for each user is in its row and, of the
queue in use, in the copy; and the schema has a version. -/
structure Kept (coding : MessageCoding) (queue : StartedMutationQueue)
    (tokens : ByteString → ByteString) : Prop where
  versioned : ∃ row ∈ queue.db, row.1 = LevelDbVersionKey.rowWord
  stored : ∀ userId, ∃ message, metadataForKey coding userId queue.db = some message ∧
    message.lastStreamToken = tokens userId
  current : queue.getLastStreamToken = tokens queue.userId

/-- The row of the version, as it is written. -/
theorem versioned_iff {db : LevelDb} : (∃ row ∈ db, row.1 = LevelDbVersionKey.rowWord) ↔
    (SortedEntries.get LevelDbVersionKey.rowWord db).isSome = true := by
  rw [SortedEntries.get_isSome_iff, List.mem_map]

/-- What is kept stays where the rows of the other tables do. -/
theorem Kept.of_same {after : LevelDbMutationQueue} (kept : Kept coding queue tokens)
    (sameUser : after.userId = queue.userId)
    (versioned : ∃ row ∈ after.db, row.1 = LevelDbVersionKey.rowWord)
    (same : ∀ key, stringComponent .TableName kMutationQueuesTable <+: key →
      SortedEntries.get key after.db = SortedEntries.get key queue.db) :
    Kept coding ⟨after, queue.metadata⟩ tokens := by
  refine ⟨versioned, fun userId => ?_, ?_⟩
  · rw [metadataForKey_eq, same _ (LevelDbMutationQueueKey.table_begins userId),
      ← metadataForKey_eq]
    exact kept.stored userId
  · exact kept.current.trans (congrArg tokens sameUser.symm)

/-- So does it where batches come or go. -/
theorem Kept.elsewhere {after : LevelDbMutationQueue} (kept : Kept coding queue tokens)
    (sameUser : after.userId = queue.userId)
    (same : ∀ key table, stringComponent .TableName table <+: key → table ≠ kMutationsTable →
      table ≠ kDocumentMutationsTable → SortedEntries.get key after.db =
        SortedEntries.get key queue.db) : Kept coding ⟨after, queue.metadata⟩ tokens := by
  refine kept.of_same sameUser ?_ fun key begins => same key _ begins (by decide) (by decide)
  rw [versioned_iff, same _ _ LevelDbVersionKey.table_begins (by decide) (by decide),
    ← versioned_iff]
  exact kept.versioned

/-- In every state of every run the token set last is kept. -/
theorem Run.kept (reads : coding.RoundTrips) (run : Run serializer coding queue pending tokens) :
    Kept coding queue tokens := by
  induction run with
  | @create db _ _ unused versioned userId queue started =>
    obtain ⟨-, isMetadata, rfl, rfl⟩ := of_started started
    have none (other : ByteString) : metadataForKey coding other queue.db = some ⟨0, []⟩ := by
      rw [metadataForKey_eq]
      cases present : SortedEntries.get (LevelDbMutationQueueKey.rowWord other) queue.db with
      | none => rfl
      | some value =>
        obtain ⟨row, member, isRow⟩ := List.mem_map.mp (SortedEntries.get_isSome_iff.mp
          (by rw [present]; rfl : (SortedEntries.get (LevelDbMutationQueueKey.rowWord other)
            queue.db).isSome = true))
        exact absurd (isRow ▸ LevelDbMutationQueueKey.table_begins other)
          (unused row member _ (by simp))
    rw [none, Option.some_inj] at isMetadata
    refine ⟨?_, fun other => ⟨_, none other, rfl⟩, ?_⟩
    · simpa [LevelDbVersionKey.key_eq, eq_comm] using versioned
    · rw [getLastStreamToken, ← isMetadata]
  | @start queue pending tokens _ userId after started kept =>
    obtain ⟨-, isMetadata, sameRows, rfl⟩ := of_started started
    refine ⟨sameRows ▸ kept.versioned, sameRows ▸ kept.stored, ?_⟩
    obtain ⟨message, isMessage, isToken⟩ := kept.stored after.userId
    rw [isMetadata, Option.some_inj] at isMessage
    rw [getLastStreamToken, isMessage, isToken]
  | add run room named added kept =>
    have valid := run.batches.valid
    obtain ⟨last, isAfter, sameUser, -⟩ :=
      valid.add room (LevelDbMutationQueue.nonempty_of_added added) named
    rw [added, Option.some_inj, Prod.mk.injEq] at isAfter
    exact kept.elsewhere (isAfter.2 ▸ sameUser) fun key table begins notBatches notIndex =>
      valid.get_added room added begins notBatches notIndex
  | remove run held removed kept =>
    have valid := run.batches.valid
    obtain ⟨last, isAfter, sameUser, -⟩ := valid.remove held
    rw [removed, Option.some_inj] at isAfter
    exact kept.elsewhere (isAfter ▸ sameUser) fun key table begins notBatches notIndex =>
      valid.get_removed held removed begins notBatches notIndex
  | @token queue pending tokens _ streamToken after set kept =>
    rw [setLastStreamToken_eq, Option.some_inj] at set
    subst set
    refine ⟨?_, fun userId => ?_, ?_⟩
    · have other : LevelDbVersionKey.rowWord ≠ LevelDbMutationQueueKey.rowWord queue.userId :=
        fun same => absurd (one_table LevelDbVersionKey.table_begins
          (same ▸ LevelDbMutationQueueKey.table_begins queue.userId)) (by decide)
      rw [versioned_iff, SortedEntries.get_put, if_neg other, ← versioned_iff]
      exact kept.versioned
    · rw [metadataForKey_eq, SortedEntries.get_put]
      by_cases own : userId = queue.userId
      · subst own
        rw [if_pos rfl, Function.update_self]
        exact ⟨_, reads _, rfl⟩
      · rw [if_neg (mt LevelDbMutationQueueKey.rowWord_inj own), ← metadataForKey_eq,
          Function.update_of_ne own]
        exact kept.stored userId
    · exact (Function.update_self queue.userId streamToken tokens).symm
  | others _ _ _ same versioned kept =>
    refine kept.of_same rfl ?_ (same _ (by simp))
    simpa [LevelDbVersionKey.key_eq, eq_comm] using versioned

/-- In every state of every run a queue is empty where its user has no batches left, all of
them are read in their order, a number finds its batch and the next one, the highest number
is the last batch's, the check finds nothing, and the token is the one set last for the
user, also for a user whose queue is taken up now. -/
theorem database_queues_answer (roundTrips : serializer.RoundTrips) (reads : coding.RoundTrips)
    (run : Run serializer coding queue pending tokens) :
    queue.isEmpty = some (pending queue.userId).isEmpty ∧
    queue.allMutationBatches serializer = some (pending queue.userId) ∧
    (∀ batchId, -2 ^ 31 ≤ batchId → batchId ≤ 2 ^ 31 - 1 →
      queue.lookupMutationBatch serializer batchId =
        some ((pending queue.userId).find? fun batch => batch.batchId = batchId)) ∧
    (∀ batchId, -2 ^ 31 ≤ batchId → batchId < 2 ^ 31 - 1 →
      queue.nextMutationBatchAfterBatchId serializer batchId =
        some ((pending queue.userId).find? fun batch => batchId < batch.batchId)) ∧
    queue.getHighestUnacknowledgedBatchId =
      some (((pending queue.userId).getLast?.map MutationBatch.batchId).getD kBatchIdUnknown) ∧
    queue.performConsistencyCheck = some () ∧
    queue.getLastStreamToken = tokens queue.userId ∧
    (∀ streamToken, (queue.setLastStreamToken coding streamToken).isSome = true) ∧
    ∀ userId, ∃ after, start coding userId queue.db = some after ∧
      after.getLastStreamToken = tokens userId := by
  have valid := run.batches.valid
  have kept := run.kept reads
  obtain ⟨row, member, isVersion⟩ := kept.versioned
  refine ⟨valid.isEmpty, valid.allMutationBatches roundTrips,
    fun batchId low high => valid.lookup roundTrips ⟨low, high⟩,
    fun batchId low high => valid.nextAfter roundTrips ⟨low, high⟩,
    valid.highest member (isVersion ▸ version_behind _), valid.check, kept.current,
    fun streamToken => by rw [setLastStreamToken_eq]; rfl, fun userId => ?_⟩
  obtain ⟨after, started, -⟩ := valid.start userId
  obtain ⟨message, isMessage, isToken⟩ := kept.stored userId
  refine ⟨⟨after, message⟩, ?_, isToken⟩
  rw [start, started, isMessage]
  rfl

/-- What is kept of a queue, by its number in a list of all. -/
def plainCoding : MessageCoding where
  makeStdString message :=
    List.replicate (Encodable.encode (message.lastAcknowledgedBatchId, message.lastStreamToken)) 0
  tryParse bytes :=
    (Encodable.decode bytes.length : Option (Int × ByteString)).map fun decoded =>
      ⟨decoded.1, decoded.2⟩

/-- The plain coding reads back what it writes. -/
theorem plainCoding_roundTrips : plainCoding.RoundTrips := by
  intro message
  simp only [plainCoding, List.length_replicate, Encodable.encodek, Option.map_some]

/-- One write and a token, in a database with nothing but its version. -/
theorem database_queues_answer_one :
    ∃ queue : StartedMutationQueue,
      queue.lookupMutationBatch LevelDbMutationQueue.plainSerializer 1 =
        some (some ⟨1, [⟨⟨[[99], [100]], rfl⟩, ()⟩]⟩) ∧
      queue.getHighestUnacknowledgedBatchId = some 1 ∧ queue.getLastStreamToken = [116] := by
  have first : start plainCoding [117] [(LevelDbVersionKey.rowWord, [])] =
      some ⟨⟨[(LevelDbVersionKey.rowWord, [])], [117], 1⟩, ⟨0, []⟩⟩ := by
    have refused : LevelDbMutationKey.decode LevelDbVersionKey.rowWord = some none :=
      LevelDbMutationKey.decode_other (by decide) LevelDbVersionKey.table_begins
    have loaded : LevelDbMutationQueue.loadNextBatchIdFromDb
        [(LevelDbVersionKey.rowWord, [])] = some 1 := by
      rw [LevelDbMutationQueue.loadNextBatchIdFromDb, LevelDbMutationKey.tablePrefix_eq]
      by_cases before : LevelDbVersionKey.rowWord < stringComponent .TableName kMutationsTable <;>
        simp [LevelDb.seek, before, LevelDbMutationQueue.decodeRow, refused]
    have other : LevelDbVersionKey.rowWord ≠ LevelDbMutationQueueKey.rowWord [117] :=
      fun same => absurd (one_table LevelDbVersionKey.table_begins
        (same ▸ LevelDbMutationQueueKey.table_begins [117])) (by decide)
    have none : metadataForKey plainCoding [117] [(LevelDbVersionKey.rowWord, [])] =
        some ⟨0, []⟩ := by
      simp [metadataForKey_eq, SortedEntries.get, other]
    rw [start, LevelDbMutationQueue.start, loaded, none]
    rfl
  have started : Run LevelDbMutationQueue.plainSerializer plainCoding
      ⟨⟨[(LevelDbVersionKey.rowWord, [])], [117], 1⟩, ⟨0, []⟩⟩ (fun _ => []) fun _ => [] := by
    refine .create (List.pairwise_singleton _ _) ?_ ?_ ?_ first
    · simpa using ⟨_, LevelDbVersionKey.table_begins⟩
    · intro row member table isTable begins
      rw [List.mem_singleton.mp member] at begins
      rw [one_table begins LevelDbVersionKey.table_begins] at isTable
      exact absurd isTable (by decide)
    · exact ⟨_, List.mem_singleton_self _, LevelDbVersionKey.key_eq⟩
  have named : ∀ mutation ∈ [(⟨⟨[[99], [100]], rfl⟩, ()⟩ : Mutation DocumentKey Unit)],
      mutation.key.val ≠ [] := by simp
  obtain ⟨after, added, sameUser, -⟩ :=
    started.batches.valid.add (by decide) (by simp) named
  have whole := (started.add (by decide) named added).token (setLastStreamToken_eq _ [116] _)
  obtain ⟨-, -, lookup, -, highest, -, token, -⟩ :=
    database_queues_answer LevelDbMutationQueue.plainSerializer_roundTrips plainCoding_roundTrips
      whole
  refine ⟨_, (lookup 1 (by decide) (by decide)).trans ?_, highest.trans ?_, token.trans ?_⟩
  · rw [sameUser]
    rfl
  · rw [sameUser]
    rfl
  · rw [Function.update_self]

end StartedMutationQueue

end Amigo.Firestore
