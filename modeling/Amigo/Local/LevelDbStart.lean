import Amigo.Local.LevelDbScans

/-!
# Taking up a queue of the local database

Rows of batches are ordered by user and number, so the last row before the successor of a
user's beginning is the user's batch with the highest number, and the row after it is the
first of the next user who has one, or of another table. Going from user to user the
search sees the highest number of each, and it ends: every round leaves the rows of a user
behind.
-/

namespace Amigo.Firestore

open OrderedCodes OrderedCode

namespace LevelDb

variable {db : LevelDb}

/-- The rows before a key are those a search for it passes. -/
theorem mem_takeWhile (sorted : SortedEntries.Sorted db) {key : ByteString}
    {row : ByteString × ByteString} :
    row ∈ db.takeWhile (fun row => row.1 < key) ↔ row ∈ db ∧ row.1 < key := by
  have parted : db.takeWhile (fun row => row.1 < key) ++ db.seek key = db :=
    List.takeWhile_append_dropWhile
  have split := SortedEntries.beneath_above sorted key
  rw [← seek_eq sorted] at split
  rw [List.append_cancel_right (parted.trans split.symm), List.mem_filter]
  simp

/-- The last row before a key is the greatest. -/
theorem last_before (sorted : SortedEntries.Sorted db) {key : ByteString}
    {row : ByteString × ByteString} (member : row ∈ db) (below : row.1 < key) :
    ∃ last ∈ db, (db.takeWhile fun row => row.1 < key).getLast? = some last ∧ last.1 < key ∧
      ∀ other ∈ db, other.1 < key → other.1 ≤ last.1 := by
  have passed := (mem_takeWhile sorted).mpr ⟨member, below⟩
  have front : SortedEntries.Sorted (db.takeWhile fun row => row.1 < key) :=
    List.Pairwise.sublist (List.takeWhile_sublist _) sorted
  obtain ⟨others, last, split⟩ : ∃ others last,
      db.takeWhile (fun row => row.1 < key) = others ++ [last] :=
    ⟨_, _, (List.dropLast_append_getLast (List.ne_nil_of_mem passed)).symm⟩
  have isLast := (mem_takeWhile sorted).mp
    (split ▸ List.mem_append_right others (List.mem_singleton_self last))
  refine ⟨last, isLast.1, by rw [split, List.getLast?_concat], isLast.2, ?_⟩
  intro other isOther beneath
  have inFront := (mem_takeWhile sorted).mpr ⟨isOther, beneath⟩
  rw [split] at inFront front
  obtain earlier | same := List.mem_append.mp inFront
  · exact ((List.pairwise_append.mp front).2.2 other earlier last (by simp)).le
  · rw [List.mem_singleton.mp same]

/-- The row where a search stops is the least from the key on. -/
theorem first_from (sorted : SortedEntries.Sorted db) (key : ByteString) :
    ((db.seek key).head? = none ∧ ∀ row ∈ db, row.1 < key) ∨
      ∃ first ∈ db, (db.seek key).head? = some first ∧ key ≤ first.1 ∧
        ∀ other ∈ db, key ≤ other.1 → first.1 ≤ other.1 := by
  have kept {row : ByteString × ByteString} : row ∈ db.seek key ↔ row ∈ db ∧ key ≤ row.1 := by
    simp [seek_eq sorted, SortedEntries.above]
  have behind : SortedEntries.Sorted (db.seek key) :=
    List.Pairwise.sublist (List.dropWhile_sublist _) sorted
  cases found : db.seek key with
  | nil =>
    refine .inl ⟨rfl, fun row member => not_le.mp fun from_ => ?_⟩
    have present := kept.mpr ⟨member, from_⟩
    rw [found] at present
    exact absurd present List.not_mem_nil
  | cons first rest =>
    have isFirst := kept.mp (found ▸ List.mem_cons_self)
    refine .inr ⟨first, isFirst.1, rfl, isFirst.2, fun other member from_ => ?_⟩
    have present := kept.mpr ⟨member, from_⟩
    rw [found] at present behind
    obtain rfl | later := List.mem_cons.mp present
    · exact le_rfl
    · exact ((List.pairwise_cons.mp behind).1 other later).le

end LevelDb

/-- Before the end of a user's rows is what is before them, and what begins as they do. -/
theorem lt_userEnd_iff (table userId key : ByteString) :
    key < ByteString.prefixSuccessor (tableWord table userId) ↔
      key < tableWord table userId ∨ tableWord table userId <+: key := by
  obtain ⟨front, split⟩ : ∃ front, tableWord table userId = front ++ [kSeparator] := by
    refine ⟨stringComponent .TableName table ++ (ComponentLabel.UserId.word ++
      (userId.flatMap escape ++ [kEscape1])), ?_⟩
    simp [tableWord, stringComponent, stringWord]
  have small : kSeparator ≠ 255 := by decide
  rw [split, ByteString.prefixSuccessor_append front small,
    ByteString.lt_successor_iff front small]

namespace LevelDbMutationQueue.Valid

variable {Change : Type} {serializer : LocalSerializer Change} {queue : LevelDbMutationQueue}
  {pending : ByteString → List (MutationBatch (Mutation DocumentKey Change))}

/-- A batch has its row. -/
theorem held_row (valid : queue.Valid serializer pending) {userId : ByteString}
    {batch : MutationBatch (Mutation DocumentKey Change)} (held : batch ∈ pending userId) :
    ∃ row ∈ queue.db, row.1 = LevelDbMutationKey.rowWord userId batch.batchId := by
  have present : (SortedEntries.get (LevelDbMutationKey.rowWord userId batch.batchId)
      queue.db).isSome = true := by
    rw [valid.batchRows userId batch held]
    rfl
  exact List.mem_map.mp (SortedEntries.get_isSome_iff.mp present)

/-- A row of the table of batches is that of a batch. -/
theorem row_held (valid : queue.Valid serializer pending) {row : ByteString × ByteString}
    (member : row ∈ queue.db) (table : stringComponent .TableName kMutationsTable <+: row.1) :
    ∃ userId, ∃ batch ∈ pending userId,
      row.1 = LevelDbMutationKey.rowWord userId batch.batchId ∧
      LevelDbMutationKey.decode row.1 = some (some (userId, batch.batchId)) := by
  obtain ⟨userId, batch, held, isRow⟩ := valid.batchKeys row.1 table
    (SortedEntries.get_isSome_iff.mpr (List.mem_map_of_mem member))
  exact ⟨userId, batch, held, isRow, isRow ▸
    LevelDbMutationKey.decode_rowWord userId (valid.range held)⟩

/-- A row of another table is refused. -/
theorem row_other (valid : queue.Valid serializer pending) {row : ByteString × ByteString}
    (member : row ∈ queue.db) (other : ¬ stringComponent .TableName kMutationsTable <+: row.1) :
    LevelDbMutationKey.decode row.1 = some none := by
  obtain ⟨table, begins⟩ := valid.tables row.1
    (SortedEntries.get_isSome_iff.mpr (List.mem_map_of_mem member))
  refine LevelDbMutationKey.decode_other ?_ begins
  rintro rfl
  exact other begins

/-- Rows of batches are ordered by user and number. -/
theorem rows_lt_iff (valid : queue.Valid serializer pending) {userId other : ByteString}
    {batch last : MutationBatch (Mutation DocumentKey Change)} (held : batch ∈ pending userId)
    (lastHeld : last ∈ pending other) :
    LevelDbMutationKey.rowWord userId batch.batchId <
        LevelDbMutationKey.rowWord other last.batchId ↔
      userId < other ∨ userId = other ∧ batch.batchId < last.batchId := by
  obtain ⟨number, isNumber⟩ := valid.signed held
  obtain ⟨lastNumber, isLast⟩ := valid.signed lastHeld
  rw [← isNumber, ← isLast, LevelDbMutationKey.rowWord_lt_iff]
  rfl

/-- The last row before the end of a user's rows is the user's highest batch. -/
theorem last_of_user (valid : queue.Valid serializer pending) {userId : ByteString}
    (has : pending userId ≠ []) :
    ∃ row ∈ queue.db, ∃ batch ∈ pending userId,
      (queue.db.takeWhile fun row => row.1 < ByteString.prefixSuccessor
        (tableWord kMutationsTable userId)).getLast? = some row ∧
      row.1 = LevelDbMutationKey.rowWord userId batch.batchId ∧
      LevelDbMutationKey.decode row.1 = some (some (userId, batch.batchId)) ∧
      ∀ other ∈ pending userId, other.batchId ≤ batch.batchId := by
  have inside (batch : MutationBatch (Mutation DocumentKey Change)) :
      LevelDbMutationKey.rowWord userId batch.batchId < ByteString.prefixSuccessor
        (tableWord kMutationsTable userId) :=
    (lt_userEnd_iff _ _ _).mpr (.inr ((LevelDbMutationKey.prefix_rowWord_iff _ _ _).mpr rfl))
  obtain ⟨batch, held⟩ := List.exists_mem_of_ne_nil _ has
  obtain ⟨row, member, isRow⟩ := valid.held_row held
  obtain ⟨last, isLast, found, beneath, greatest⟩ :=
    LevelDb.last_before valid.sorted member (isRow ▸ inside batch)
  have begins : tableWord kMutationsTable userId <+: last.1 := by
    obtain less | begins := (lt_userEnd_iff _ _ _).mp beneath
    · have above := prefix_le ((LevelDbMutationKey.prefix_rowWord_iff userId userId
        batch.batchId).mpr rfl)
      rw [← isRow] at above
      exact absurd (above.trans (greatest row member (isRow ▸ inside batch))) (not_le.mpr less)
    · exact begins
  have table : stringComponent .TableName kMutationsTable <+: last.1 :=
    (List.prefix_append _ _).trans begins
  obtain ⟨owner, highest, highestHeld, isHighest, decoded⟩ := valid.row_held isLast table
  rw [isHighest, LevelDbMutationKey.prefix_rowWord_iff] at begins
  subst begins
  refine ⟨last, isLast, highest, highestHeld, found, isHighest, decoded, ?_⟩
  intro other otherHeld
  obtain ⟨otherRow, isOther, isOtherRow⟩ := valid.held_row otherHeld
  have below := greatest otherRow isOther (isOtherRow ▸ inside other)
  by_contra higher
  rw [isOtherRow, isHighest, ← not_lt] at below
  exact below ((valid.rows_lt_iff highestHeld otherHeld).mpr (.inr ⟨rfl, not_le.mp higher⟩))

/-- The row at the end of a user's rows is of the next user with a batch, or there is no
such user. -/
theorem next_user (valid : queue.Valid serializer pending) {userId : ByteString}
    (has : pending userId ≠ []) :
    (∃ other batchId, decodeRow (queue.db.seek (ByteString.prefixSuccessor
        (tableWord kMutationsTable userId))).head? = some (some (other, batchId)) ∧
      userId < other ∧ pending other ≠ [] ∧
      ∀ third, userId < third → pending third ≠ [] → other ≤ third) ∨
    (decodeRow (queue.db.seek (ByteString.prefixSuccessor
        (tableWord kMutationsTable userId))).head? = some none ∧
      ∀ third, userId < third → pending third = []) := by
  have behind {third : ByteString} (later : userId < third)
      (batch : MutationBatch (Mutation DocumentKey Change)) :
      ByteString.prefixSuccessor (tableWord kMutationsTable userId) ≤
        LevelDbMutationKey.rowWord third batch.batchId := by
    rw [← not_lt, lt_userEnd_iff, LevelDbMutationKey.prefix_rowWord_iff]
    rintro (less | rfl)
    · have ordered := (ordered_tableWord kMutationsTable).lt_iff third userId
        (batchWord batch.batchId ++ ComponentLabel.Terminator.word) []
      rw [List.append_nil] at ordered
      obtain earlier | ⟨-, nothing⟩ := ordered.mp less
      · exact later.asymm earlier
      · exact absurd nothing (List.not_lt_nil _)
    · exact lt_irrefl _ later
  obtain ⟨last, isLast, highest, highestHeld, -, isHighest, -⟩ := valid.last_of_user has
  obtain ⟨nothing, passed⟩ | ⟨first, isFirst, found, from_, least⟩ :=
    LevelDb.first_from valid.sorted
      (ByteString.prefixSuccessor (tableWord kMutationsTable userId))
  · refine .inr ⟨by rw [nothing, decodeRow], fun third later => ?_⟩
    by_contra has
    obtain ⟨batch, held⟩ := List.exists_mem_of_ne_nil _ has
    obtain ⟨row, member, isRow⟩ := valid.held_row held
    exact absurd (passed row member) (not_lt.mpr (isRow ▸ behind later batch))
  · by_cases table : stringComponent .TableName kMutationsTable <+: first.1
    · obtain ⟨other, batch, held, isRow, decoded⟩ := valid.row_held isFirst table
      have later : userId < other := by
        have ordered := (valid.rows_lt_iff highestHeld held).mp (by
          rw [← isHighest, ← isRow]
          exact lt_of_lt_of_le ((lt_userEnd_iff _ _ _).mpr (.inr (by
            rw [isHighest, LevelDbMutationKey.prefix_rowWord_iff]))) from_)
        obtain less | ⟨rfl, -⟩ := ordered
        · exact less
        · exact absurd ((lt_userEnd_iff _ _ _).mpr (.inr (by
            rw [isRow, LevelDbMutationKey.prefix_rowWord_iff]))) (not_lt.mpr from_)
      refine .inl ⟨other, batch.batchId, by rw [found, decodeRow, decoded], later,
        List.ne_nil_of_mem held, fun third after has => ?_⟩
      obtain ⟨otherBatch, otherHeld⟩ := List.exists_mem_of_ne_nil _ has
      obtain ⟨row, member, isOtherRow⟩ := valid.held_row otherHeld
      have below := least row member (isOtherRow ▸ behind after otherBatch)
      by_contra earlier
      rw [isRow, isOtherRow, ← not_lt] at below
      exact below ((valid.rows_lt_iff otherHeld held).mpr (.inl (not_le.mp earlier)))
    · have refused := valid.row_other isFirst table
      refine .inr ⟨by rw [found, decodeRow, refused], fun third later => ?_⟩
      by_contra has
      obtain ⟨batch, held⟩ := List.exists_mem_of_ne_nil _ has
      obtain ⟨row, member, isRow⟩ := valid.held_row held
      have above : last.1 ≤ first.1 := by
        refine (lt_of_lt_of_le ((lt_userEnd_iff _ _ _).mpr (.inr ?_)) from_).le
        rw [isHighest, LevelDbMutationKey.prefix_rowWord_iff]
      exact table (prefix_between (isHighest ▸ LevelDbMutationKey.table_begins _ _)
        (isRow ▸ LevelDbMutationKey.table_begins _ _) above
        (least row member (isRow ▸ behind later batch)))

/-- The rows from a user's beginning on become fewer from user to user. -/
theorem fewer_rows (valid : queue.Valid serializer pending) {userId other : ByteString}
    (has : pending userId ≠ []) (later : userId < other) :
    (SortedEntries.above (tableWord kMutationsTable other) queue.db).length <
      (SortedEntries.above (tableWord kMutationsTable userId) queue.db).length := by
  have ordered {rest : ByteString} : tableWord kMutationsTable userId ++ rest <
      tableWord kMutationsTable other := by
    have less := ((ordered_tableWord kMutationsTable).lt_iff userId other rest []).mpr (.inl later)
    rwa [List.append_nil] at less
  obtain ⟨batch, held⟩ := List.exists_mem_of_ne_nil _ has
  obtain ⟨row, member, isRow⟩ := valid.held_row held
  have inside : row ∈ SortedEntries.above (tableWord kMutationsTable userId) queue.db := by
    refine List.mem_filter.mpr ⟨member, decide_eq_true ?_⟩
    rw [isRow]
    exact prefix_le ((LevelDbMutationKey.prefix_rowWord_iff _ _ _).mpr rfl)
  have outside : row ∉ SortedEntries.above (tableWord kMutationsTable other) queue.db := by
    intro present
    have above := of_decide_eq_true (List.mem_filter.mp present).2
    rw [isRow] at above
    exact absurd ordered (not_lt.mpr above)
  have fewer : (SortedEntries.above (tableWord kMutationsTable other) queue.db).Sublist
      (SortedEntries.above (tableWord kMutationsTable userId) queue.db) := by
    refine List.monotone_filter_right _ fun entry above => decide_eq_true ?_
    have less := @ordered []
    rw [List.append_nil] at less
    exact (less.trans_le (of_decide_eq_true above)).le
  refine lt_of_le_of_ne fewer.length_le fun same => outside ?_
  rw [fewer.eq_of_length same]
  exact inside

/-- The search finds a number that no batch of the users it meets exceeds. -/
theorem highestBatchId_spec (valid : queue.Valid serializer pending) (rounds : Nat)
    {userId : ByteString} (has : pending userId ≠ [])
    (enough : (SortedEntries.above (tableWord kMutationsTable userId) queue.db).length ≤ rounds)
    {maxBatchId : Int} (range : 0 ≤ maxBatchId ∧ maxBatchId < 2 ^ 31 - 1) :
    ∃ highest, highestBatchId queue.db rounds userId maxBatchId = some highest ∧
      0 ≤ highest ∧ highest < 2 ^ 31 - 1 ∧ maxBatchId ≤ highest ∧
      ∀ other, userId ≤ other → ∀ batch ∈ pending other, batch.batchId ≤ highest := by
  induction rounds generalizing userId maxBatchId with
  | zero =>
    obtain ⟨batch, held⟩ := List.exists_mem_of_ne_nil _ has
    obtain ⟨row, member, isRow⟩ := valid.held_row held
    have inside : row ∈ SortedEntries.above (tableWord kMutationsTable userId) queue.db := by
      refine List.mem_filter.mpr ⟨member, decide_eq_true ?_⟩
      rw [isRow]
      exact prefix_le ((LevelDbMutationKey.prefix_rowWord_iff _ _ _).mpr rfl)
    rw [List.length_eq_zero_iff.mp (Nat.le_zero.mp enough)] at inside
    exact absurd inside List.not_mem_nil
  | succ rounds inductionHypothesis =>
    obtain ⟨last, -, batch, held, found, -, decoded, greatest⟩ := valid.last_of_user has
    have own := valid.numbered userId batch held
    obtain ⟨raised, isRaised⟩ : ∃ raised, raised =
        if maxBatchId < batch.batchId then batch.batchId else maxBatchId := ⟨_, rfl⟩
    have bounds : 0 ≤ raised ∧ raised < 2 ^ 31 - 1 ∧ maxBatchId ≤ raised ∧
        batch.batchId ≤ raised := by
      rw [isRaised]
      split_ifs <;> omega
    obtain ⟨other, batchId, next, later, otherSome, least⟩ | ⟨more, nobody⟩ :=
      valid.next_user has
    · obtain ⟨highest, continued, positive, small, above, all⟩ := inductionHypothesis otherSome
        (Nat.le_of_lt_succ ((valid.fewer_rows has later).trans_le enough))
        ⟨bounds.1, bounds.2.1⟩
      refine ⟨highest, ?_, positive, small, bounds.2.2.1.trans above, ?_⟩
      · simp only [highestBatchId, LevelDbMutationKey.userPrefix_eq, Option.bind_eq_bind,
          Option.bind_some, next, found, decoded, ← isRaised, continued]
      · intro third from_ each isHeld
        obtain rfl | after := eq_or_lt_of_le from_
        · exact (greatest each isHeld).trans (bounds.2.2.2.trans above)
        · exact all third (least third after (List.ne_nil_of_mem isHeld)) each isHeld
    · refine ⟨raised, ?_, bounds.1, bounds.2.1, bounds.2.2.1, ?_⟩
      · simp only [highestBatchId, LevelDbMutationKey.userPrefix_eq, Option.bind_eq_bind,
          Option.bind_some, more, found, decoded, ← isRaised]
      · intro third from_ each isHeld
        obtain rfl | after := eq_or_lt_of_le from_
        · exact (greatest each isHeld).trans bounds.2.2.2
        · rw [nobody third after] at isHeld
          exact absurd isHeld List.not_mem_nil

/-- The number a queue is started with is above those of all batches of all users. -/
theorem loadNextBatchIdFromDb_spec (valid : queue.Valid serializer pending) :
    ∃ nextBatchId, loadNextBatchIdFromDb queue.db = some nextBatchId ∧ 0 < nextBatchId ∧
      nextBatchId ≤ 2 ^ 31 - 1 ∧
      ∀ userId, ∀ batch ∈ pending userId, batch.batchId < nextBatchId := by
  have from_ {userId : ByteString} {batch : MutationBatch (Mutation DocumentKey Change)} :
      stringComponent .TableName kMutationsTable ≤
        LevelDbMutationKey.rowWord userId batch.batchId :=
    prefix_le (LevelDbMutationKey.table_begins _ _)
  have nobody {P : Prop} (none_ : ∀ row ∈ queue.db, stringComponent .TableName kMutationsTable ≤
        row.1 → ¬ stringComponent .TableName kMutationsTable <+: row.1)
      {userId : ByteString} {batch : MutationBatch (Mutation DocumentKey Change)}
      (held : batch ∈ pending userId) : P := by
    obtain ⟨row, member, isRow⟩ := valid.held_row held
    exact absurd (isRow ▸ LevelDbMutationKey.table_begins _ _)
      (none_ row member (isRow ▸ from_))
  obtain ⟨nothing, passed⟩ | ⟨first, isFirst, found, above, least⟩ :=
    LevelDb.first_from valid.sorted
      (stringComponent .TableName kMutationsTable)
  · refine ⟨1, ?_, by omega, by omega, fun userId batch held => nobody ?_ held⟩
    · simp [loadNextBatchIdFromDb, LevelDbMutationKey.tablePrefix_eq, nothing, decodeRow]
    · exact fun row member beyond => absurd (passed row member) (not_lt.mpr beyond)
  · by_cases table : stringComponent .TableName kMutationsTable <+: first.1
    · obtain ⟨userId, batch, held, isRow, decoded⟩ := valid.row_held isFirst table
      obtain ⟨highest, searched, positive, small, -, all⟩ := valid.highestBatchId_spec
        queue.db.length (List.ne_nil_of_mem held) (List.length_filter_le _ _)
        (by omega : (0 : Int) ≤ 0 ∧ (0 : Int) < 2 ^ 31 - 1)
      refine ⟨highest + 1, ?_, by omega, by omega, fun other each isHeld => ?_⟩
      · simp [loadNextBatchIdFromDb, LevelDbMutationKey.tablePrefix_eq, found, decodeRow, decoded,
          searched]
      · obtain ⟨row, member, isOther⟩ := valid.held_row isHeld
        have onward : userId ≤ other := by
          by_contra earlier
          have below := least row member (isOther ▸ from_)
          rw [isRow, isOther, ← not_lt] at below
          exact below ((valid.rows_lt_iff isHeld held).mpr (.inl (not_le.mp earlier)))
        exact Int.lt_add_one_of_le (all other onward each isHeld)
    · refine ⟨1, ?_, by omega, by omega, fun userId batch held => nobody ?_ held⟩
      · simp [loadNextBatchIdFromDb, LevelDbMutationKey.tablePrefix_eq, found, decodeRow,
          valid.row_other isFirst table]
      · intro row member beyond isRow
        exact table (prefix_between List.prefix_rfl isRow above (least row member beyond))

/-- Any user's queue can be taken up. -/
theorem start (valid : queue.Valid serializer pending) (userId : ByteString) :
    ∃ after, LevelDbMutationQueue.start userId queue.db = some after ∧ after.userId = userId ∧
      after.nextBatchId ≤ 2 ^ 31 - 1 ∧ after.Valid serializer pending := by
  obtain ⟨nextBatchId, loaded, positive, small, above⟩ := valid.loadNextBatchIdFromDb_spec
  refine ⟨⟨queue.db, userId, nextBatchId⟩, by simp [LevelDbMutationQueue.start, loaded], rfl,
    small, ?_⟩
  exact { valid with next := ⟨positive, above userId⟩ }

end LevelDbMutationQueue.Valid

end Amigo.Firestore
