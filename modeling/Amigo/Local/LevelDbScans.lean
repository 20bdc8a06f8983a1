import Amigo.Local.LevelDbKeySound
import Amigo.Local.LevelDbMutationQueue
import Amigo.Local.MemoryQueueScans

/-!
# Scans of the index in the local database

Between the beginning of the rows sought and a row sought every key begins the same way,
so nothing else lies between them, and a path sorts before the longer paths it begins: a
scan finds all rows sought before it breaks off. What the scans find is what a search of
all batches of the user finds, in the order of the queue, and each number they find has
its batch.
-/

namespace Amigo.Firestore

open OrderedCodes OrderedCode MemoryMutationQueue

namespace LevelDb

variable {db : LevelDb}

/-- The search goes to the rows from the key on. -/
theorem seek_eq (sorted : SortedEntries.Sorted db) (start : ByteString) :
    db.seek start = SortedEntries.above start db := by
  induction db with
  | nil => rfl
  | cons row rest inductionHypothesis =>
    obtain ⟨below, others⟩ := List.pairwise_cons.mp sorted
    by_cases before : row.1 < start
    · rw [seek, List.dropWhile_cons_of_pos (by simpa using before), SortedEntries.above,
        List.filter_cons_of_neg (by simpa using before)]
      exact inductionHypothesis others
    · rw [seek, List.dropWhile_cons_of_neg (by simpa using before), SortedEntries.above,
        List.filter_eq_self.mpr]
      intro other member
      obtain rfl | later := List.mem_cons.mp member
      · simpa using before
      · simpa using (not_lt.mp before).trans (below other later).le

/-- A row is where its key is sought. -/
theorem head_seek (sorted : SortedEntries.Sorted db) {key value : ByteString}
    (row : (key, value) ∈ db) : (db.seek key).head? = some (key, value) := by
  obtain ⟨before, after, rfl⟩ := List.append_of_mem row
  obtain ⟨-, -, under, -⟩ := SortedEntries.sorted_split.mp sorted
  have passed : ∀ other ∈ before, decide (other.1 < key) = true := fun other member =>
    decide_eq_true (under other member)
  rw [seek, List.dropWhile_append_of_pos passed, List.dropWhile_cons_of_neg (by simp)]
  rfl

/-- A scan that goes on up to the last row sought finds what all rows sought hold. -/
theorem scan_spec {rows : LevelDb} (sorted : SortedEntries.Sorted rows)
    (visit : ByteString → Option (Option (List Int)))
    (total : ∀ row ∈ rows, (visit row.1).isSome = true)
    (closed : ∀ first ∈ rows, ∀ second ∈ rows, first.1 < second.1 →
      ∀ found, visit second.1 = some (some found) → visit first.1 ≠ some none) :
    ∃ numbers, rows.scan visit = some numbers ∧ ∀ number, number ∈ numbers ↔
      ∃ row ∈ rows, ∃ found, visit row.1 = some (some found) ∧ number ∈ found := by
  induction rows with
  | nil => exact ⟨[], rfl, by simp⟩
  | cons row rest inductionHypothesis =>
    obtain ⟨below, others⟩ := List.pairwise_cons.mp sorted
    obtain ⟨visited, isVisited⟩ := Option.isSome_iff_exists.mp (total row (by simp))
    cases visited with
    | none =>
      refine ⟨[], by simp [scan, isVisited], fun number => iff_of_false (by simp) ?_⟩
      rintro ⟨other, member, found, isFound, -⟩
      obtain rfl | later := List.mem_cons.mp member
      · rw [isVisited] at isFound
        cases isFound
      · exact closed row (by simp) other member (below other later) found isFound isVisited
    | some found =>
      obtain ⟨numbers, scanned, members⟩ := inductionHypothesis others
        (fun other member => total other (by simp [member]))
        (fun first isFirst second isSecond => closed first (by simp [isFirst]) second
          (by simp [isSecond]))
      refine ⟨found ++ numbers, by simp [scan, isVisited, scanned], fun number => ?_⟩
      rw [List.mem_append, members]
      simp [isVisited]

/-- Of two rows from the beginning of the rows sought on, the first begins like the second. -/
theorem begins_before {start first second : ByteString} (above : start ≤ first)
    (before : first < second) (begins : start <+: second) : start <+: first :=
  prefix_between (List.prefix_refl start) begins above before.le

/-- A scan from a beginning on that breaks off where a key does not begin so. -/
theorem scan_beginning (sorted : SortedEntries.Sorted db) (start : ByteString)
    (visit : ByteString → Option (Option (List Int)))
    (outside : ∀ key, ¬ start <+: key → visit key = some none)
    (total : ∀ row ∈ db, start <+: row.1 → (visit row.1).isSome = true)
    (closed : ∀ first ∈ db, ∀ second ∈ db, start <+: first.1 → start <+: second.1 →
      first.1 < second.1 → ∀ found, visit second.1 = some (some found) →
        visit first.1 ≠ some none) :
    ∃ numbers, (db.seek start).scan visit = some numbers ∧ ∀ number, number ∈ numbers ↔
      ∃ row ∈ db, start <+: row.1 ∧ ∃ found, visit row.1 = some (some found) ∧ number ∈ found := by
  have kept {row : ByteString × ByteString} :
      row ∈ SortedEntries.above start db ↔ row ∈ db ∧ start ≤ row.1 := by
    simp [SortedEntries.above]
  have begins {key : ByteString} {found : List Int} (isFound : visit key = some (some found)) :
      start <+: key := by
    by_contra notBegins
    rw [outside key notBegins] at isFound
    cases isFound
  rw [seek_eq sorted]
  have onward : SortedEntries.Sorted (SortedEntries.above start db) := sorted.filter _
  obtain ⟨numbers, scanned, members⟩ := scan_spec onward visit
    (fun row member => by
      by_cases isSought : start <+: row.1
      · exact total row (kept.mp member).1 isSought
      · rw [outside row.1 isSought]
        rfl)
    (fun first isFirst second isSecond before found isFound =>
      closed first (kept.mp isFirst).1 second (kept.mp isSecond).1
        (begins_before (kept.mp isFirst).2 before (begins isFound)) (begins isFound) before found
        isFound)
  refine ⟨numbers, scanned, fun number => ?_⟩
  rw [members]
  constructor
  · rintro ⟨row, member, found, isFound, isNumber⟩
    exact ⟨row, (kept.mp member).1, begins isFound, found, isFound, isNumber⟩
  · rintro ⟨row, member, isSought, found, isFound, isNumber⟩
    exact ⟨row, kept.mpr ⟨member, prefix_le isSought⟩, found, isFound, isNumber⟩

end LevelDb

/-- The serializer reads what it writes. -/
def LocalSerializer.RoundTrips {Change : Type} (serializer : LocalSerializer Change) : Prop :=
  ∀ batch, serializer.decodeMutationBatch (serializer.encodeMutationBatch batch) = some batch

/-- The numbers of a set. -/
theorem LevelDbMutationQueue.collect_spec (found : List Int) {batchIds : List (Int × Unit)}
    (sorted : SortedEntries.Sorted batchIds) :
    SortedEntries.Sorted (LevelDbMutationQueue.collect found batchIds) ∧
      ∀ batchId, batchId ∈ (LevelDbMutationQueue.collect found batchIds).map Prod.fst ↔
        batchId ∈ batchIds.map Prod.fst ∨ batchId ∈ found := by
  induction found generalizing batchIds with
  | nil => exact ⟨sorted, fun batchId => by simp [LevelDbMutationQueue.collect]⟩
  | cons first rest inductionHypothesis =>
    obtain ⟨after, members⟩ := inductionHypothesis (sorted.put first ())
    refine ⟨after, fun batchId => ?_⟩
    have unfolded : LevelDbMutationQueue.collect (first :: rest) batchIds =
      LevelDbMutationQueue.collect rest (SortedEntries.put first () batchIds) := rfl
    rw [unfolded, members, ← SortedEntries.get_isSome_iff, SortedEntries.get_put,
      ← SortedEntries.get_isSome_iff]
    by_cases same : batchId = first <;> simp [same]

namespace LevelDbMutationQueue

variable {Change : Type}

/-- The batches each user has pending are the rows of the two tables, and every key tells
its table. -/
structure Valid (serializer : LocalSerializer Change) (queue : LevelDbMutationQueue)
    (pending : ByteString → List (MutationBatch (Mutation DocumentKey Change))) : Prop where
  sorted : SortedEntries.Sorted queue.db
  ascending : ∀ userId, Ascending (pending userId)
  numbered : ∀ userId, ∀ batch ∈ pending userId, 0 < batch.batchId ∧ batch.batchId < 2 ^ 31 - 1
  named : ∀ userId, ∀ batch ∈ pending userId, ∀ mutation ∈ batch.mutations, mutation.key.val ≠ []
  next : 0 < queue.nextBatchId ∧ ∀ batch ∈ pending queue.userId, batch.batchId < queue.nextBatchId
  batchRows : ∀ userId, ∀ batch ∈ pending userId,
    SortedEntries.get (LevelDbMutationKey.rowWord userId batch.batchId) queue.db =
      some (serializer.encodeMutationBatch batch)
  batchKeys : ∀ key, stringComponent .TableName kMutationsTable <+: key →
    (SortedEntries.get key queue.db).isSome = true →
      ∃ userId, ∃ batch ∈ pending userId, key = LevelDbMutationKey.rowWord userId batch.batchId
  tables : ∀ key, (SortedEntries.get key queue.db).isSome = true →
    ∃ table, stringComponent .TableName table <+: key
  indexRows : ∀ key, stringComponent .TableName kDocumentMutationsTable <+: key →
    ((SortedEntries.get key queue.db).isSome = true ↔
      ∃ userId, ∃ batch ∈ pending userId, ∃ mutation ∈ batch.mutations,
        key = LevelDbDocumentMutationKey.rowWord userId mutation.key.val batch.batchId)

namespace Valid

variable {serializer : LocalSerializer Change} {queue : LevelDbMutationQueue}
  {pending : ByteString → List (MutationBatch (Mutation DocumentKey Change))}

/-- Numbers of batches are numbers that are written. -/
theorem signed (valid : queue.Valid serializer pending) {userId : ByteString}
    {batch : MutationBatch (Mutation DocumentKey Change)} (held : batch ∈ pending userId) :
    ∃ number : SignedNum, number.1 = batch.batchId := by
  have range := valid.numbered userId batch held
  exact ⟨⟨batch.batchId, by omega, by omega⟩, rfl⟩

/-- They have 32 bits. -/
theorem range (valid : queue.Valid serializer pending) {userId : ByteString}
    {batch : MutationBatch (Mutation DocumentKey Change)} (held : batch ∈ pending userId) :
    -2 ^ 31 ≤ batch.batchId ∧ batch.batchId ≤ 2 ^ 31 - 1 := by
  have numbered := valid.numbered userId batch held
  omega

/-- A key that begins with a user and a path is a row of a document beneath the path. -/
theorem row_beneath (valid : queue.Valid serializer pending) {userId : ByteString}
    {path : ResourcePath} {row : ByteString × ByteString} (member : row ∈ queue.db)
    (begins : tableWord kDocumentMutationsTable userId ++ pathWord path <+: row.1) :
    ∃ batch ∈ pending userId, ∃ mutation ∈ batch.mutations, path <+: mutation.key.val ∧
      row.1 = LevelDbDocumentMutationKey.rowWord userId mutation.key.val batch.batchId := by
  have table : stringComponent .TableName kDocumentMutationsTable <+: row.1 := by
    refine List.IsPrefix.trans ?_ begins
    rw [tableWord, List.append_assoc]
    exact List.prefix_append _ _
  have present : (SortedEntries.get row.1 queue.db).isSome = true :=
    SortedEntries.get_isSome_iff.mpr (List.mem_map_of_mem member)
  obtain ⟨owner, batch, held, mutation, writes, isRow⟩ := (valid.indexRows row.1 table).mp present
  rw [isRow, LevelDbDocumentMutationKey.prefix_rowWord_iff] at begins
  obtain ⟨rfl, beneath⟩ := begins
  exact ⟨batch, held, mutation, writes, beneath, isRow⟩

/-- The rows of a batch of a user are in the index. -/
theorem row_present (valid : queue.Valid serializer pending) {userId : ByteString}
    {batch : MutationBatch (Mutation DocumentKey Change)} (held : batch ∈ pending userId)
    {mutation : Mutation DocumentKey Change} (writes : mutation ∈ batch.mutations) :
    ∃ row ∈ queue.db,
      row.1 = LevelDbDocumentMutationKey.rowWord userId mutation.key.val batch.batchId := by
  have table : stringComponent .TableName kDocumentMutationsTable <+:
      LevelDbDocumentMutationKey.rowWord userId mutation.key.val batch.batchId := by
    rw [LevelDbDocumentMutationKey.rowWord, tableWord, List.append_assoc]
    exact List.prefix_append _ _
  have present := (valid.indexRows _ table).mpr ⟨userId, batch, held, mutation, writes, rfl⟩
  exact List.mem_map.mp (SortedEntries.get_isSome_iff.mp present)

/-- The key of an index row is decoded as its batch and document. -/
theorem decode_row (valid : queue.Valid serializer pending) {userId : ByteString}
    {batch : MutationBatch (Mutation DocumentKey Change)} (held : batch ∈ pending userId)
    {mutation : Mutation DocumentKey Change} (writes : mutation ∈ batch.mutations) :
    LevelDbDocumentMutationKey.decode
        (LevelDbDocumentMutationKey.rowWord userId mutation.key.val batch.batchId) =
      some (some (userId, mutation.key, batch.batchId)) := by
  exact LevelDbDocumentMutationKey.decode_rowWord userId
    (valid.named userId batch held mutation writes) (valid.range held)

/-- A row beneath a path goes on. -/
theorem visitCollection_row (valid : queue.Valid serializer pending) {userId : ByteString}
    {path : ResourcePath} {batch : MutationBatch (Mutation DocumentKey Change)}
    (held : batch ∈ pending userId) {mutation : Mutation DocumentKey Change}
    (writes : mutation ∈ batch.mutations) (beneath : path <+: mutation.key.val) (length : Nat) :
    visitCollection (tableWord kDocumentMutationsTable userId ++ pathWord path) length
        (LevelDbDocumentMutationKey.rowWord userId mutation.key.val batch.batchId) =
      some (some (if mutation.key.val.length = length then [batch.batchId] else [])) := by
  have begins := List.isPrefixOf_iff_prefix.mpr
    ((LevelDbDocumentMutationKey.prefix_rowWord_iff userId userId path mutation.key.val
      batch.batchId).mpr ⟨rfl, beneath⟩)
  rw [visitCollection, if_pos begins, valid.decode_row held writes]
  simp only [Option.bind_eq_bind, Option.bind_some]
  split_ifs <;> rfl

/-- A scan of a document visits its rows. -/
theorem visitDocument_row (valid : queue.Valid serializer pending) {userId : ByteString}
    {documentKey : DocumentKey} {batch : MutationBatch (Mutation DocumentKey Change)}
    (held : batch ∈ pending userId) {mutation : Mutation DocumentKey Change}
    (writes : mutation ∈ batch.mutations) (beneath : documentKey.val <+: mutation.key.val) :
    visitDocument (tableWord kDocumentMutationsTable userId ++ pathWord documentKey.val) documentKey
        (LevelDbDocumentMutationKey.rowWord userId mutation.key.val batch.batchId) =
      some (if mutation.key = documentKey then some [batch.batchId] else none) := by
  have begins := List.isPrefixOf_iff_prefix.mpr
    ((LevelDbDocumentMutationKey.prefix_rowWord_iff userId userId documentKey.val
      mutation.key.val batch.batchId).mpr ⟨rfl, beneath⟩)
  rw [visitDocument, if_pos begins, valid.decode_row held writes]
  simp only [Option.bind_eq_bind, Option.bind_some]
  split_ifs <;> rfl

/-- The scan for a collection finds the batches that write into it. -/
theorem scanCollection (valid : queue.Valid serializer pending) (userId : ByteString)
    (path : ResourcePath) :
    let start := tableWord kDocumentMutationsTable userId ++ pathWord path
    ∃ found, (queue.db.seek start).scan (visitCollection start (path.length + 1)) = some found ∧
      ∀ batchId, batchId ∈ found ↔
        ∃ batch ∈ pending userId, writesInto path batch = true ∧ batch.batchId = batchId := by
  intro start
  have inside {row : ByteString × ByteString} (member : row ∈ queue.db)
      (begins : start <+: row.1) : ∃ batch ∈ pending userId, ∃ mutation ∈ batch.mutations,
        path <+: mutation.key.val ∧ visitCollection start (path.length + 1) row.1 = some (some
          (if mutation.key.val.length = path.length + 1 then [batch.batchId] else [])) := by
    obtain ⟨batch, held, mutation, writes, beneath, isRow⟩ := valid.row_beneath member begins
    exact ⟨batch, held, mutation, writes, beneath,
      isRow ▸ valid.visitCollection_row held writes beneath _⟩
  obtain ⟨numbers, scanned, members⟩ := LevelDb.scan_beginning valid.sorted start
    (visitCollection start (path.length + 1))
    (fun key notBegins => if_neg (mt List.isPrefixOf_iff_prefix.mp notBegins))
    (fun row member begins => by
      obtain ⟨_, _, _, _, _, visited⟩ := inside member begins
      rw [visited]
      rfl)
    (fun first isFirst second _ begins _ _ _ _ => by
      obtain ⟨_, _, _, _, _, visited⟩ := inside isFirst begins
      rw [visited]
      simp)
  refine ⟨numbers, scanned, fun batchId => ?_⟩
  rw [members]
  constructor
  · rintro ⟨row, member, begins, found, isFound, isNumber⟩
    obtain ⟨batch, held, mutation, writes, beneath, visited⟩ := inside member begins
    rw [visited] at isFound
    cases isFound
    split_ifs at isNumber with child
    · refine ⟨batch, held, ?_, (List.mem_singleton.mp isNumber).symm⟩
      exact List.any_eq_true.mpr ⟨mutation, writes, by
        simp [List.isPrefixOf_iff_prefix.mpr beneath, child]⟩
    · cases isNumber
  · rintro ⟨batch, held, writesInside, rfl⟩
    obtain ⟨mutation, writes, child⟩ := List.any_eq_true.mp writesInside
    rw [Bool.and_eq_true, decide_eq_true_eq, List.isPrefixOf_iff_prefix] at child
    obtain ⟨row, member, isRow⟩ := valid.row_present held writes
    have visited := valid.visitCollection_row held writes child.1 (path.length + 1)
    have begins := (LevelDbDocumentMutationKey.prefix_rowWord_iff userId userId path
      mutation.key.val batch.batchId).mpr ⟨rfl, child.1⟩
    rw [if_pos child.2, ← isRow] at visited
    rw [← isRow] at begins
    exact ⟨row, member, begins, _, visited, List.mem_singleton.mpr rfl⟩

/-- The scan for a document finds the batches that write to it. -/
theorem scanDocument (valid : queue.Valid serializer pending) (userId : ByteString)
    (documentKey : DocumentKey) :
    let start := tableWord kDocumentMutationsTable userId ++ pathWord documentKey.val
    ∃ found, (queue.db.seek start).scan (visitDocument start documentKey) = some found ∧
      ∀ batchId, batchId ∈ found ↔
        ∃ batch ∈ pending userId, writesTo documentKey batch = true ∧ batch.batchId = batchId := by
  intro start
  have inside {row : ByteString × ByteString} (member : row ∈ queue.db)
      (begins : start <+: row.1) : ∃ batch ∈ pending userId, ∃ mutation ∈ batch.mutations,
        documentKey.val <+: mutation.key.val ∧
        row.1 = LevelDbDocumentMutationKey.rowWord userId mutation.key.val batch.batchId ∧
        visitDocument start documentKey row.1 =
          some (if mutation.key = documentKey then some [batch.batchId] else none) := by
    obtain ⟨batch, held, mutation, writes, beneath, isRow⟩ := valid.row_beneath member begins
    exact ⟨batch, held, mutation, writes, beneath, isRow,
      isRow ▸ valid.visitDocument_row held writes beneath⟩
  obtain ⟨numbers, scanned, members⟩ := LevelDb.scan_beginning valid.sorted start
    (visitDocument start documentKey)
    (fun key notBegins => if_neg (mt List.isPrefixOf_iff_prefix.mp notBegins))
    (fun row member begins => by
      obtain ⟨_, _, _, _, _, _, visited⟩ := inside member begins
      rw [visited]
      rfl)
    (fun first isFirst second isSecond begins ends before found isFound => by
      obtain ⟨batch, held, mutation, _, beneath, isRow, visited⟩ := inside isFirst begins
      obtain ⟨later, laterHeld, last, _, _, lastRow, lastVisited⟩ := inside isSecond ends
      have isLast : last.key = documentKey := by
        by_contra other
        rw [lastVisited, if_neg other] at isFound
        cases isFound
      -- the first row's path begins with the document's and does not come after it
      have isFirstKey : mutation.key = documentKey := by
        obtain ⟨number, isNumber⟩ := valid.signed held
        obtain ⟨laterNumber, isLaterNumber⟩ := valid.signed laterHeld
        rw [isRow, lastRow, ← isNumber, ← isLaterNumber,
          LevelDbDocumentMutationKey.rowWord_lt_iff, isLast] at before
        obtain less | ⟨-, lower | ⟨same, -⟩⟩ := before
        · exact absurd less (lt_irrefl _)
        · exact absurd lower (not_lt.mpr (prefix_le beneath))
        · exact Subtype.ext same
      rw [visited, if_pos isFirstKey]
      simp)
  refine ⟨numbers, scanned, fun batchId => ?_⟩
  rw [members]
  constructor
  · rintro ⟨row, member, begins, found, isFound, isNumber⟩
    obtain ⟨batch, held, mutation, writes, -, -, visited⟩ := inside member begins
    have isKey : mutation.key = documentKey := by
      by_contra other
      rw [visited, if_neg other] at isFound
      cases isFound
    rw [visited, if_pos isKey] at isFound
    cases isFound
    exact ⟨batch, held, List.any_eq_true.mpr ⟨mutation, writes, decide_eq_true isKey⟩,
      (List.mem_singleton.mp isNumber).symm⟩
  · rintro ⟨batch, held, writesDocument, rfl⟩
    obtain ⟨mutation, writes, isKey⟩ := List.any_eq_true.mp writesDocument
    have same : mutation.key = documentKey := of_decide_eq_true isKey
    have beneath : documentKey.val <+: mutation.key.val := same ▸ List.prefix_rfl
    obtain ⟨row, member, isRow⟩ := valid.row_present held writes
    have visited := valid.visitDocument_row held writes beneath
    have begins := (LevelDbDocumentMutationKey.prefix_rowWord_iff userId userId documentKey.val
      mutation.key.val batch.batchId).mpr ⟨rfl, beneath⟩
    rw [if_pos same, ← isRow] at visited
    rw [← isRow] at begins
    exact ⟨row, member, begins, _, visited, List.mem_singleton.mpr rfl⟩

/-- The row of a batch holds the batch. -/
theorem batch_row (valid : queue.Valid serializer pending) {userId : ByteString}
    {batch : MutationBatch (Mutation DocumentKey Change)} (held : batch ∈ pending userId) :
    ∃ key, LevelDbMutationKey.key userId batch.batchId = some key ∧
      (queue.db.seek key).head? = some (key, serializer.encodeMutationBatch batch) := by
  obtain ⟨number, isNumber⟩ := valid.signed held
  have stored := valid.batchRows userId batch held
  obtain ⟨⟨key, value⟩, found, isValue⟩ := Option.map_eq_some_iff.mp stored
  have isKey : key = LevelDbMutationKey.rowWord userId batch.batchId := by
    simpa using List.find?_some found
  obtain rfl : value = serializer.encodeMutationBatch batch := isValue
  refine ⟨key, ?_, LevelDb.head_seek valid.sorted (List.mem_of_find?_eq_some found)⟩
  rw [isKey, ← isNumber, LevelDbMutationKey.key_eq]

/-- Batches are found by the numbers of batches. -/
theorem withIds (valid : queue.Valid serializer pending) (roundTrips : serializer.RoundTrips)
    {batchIds : List (Int × Unit)} (sorted : SortedEntries.Sorted batchIds)
    (known : ∀ batchId ∈ batchIds.map Prod.fst,
      ∃ batch ∈ pending queue.userId, batch.batchId = batchId) :
    queue.allMutationBatchesWithIds serializer batchIds =
      some ((pending queue.userId).filter
        (fun batch => batch.batchId ∈ batchIds.map Prod.fst)) := by
  have search : ∀ entry ∈ batchIds, (do
      let key ← LevelDbMutationKey.key queue.userId entry.1
      let row ← (queue.db.seek key).head?
      guard (row.1 = key)
      serializer.decodeMutationBatch row.2) =
        (pending queue.userId).find? (fun batch => batch.batchId = entry.1) := by
    intro entry member
    obtain ⟨batch, held, same⟩ := known entry.1 (List.mem_map_of_mem member)
    obtain ⟨key, isKey, row⟩ := valid.batch_row held
    rw [← same, (valid.ascending queue.userId).find_own held, isKey]
    simp [row, roundTrips batch]
  have each : ∀ entry ∈ batchIds, (do
      let key ← LevelDbMutationKey.key queue.userId entry.1
      let row ← (queue.db.seek key).head?
      guard (row.1 = key)
      serializer.decodeMutationBatch row.2).isSome = true := by
    intro entry member
    obtain ⟨batch, held, same⟩ := known entry.1 (List.mem_map_of_mem member)
    rw [search entry member, ← same, (valid.ascending queue.userId).find_own held]
    rfl
  rw [allMutationBatchesWithIds, mapM_isSome each, List.filterMap_congr search,
    ← (valid.ascending queue.userId).filterMap_find (List.pairwise_map.mpr sorted),
    List.filterMap_map]
  rfl

/-- The numbers of the batches with a property are those of no others. -/
theorem number_iff (valid : queue.Valid serializer pending) {userId : ByteString}
    {batch : MutationBatch (Mutation DocumentKey Change)} (held : batch ∈ pending userId)
    (property : MutationBatch (Mutation DocumentKey Change) → Prop) :
    (∃ other ∈ pending userId, property other ∧ other.batchId = batch.batchId) ↔
      property batch := by
  constructor
  · rintro ⟨other, otherHeld, holds, same⟩
    have own := (valid.ascending userId).find_own held
    have alike := (valid.ascending userId).find_own otherHeld
    rw [same, own, Option.some_inj] at alike
    rwa [alike]
  · exact fun holds => ⟨batch, held, holds, rfl⟩

/-- Scans for several documents collect the numbers of the batches that write to them. -/
theorem collects (valid : queue.Valid serializer pending) (documentKeys : List DocumentKey)
    {batchIds : List (Int × Unit)} (sorted : SortedEntries.Sorted batchIds) :
    ∃ collected, documentKeys.foldlM (fun batchIds documentKey => do
        let indexPrefix ← LevelDbDocumentMutationKey.pathPrefix queue.userId documentKey.val
        let found ← (queue.db.seek indexPrefix).scan (visitDocument indexPrefix documentKey)
        some (collect found batchIds)) batchIds = some collected ∧
      SortedEntries.Sorted collected ∧ ∀ batchId, batchId ∈ collected.map Prod.fst ↔
        batchId ∈ batchIds.map Prod.fst ∨ ∃ batch ∈ pending queue.userId,
          (∃ documentKey ∈ documentKeys, writesTo documentKey batch = true) ∧
            batch.batchId = batchId := by
  induction documentKeys generalizing batchIds with
  | nil => exact ⟨batchIds, rfl, sorted, fun batchId => by simp⟩
  | cons documentKey rest inductionHypothesis =>
    obtain ⟨found, scanned, numbers⟩ := valid.scanDocument queue.userId documentKey
    obtain ⟨put, members⟩ := collect_spec found sorted
    obtain ⟨collected, collects, after, known⟩ := inductionHypothesis put
    refine ⟨collected, ?_, after, fun batchId => ?_⟩
    · rw [List.foldlM_cons, LevelDbDocumentMutationKey.pathPrefix_eq]
      simp only [Option.bind_eq_bind, Option.bind_some, scanned]
      exact collects
    · rw [known, members, numbers, or_assoc, ← exists_or]
      refine or_congr_right (exists_congr fun batch => ?_)
      simp only [List.exists_mem_cons_iff]
      tauto

/-- The batches that write to one of some documents. -/
theorem affectingDocumentKeys (valid : queue.Valid serializer pending)
    (roundTrips : serializer.RoundTrips) (documentKeys : List DocumentKey) :
    queue.allMutationBatchesAffectingDocumentKeys serializer documentKeys =
      some ((pending queue.userId).filter
        (fun batch => documentKeys.any fun documentKey => writesTo documentKey batch)) := by
  obtain ⟨collected, collects, sorted, known⟩ :=
    valid.collects documentKeys SortedEntries.sorted_nil
  simp only [List.map_nil, List.not_mem_nil, false_or] at known
  rw [allMutationBatchesAffectingDocumentKeys, collects, Option.bind_eq_bind, Option.bind_some,
    valid.withIds roundTrips sorted fun batchId member => by
      obtain ⟨batch, held, -, same⟩ := (known batchId).mp member
      exact ⟨batch, held, same⟩]
  refine congrArg some (List.filter_congr fun batch held => ?_)
  rw [Bool.eq_iff_iff, decide_eq_true_eq, known, List.any_eq_true]
  exact valid.number_iff held _

/-- The batches that write into a collection. -/
theorem affectingQuery (valid : queue.Valid serializer pending)
    (roundTrips : serializer.RoundTrips) (query : Query) (filtered : Bool) :
    queue.allMutationBatchesAffectingQuery serializer query filtered =
      if query.collectionGroup = none ∧ ¬ (isDocumentKey query.path = true ∧ filtered = false) then
        some ((pending queue.userId).filter (writesInto query.path))
      else none := by
  by_cases plain : query.collectionGroup = none
  · by_cases single : isDocumentKey query.path = true ∧ filtered = false
    · rw [if_neg (fun both => both.2 single), allMutationBatchesAffectingQuery]
      simp [plain, single]
    · obtain ⟨found, scanned, numbers⟩ := valid.scanCollection queue.userId query.path
      obtain ⟨sorted, members⟩ := collect_spec found SortedEntries.sorted_nil
      simp only [List.map_nil, List.not_mem_nil, false_or, numbers] at members
      rw [if_pos ⟨plain, single⟩, allMutationBatchesAffectingQuery]
      simp only [plain, true_and, single, guard, not_false_eq_true, ↓reduceIte,
        Option.bind_eq_bind, Option.pure_def, Option.bind_some,
        LevelDbDocumentMutationKey.pathPrefix_eq, scanned]
      rw [valid.withIds roundTrips sorted fun batchId member => by
        obtain ⟨batch, held, -, same⟩ := (members batchId).mp member
        exact ⟨batch, held, same⟩]
      refine congrArg some (List.filter_congr fun batch held => ?_)
      rw [Bool.eq_iff_iff, decide_eq_true_eq, members]
      exact valid.number_iff held _
  · rw [if_neg (fun both => plain both.1), allMutationBatchesAffectingQuery]
    simp [plain]

end Valid

end LevelDbMutationQueue

end Amigo.Firestore
