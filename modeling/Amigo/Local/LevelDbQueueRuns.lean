import Mathlib.Logic.Encodable.Basic
import Mathlib.Logic.Equiv.List
import Amigo.Local.LevelDbStart

/-!
# Runs of a queue in the local database

A batch is added with its row and its index rows and taken out with all of them; the
tables' names keep the two kinds of rows apart, and a row tells its user, its document
and its batch, so no row of another batch is touched. The other tables of the database
may change in any way. So in every state of every run the scans of the index are exact
and no assertion fails.
-/

namespace Amigo.Firestore

open OrderedCodes OrderedCode MemoryMutationQueue

namespace LevelDb

/-- Rows without a value are put under keys. -/
theorem get_puts (keys : List ByteString) (key : ByteString) (db : LevelDb) :
    SortedEntries.get key (keys.foldl (fun db key => SortedEntries.put key [] db) db) =
      if key ∈ keys then some [] else SortedEntries.get key db := by
  induction keys generalizing db with
  | nil => rfl
  | cons first rest inductionHypothesis =>
    rw [List.foldl_cons, inductionHypothesis, SortedEntries.get_put]
    by_cases later : key ∈ rest <;> by_cases same : key = first <;> simp [later, same]

/-- Removed keys have no value, and the others keep theirs. -/
theorem get_removes (keys : List ByteString) (key : ByteString) (db : LevelDb) :
    SortedEntries.get key (keys.foldl (fun db key => SortedEntries.remove key db) db) =
      if key ∈ keys then none else SortedEntries.get key db := by
  induction keys generalizing db with
  | nil => rfl
  | cons first rest inductionHypothesis =>
    rw [List.foldl_cons, inductionHypothesis, SortedEntries.get_remove]
    by_cases later : key ∈ rest <;> by_cases same : key = first <;> simp [later, same]

/-- Putting keys keeps the rows sorted. -/
theorem sorted_puts {db : LevelDb} (sorted : SortedEntries.Sorted db) (keys : List ByteString) :
    SortedEntries.Sorted (keys.foldl (fun db key => SortedEntries.put key [] db) db) := by
  induction keys generalizing db with
  | nil => exact sorted
  | cons first rest inductionHypothesis => exact inductionHypothesis (sorted.put first [])

/-- So does removing them. -/
theorem sorted_removes {db : LevelDb} (sorted : SortedEntries.Sorted db)
    (keys : List ByteString) :
    SortedEntries.Sorted (keys.foldl (fun db key => SortedEntries.remove key db) db) := by
  induction keys generalizing db with
  | nil => exact sorted
  | cons first rest inductionHypothesis => exact inductionHypothesis (sorted.remove first)

end LevelDb

namespace LevelDbMutationQueue

variable {Change : Type}

/-- The rows of the documents a batch writes to. -/
def indexWords (userId : ByteString) (batch : MutationBatch (Mutation DocumentKey Change)) :
    List ByteString :=
  batch.mutations.map fun mutation =>
    LevelDbDocumentMutationKey.rowWord userId mutation.key.val batch.batchId

/-- The index keys of a batch are always written. -/
theorem indexKeys_eq (userId : ByteString) {batch : MutationBatch (Mutation DocumentKey Change)}
    {number : SignedNum} (isNumber : number.1 = batch.batchId) :
    indexKeys userId batch = some (indexWords userId batch) := by
  have each : ∀ mutation ∈ batch.mutations,
      LevelDbDocumentMutationKey.key userId mutation.key batch.batchId =
        some (LevelDbDocumentMutationKey.rowWord userId mutation.key.val batch.batchId) := by
    intro mutation _
    rw [← isNumber, LevelDbDocumentMutationKey.key_eq]
  rw [indexKeys, mapM_isSome fun mutation member => by rw [each mutation member]; rfl,
    List.filterMap_congr each, indexWords, ← List.filterMap_eq_map]
  rfl

/-- A batch's row is in the table of batches and its index rows in the other. -/
theorem word_not_index (userId otherUser : ByteString) (batchId : Int)
    (batch : MutationBatch (Mutation DocumentKey Change)) :
    LevelDbMutationKey.rowWord userId batchId ∉ indexWords otherUser batch := by
  intro member
  obtain ⟨mutation, -, same⟩ := List.mem_map.mp member
  exact LevelDbDocumentMutationKey.other_table (LevelDbMutationKey.table_begins _ _)
    (same ▸ LevelDbDocumentMutationKey.table_begins _ _ _)

/-- Only a batch with a write is added. -/
theorem nonempty_of_added {serializer : LocalSerializer Change} {queue after : LevelDbMutationQueue}
    {mutations : List (Mutation DocumentKey Change)}
    {batch : MutationBatch (Mutation DocumentKey Change)}
    (added : queue.addMutationBatch serializer mutations = some (batch, after)) :
    mutations ≠ [] := by
  rintro rfl
  cases added

namespace Valid

variable {serializer : LocalSerializer Change} {queue : LevelDbMutationQueue}
  {pending : ByteString → List (MutationBatch (Mutation DocumentKey Change))}

/-- A user's batches with one more at the end. -/
theorem mem_added {userId other : ByteString}
    {added batch : MutationBatch (Mutation DocumentKey Change)} :
    batch ∈ Function.update pending userId (pending userId ++ [added]) other ↔
      batch ∈ pending other ∨ other = userId ∧ batch = added := by
  by_cases same : other = userId
  · subst same
    simp
  · simp [same]

/-- A user's batches without those of a number. -/
theorem mem_removed {userId other : ByteString} {batchId : Int}
    {batch : MutationBatch (Mutation DocumentKey Change)} :
    batch ∈ Function.update pending userId
        ((pending userId).filter fun batch => batch.batchId ≠ batchId) other ↔
      batch ∈ pending other ∧ (other = userId → batch.batchId ≠ batchId) := by
  by_cases same : other = userId
  · subst same
    simp
  · simp [same]

/-- A batch is added with its row and its index rows. -/
theorem addMutationBatch_eq (valid : queue.Valid serializer pending)
    (room : queue.nextBatchId < 2 ^ 31 - 1) {mutations : List (Mutation DocumentKey Change)}
    (nonempty : mutations ≠ []) : queue.addMutationBatch serializer mutations =
      some (⟨queue.nextBatchId, mutations⟩,
        ⟨(indexWords queue.userId ⟨queue.nextBatchId, mutations⟩).foldl
          (fun db key => SortedEntries.put key [] db)
          (SortedEntries.put (LevelDbMutationKey.rowWord queue.userId queue.nextBatchId)
            (serializer.encodeMutationBatch ⟨queue.nextBatchId, mutations⟩) queue.db),
        queue.userId, queue.nextBatchId + 1⟩) := by
  have positive := valid.next.1
  obtain ⟨number, isNumber⟩ : ∃ number : SignedNum, number.1 = queue.nextBatchId :=
    ⟨⟨queue.nextBatchId, by omega, by omega⟩, rfl⟩
  have key := LevelDbMutationKey.key_eq queue.userId number
  have keys : indexKeys queue.userId ⟨queue.nextBatchId, mutations⟩ =
      some (indexWords queue.userId ⟨queue.nextBatchId, mutations⟩) :=
    indexKeys_eq queue.userId isNumber
  rw [isNumber] at key
  simp [addMutationBatch, nonempty, guard, key, keys]

/-- A batch is added at the end of its user's queue. -/
theorem add (valid : queue.Valid serializer pending) (room : queue.nextBatchId < 2 ^ 31 - 1)
    {mutations : List (Mutation DocumentKey Change)} (nonempty : mutations ≠ [])
    (named : ∀ mutation ∈ mutations, mutation.key.val ≠ []) :
    ∃ after, queue.addMutationBatch serializer mutations =
        some (⟨queue.nextBatchId, mutations⟩, after) ∧ after.userId = queue.userId ∧
      after.Valid serializer (Function.update pending queue.userId
        (pending queue.userId ++ [⟨queue.nextBatchId, mutations⟩])) := by
  have positive := valid.next.1
  refine ⟨_, valid.addMutationBatch_eq room nonempty, rfl, ?_⟩
  refine ⟨LevelDb.sorted_puts (valid.sorted.put _ _) _, ?_, ?_, ?_, ?_, ?_, ?_, ?_, ?_⟩
  · intro other
    by_cases same : other = queue.userId
    · subst same
      rw [Function.update_self]
      refine List.pairwise_append.mpr ⟨valid.ascending _, List.pairwise_singleton _ _, ?_⟩
      intro batch held last isLast
      rw [List.mem_singleton.mp isLast]
      exact valid.next.2 batch held
    · rw [Function.update_of_ne same]
      exact valid.ascending other
  · intro other batch member
    obtain held | ⟨-, rfl⟩ := mem_added.mp member
    · exact valid.numbered other batch held
    · exact ⟨positive, room⟩
  · intro other batch member
    obtain held | ⟨-, rfl⟩ := mem_added.mp member
    · exact valid.named other batch held
    · exact named
  · refine ⟨show 0 < queue.nextBatchId + 1 by omega, fun batch member => ?_⟩
    obtain held | ⟨-, rfl⟩ := mem_added.mp member
    · exact (valid.next.2 batch held).trans (Int.lt_succ _)
    · exact Int.lt_succ _
  · intro other batch member
    rw [LevelDb.get_puts, if_neg (word_not_index _ _ _ _), SortedEntries.get_put]
    obtain held | ⟨rfl, rfl⟩ := mem_added.mp member
    · rw [if_neg, valid.batchRows other batch held]
      intro same
      obtain ⟨rfl, equal⟩ := LevelDbMutationKey.rowWord_numbers (valid.range held) (by omega) same
      exact absurd equal (valid.next.2 batch held).ne
    · rw [if_pos rfl]
  · intro key table present
    have notIndex : key ∉ indexWords queue.userId ⟨queue.nextBatchId, mutations⟩ := by
      intro isIndex
      obtain ⟨mutation, -, rfl⟩ := List.mem_map.mp isIndex
      exact LevelDbDocumentMutationKey.other_table table
        (LevelDbDocumentMutationKey.table_begins _ _ _)
    rw [LevelDb.get_puts, if_neg notIndex, SortedEntries.get_put] at present
    split_ifs at present with isRow
    · exact ⟨queue.userId, _, mem_added.mpr (.inr ⟨rfl, rfl⟩), isRow⟩
    · obtain ⟨userId, batch, held, isOld⟩ := valid.batchKeys key table present
      exact ⟨userId, batch, mem_added.mpr (.inl held), isOld⟩
  · intro key present
    rw [LevelDb.get_puts, SortedEntries.get_put] at present
    split_ifs at present with isIndex isRow
    · obtain ⟨mutation, -, rfl⟩ := List.mem_map.mp isIndex
      exact ⟨_, LevelDbDocumentMutationKey.table_begins _ _ _⟩
    · exact ⟨_, isRow ▸ LevelDbMutationKey.table_begins _ _⟩
    · exact valid.tables key present
  · intro key table
    have notRow : key ≠ LevelDbMutationKey.rowWord queue.userId queue.nextBatchId := by
      rintro rfl
      exact LevelDbDocumentMutationKey.other_table (LevelDbMutationKey.table_begins _ _) table
    rw [LevelDb.get_puts, SortedEntries.get_put, if_neg notRow]
    constructor
    · intro present
      by_cases isNew : key ∈ indexWords queue.userId ⟨queue.nextBatchId, mutations⟩
      · obtain ⟨mutation, writes, rfl⟩ := List.mem_map.mp isNew
        exact ⟨queue.userId, _, mem_added.mpr (.inr ⟨rfl, rfl⟩), mutation, writes, rfl⟩
      · rw [if_neg isNew, valid.indexRows key table] at present
        obtain ⟨other, batch, held, row⟩ := present
        exact ⟨other, batch, mem_added.mpr (.inl held), row⟩
    · rintro ⟨other, batch, member, mutation, writes, rfl⟩
      obtain held | ⟨rfl, rfl⟩ := mem_added.mp member
      · have present := (valid.indexRows _ table).mpr ⟨other, batch, held, mutation, writes, rfl⟩
        split_ifs
        · rfl
        · exact present
      · have isNew : LevelDbDocumentMutationKey.rowWord queue.userId mutation.key.val
            queue.nextBatchId ∈ indexWords queue.userId ⟨queue.nextBatchId, mutations⟩ :=
          List.mem_map.mpr ⟨mutation, writes, rfl⟩
        rw [if_pos isNew]
        rfl

/-- A batch is taken out with its row and its index rows. -/
theorem removeMutationBatch_eq (valid : queue.Valid serializer pending)
    {batch : MutationBatch (Mutation DocumentKey Change)} (held : batch ∈ pending queue.userId) :
    queue.removeMutationBatch batch =
      some ⟨(indexWords queue.userId batch).foldl (fun db key => SortedEntries.remove key db)
        (SortedEntries.remove (LevelDbMutationKey.rowWord queue.userId batch.batchId) queue.db),
        queue.userId, queue.nextBatchId⟩ := by
  obtain ⟨number, isNumber⟩ := valid.signed held
  obtain ⟨key, isKey, row⟩ := valid.batch_row held
  have keys := indexKeys_eq queue.userId isNumber
  have isWord := LevelDbMutationKey.key_eq queue.userId number
  rw [isNumber, isKey, Option.some_inj] at isWord
  subst isWord
  simp [removeMutationBatch, isKey, row, keys]

/-- A batch is taken out of its user's queue, and none of its rows is left. -/
theorem remove (valid : queue.Valid serializer pending)
    {batch : MutationBatch (Mutation DocumentKey Change)} (held : batch ∈ pending queue.userId) :
    ∃ after, queue.removeMutationBatch batch = some after ∧ after.userId = queue.userId ∧
      after.Valid serializer (Function.update pending queue.userId
        ((pending queue.userId).filter fun other => other.batchId ≠ batch.batchId)) := by
  refine ⟨_, valid.removeMutationBatch_eq held, rfl, ?_⟩
  refine ⟨LevelDb.sorted_removes (valid.sorted.remove _) _, ?_, ?_, ?_, ?_, ?_, ?_, ?_, ?_⟩
  · intro other
    by_cases same : other = queue.userId
    · subst same
      rw [Function.update_self]
      exact (valid.ascending _).filter _
    · rw [Function.update_of_ne same]
      exact valid.ascending other
  · exact fun other last member => valid.numbered other last (mem_removed.mp member).1
  · exact fun other last member => valid.named other last (mem_removed.mp member).1
  · exact ⟨valid.next.1, fun last member => valid.next.2 last (mem_removed.mp member).1⟩
  · intro other last member
    obtain ⟨otherHeld, different⟩ := mem_removed.mp member
    rw [LevelDb.get_removes, if_neg (word_not_index _ _ _ _), SortedEntries.get_remove, if_neg,
      valid.batchRows other last otherHeld]
    intro same
    obtain ⟨rfl, equal⟩ :=
      LevelDbMutationKey.rowWord_numbers (valid.range otherHeld) (valid.range held) same
    exact different rfl equal
  · intro key table present
    rw [LevelDb.get_removes, SortedEntries.get_remove] at present
    split_ifs at present with isIndex isRow
    · cases present
    · cases present
    · obtain ⟨userId, last, lastHeld, rfl⟩ := valid.batchKeys key table present
      refine ⟨userId, last, mem_removed.mpr ⟨lastHeld, ?_⟩, rfl⟩
      rintro rfl same
      exact isRow (by rw [same])
  · intro key present
    rw [LevelDb.get_removes, SortedEntries.get_remove] at present
    split_ifs at present
    · cases present
    · cases present
    · exact valid.tables key present
  · intro key table
    have notRow : key ≠ LevelDbMutationKey.rowWord queue.userId batch.batchId := by
      rintro rfl
      exact LevelDbDocumentMutationKey.other_table (LevelDbMutationKey.table_begins _ _) table
    rw [LevelDb.get_removes, SortedEntries.get_remove, if_neg notRow]
    constructor
    · intro present
      split_ifs at present with isOld
      · cases present
      · obtain ⟨other, last, otherHeld, mutation, writes, rfl⟩ :=
          (valid.indexRows key table).mp present
        refine ⟨other, last, mem_removed.mpr ⟨otherHeld, ?_⟩, mutation, writes, rfl⟩
        rintro rfl same
        have equal : last = batch := (valid.number_iff held (fun tested => last = tested)).mp
          ⟨last, otherHeld, rfl, same⟩
        exact isOld (List.mem_map.mpr ⟨mutation, equal ▸ writes, by rw [equal]⟩)
    · rintro ⟨other, last, member, mutation, writes, rfl⟩
      obtain ⟨otherHeld, different⟩ := mem_removed.mp member
      rw [if_neg]
      · exact (valid.indexRows _ table).mpr ⟨other, last, otherHeld, mutation, writes, rfl⟩
      · intro isOld
        obtain ⟨old, -, same⟩ := List.mem_map.mp isOld
        obtain ⟨number, isNumber⟩ := valid.signed held
        obtain ⟨own, isOwn⟩ := valid.signed otherHeld
        rw [← isOwn, ← isNumber] at same
        obtain ⟨users, -, numbers⟩ := LevelDbDocumentMutationKey.rowWord_inj same
        exact different users.symm (by rw [← isOwn, ← isNumber, numbers])

end Valid

/-- What the queues of a database go through, one of them in use at a time, and the batches
of each user that are left. The rest of the client changes the other tables, whose keys
begin with their names. -/
inductive Run (serializer : LocalSerializer Change) :
    LevelDbMutationQueue → (ByteString → List (MutationBatch (Mutation DocumentKey Change))) → Prop
  | create {db : LevelDb} (sorted : SortedEntries.Sorted db)
      (tables : ∀ row ∈ db, ∃ table, stringComponent .TableName table <+: row.1)
      (unused : ∀ row ∈ db, ¬ stringComponent .TableName kMutationsTable <+: row.1 ∧
        ¬ stringComponent .TableName kDocumentMutationsTable <+: row.1)
      {userId : ByteString} {queue} (started : start userId db = some queue) :
      Run serializer queue fun _ => []
  | start {queue pending} (run : Run serializer queue pending) {userId : ByteString} {after}
      (started : start userId queue.db = some after) : Run serializer after pending
  | add {queue pending} (run : Run serializer queue pending)
      (room : queue.nextBatchId < 2 ^ 31 - 1) {mutations : List (Mutation DocumentKey Change)}
      (named : ∀ mutation ∈ mutations, mutation.key.val ≠ []) {batch after}
      (added : queue.addMutationBatch serializer mutations = some (batch, after)) :
      Run serializer after
        (Function.update pending queue.userId (pending queue.userId ++ [batch]))
  | remove {queue pending} (run : Run serializer queue pending) {batch}
      (held : batch ∈ pending queue.userId) {after}
      (removed : queue.removeMutationBatch batch = some after) :
      Run serializer after (Function.update pending queue.userId
        ((pending queue.userId).filter fun other => other.batchId ≠ batch.batchId))
  | others {queue pending} (run : Run serializer queue pending) {db : LevelDb}
      (sorted : SortedEntries.Sorted db)
      (tables : ∀ row ∈ db, ∃ table, stringComponent .TableName table <+: row.1)
      (same : ∀ key, stringComponent .TableName kMutationsTable <+: key ∨
          stringComponent .TableName kDocumentMutationsTable <+: key →
        SortedEntries.get key db = SortedEntries.get key queue.db) :
      Run serializer ⟨db, queue.userId, queue.nextBatchId⟩ pending

/-- A database that tells its tables by their names does so for every key it has. -/
theorem tables_of_rows {db : LevelDb}
    (tables : ∀ row ∈ db, ∃ table, stringComponent .TableName table <+: row.1) (key : ByteString)
    (present : (SortedEntries.get key db).isSome = true) :
    ∃ table, stringComponent .TableName table <+: key := by
  obtain ⟨row, member, rfl⟩ := List.mem_map.mp (SortedEntries.get_isSome_iff.mp present)
  exact tables row member

/-- A database without rows of the two tables has no batches. -/
theorem valid_unused {serializer : LocalSerializer Change} {db : LevelDb}
    (sorted : SortedEntries.Sorted db)
    (tables : ∀ row ∈ db, ∃ table, stringComponent .TableName table <+: row.1)
    (unused : ∀ row ∈ db, ¬ stringComponent .TableName kMutationsTable <+: row.1 ∧
      ¬ stringComponent .TableName kDocumentMutationsTable <+: row.1) (userId : ByteString) :
    Valid serializer ⟨db, userId, 1⟩ fun _ => [] := by
  have absent {key : ByteString} (present : (SortedEntries.get key db).isSome = true) :
      ¬ stringComponent .TableName kMutationsTable <+: key ∧
        ¬ stringComponent .TableName kDocumentMutationsTable <+: key := by
    obtain ⟨row, member, rfl⟩ := List.mem_map.mp (SortedEntries.get_isSome_iff.mp present)
    exact unused row member
  refine ⟨sorted, fun _ => List.Pairwise.nil, by simp, by simp, by simp, by simp, ?_,
    tables_of_rows tables, ?_⟩
  · exact fun key table present => absurd table (absent present).1
  · exact fun key table => iff_of_false (fun present => (absent present).2 table) (by simp)

/-- In every state of every run the rows are those of the batches that are left. -/
theorem Run.valid {serializer : LocalSerializer Change} {queue : LevelDbMutationQueue}
    {pending : ByteString → List (MutationBatch (Mutation DocumentKey Change))}
    (run : Run serializer queue pending) : queue.Valid serializer pending := by
  induction run with
  | create sorted tables unused started =>
    obtain ⟨after, isAfter, -, -, kept⟩ := (valid_unused sorted tables unused []).start _
    rw [isAfter] at started
    cases started
    exact kept
  | start _ started valid =>
    obtain ⟨after, isAfter, -, -, kept⟩ := valid.start _
    rw [isAfter] at started
    cases started
    exact kept
  | add _ room named added valid =>
    obtain ⟨after, isAfter, -, kept⟩ := valid.add room (nonempty_of_added added) named
    rw [isAfter] at added
    cases added
    exact kept
  | remove _ held removed valid =>
    obtain ⟨after, isAfter, -, kept⟩ := valid.remove held
    rw [isAfter] at removed
    cases removed
    exact kept
  | others _ sorted tables same valid =>
    refine { valid with
      sorted := sorted, batchRows := ?_, batchKeys := ?_, tables := ?_, indexRows := ?_ }
    · intro userId batch held
      rw [same _ (.inl (LevelDbMutationKey.table_begins _ _))]
      exact valid.batchRows userId batch held
    · intro key table
      rw [same key (.inl table)]
      exact valid.batchKeys key table
    · exact tables_of_rows tables
    · intro key table
      rw [same key (.inr table)]
      exact valid.indexRows key table

/-- In every state of every run the scans of the index find the batches of the user that
write to the documents or into the collection, in the order of the queue, batches with a
write can be added and no other, pending batches can be taken out, and the queue of any
user can be taken up. -/
theorem database_scans_find_all {serializer : LocalSerializer Change}
    (roundTrips : serializer.RoundTrips) {queue : LevelDbMutationQueue}
    {pending : ByteString → List (MutationBatch (Mutation DocumentKey Change))}
    (run : Run serializer queue pending) :
    (∀ documentKeys, queue.allMutationBatchesAffectingDocumentKeys serializer documentKeys =
      some ((pending queue.userId).filter fun batch =>
        documentKeys.any fun documentKey => writesTo documentKey batch)) ∧
    (∀ query filtered, queue.allMutationBatchesAffectingQuery serializer query filtered =
      if query.collectionGroup = none ∧ ¬ (isDocumentKey query.path = true ∧ filtered = false) then
        some ((pending queue.userId).filter (writesInto query.path))
      else none) ∧
    (queue.nextBatchId < 2 ^ 31 - 1 → ∀ mutations : List (Mutation DocumentKey Change),
      (∀ mutation ∈ mutations, mutation.key.val ≠ []) →
        if mutations = [] then queue.addMutationBatch serializer mutations = none
        else ∃ after, queue.addMutationBatch serializer mutations =
          some (⟨queue.nextBatchId, mutations⟩, after)) ∧
    (∀ batch ∈ pending queue.userId, (queue.removeMutationBatch batch).isSome = true) ∧
    ∀ userId, ∃ after, start userId queue.db = some after ∧ after.nextBatchId ≤ 2 ^ 31 - 1 ∧
      ∀ batch ∈ pending userId, batch.batchId < after.nextBatchId := by
  have valid := run.valid
  refine ⟨valid.affectingDocumentKeys roundTrips, valid.affectingQuery roundTrips, ?_, ?_, ?_⟩
  · intro room mutations named
    split_ifs with empty
    · subst empty
      rfl
    · obtain ⟨after, added, -⟩ := valid.add room empty named
      exact ⟨after, added⟩
  · intro batch held
    obtain ⟨after, removed, -⟩ := valid.remove held
    rw [removed]
    rfl
  · intro userId
    obtain ⟨after, started, isUser, small, kept⟩ := valid.start userId
    exact ⟨after, started, small, fun batch held => kept.next.2 batch (isUser ▸ held)⟩

/-- Batches of plain writes, by the number of their keys in a list of all. -/
def plainSerializer : LocalSerializer Unit where
  encodeMutationBatch batch :=
    List.replicate (Encodable.encode (batch.batchId, batch.mutations.map Mutation.key)) 0
  decodeMutationBatch bytes :=
    (Encodable.decode bytes.length : Option (Int × List DocumentKey)).map fun decoded =>
      ⟨decoded.1, decoded.2.map fun key => ⟨key, ()⟩⟩

/-- The plain serializer reads back what it writes. -/
theorem plainSerializer_roundTrips : plainSerializer.RoundTrips := by
  intro batch
  have units : batch.mutations.map
      (fun mutation => (⟨mutation.key, ()⟩ : Mutation DocumentKey Unit)) = batch.mutations :=
    List.map_id batch.mutations
  simp only [plainSerializer, List.length_replicate, Encodable.encodek, Option.map_some,
    List.map_map, Function.comp_def, units]

/-- One write to one document of a new queue. -/
theorem database_scans_find_all_one :
    ∃ queue : LevelDbMutationQueue,
      queue.allMutationBatchesAffectingDocumentKeys plainSerializer [⟨[[99], [100]], rfl⟩] =
        some [⟨1, [⟨⟨[[99], [100]], rfl⟩, ()⟩]⟩] := by
  have first : start [117] [] = some ⟨[], [117], 1⟩ := by
    simp [start, loadNextBatchIdFromDb, LevelDbMutationKey.tablePrefix_eq, LevelDb.seek, decodeRow]
  have started : Run plainSerializer ⟨[], [117], 1⟩ fun _ => [] :=
    .create SortedEntries.sorted_nil (by simp) (by simp) first
  have named : ∀ mutation ∈ [(⟨⟨[[99], [100]], rfl⟩, ()⟩ : Mutation DocumentKey Unit)],
      mutation.key.val ≠ [] := by simp
  obtain ⟨after, added, same, -⟩ := started.valid.add (by decide) (by simp) named
  obtain ⟨scans, -⟩ := database_scans_find_all plainSerializer_roundTrips
    (started.add (by decide) named added)
  refine ⟨after, (scans _).trans ?_⟩
  rw [same]
  rfl

end LevelDbMutationQueue

end Amigo.Firestore
