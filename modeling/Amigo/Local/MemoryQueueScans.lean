import Amigo.Local.MemoryQueueSound
import Amigo.OrderedCodes

/-!
# Scans of the index

The index is searched from a reference below those sought up to the first that is not
sought. For a document these are its references; for a collection they are the rows
whose path the collection's is a prefix of, which lie together because paths are
compared segment by segment. What the scans find is what a search of all batches of the
queue finds, in the order of the queue, and each number they find has its batch.
-/

namespace Amigo.Firestore

section Paths

variable {Segment : Type} [LinearOrder Segment]

/-- A path with the least segment at its end is below every other child. -/
theorem child_above {least : Segment} (isLeast : ∀ segment, least ≤ segment)
    (front : List Segment) (segment : Segment) : front ++ [least] ≤ front ++ [segment] := by
  induction front with
  | nil =>
    refine not_lt.mp fun lower => ?_
    obtain less | ⟨_, same⟩ := List.cons_lt_cons_iff.mp lower
    · exact absurd (isLeast segment) (not_le.mpr less)
    · exact absurd same (List.not_lt_nil _)
  | cons head rest inductionHypothesis =>
    refine not_lt.mp fun lower => ?_
    obtain less | ⟨_, same⟩ := List.cons_lt_cons_iff.mp lower
    · exact lt_irrefl head less
    · exact absurd inductionHypothesis (not_le.mpr same)

end Paths

section Numbers

variable {M : Type} {queue : List (MutationBatch M)}

/-- The numbers of batches increase along a list. -/
def Ascending (queue : List (MutationBatch M)) : Prop :=
  queue.Pairwise (fun before after => before.batchId < after.batchId)

/-- A list in increasing order is known by its members. -/
theorem Ascending.eq {first second : List (MutationBatch M)} (isFirst : Ascending first)
    (isSecond : Ascending second) (same : ∀ batch, batch ∈ first ↔ batch ∈ second) :
    first = second := by
  have distinct {queue : List (MutationBatch M)} (ascending : Ascending queue) : queue.Nodup :=
    ascending.imp fun {before after} earlier equal => by
      rw [equal] at earlier
      exact lt_irrefl _ earlier
  refine List.Perm.eq_of_pairwise (fun before after _ _ earlier later => ?_) isFirst isSecond
    ((List.perm_ext_iff_of_nodup (distinct isFirst) (distinct isSecond)).mpr same)
  exact absurd (earlier.trans later) (lt_irrefl _)

/-- The number of a batch finds it. -/
theorem Ascending.find_own (ascending : Ascending queue) {batch : MutationBatch M}
    (member : batch ∈ queue) :
    queue.find? (fun other => other.batchId = batch.batchId) = some batch := by
  induction queue with
  | nil => cases member
  | cons head rest inductionHypothesis =>
    obtain ⟨below, others⟩ := List.pairwise_cons.mp ascending
    obtain rfl | later := List.mem_cons.mp member
    · exact List.find?_cons_of_pos (by simp)
    · have before := below batch later
      rw [List.find?_cons_of_neg (by simpa using before.ne), inductionHypothesis others later]

/-- A batch found by its number has it. -/
theorem find_number {batchId : Int} {batch : MutationBatch M}
    (found : queue.find? (fun batch => batch.batchId = batchId) = some batch) :
    batch.batchId = batchId := by simpa using List.find?_some found

/-- The batches of increasing numbers are those of the queue with these numbers, in the
order of the queue. -/
theorem Ascending.filterMap_find (ascending : Ascending queue) {batchIds : List Int}
    (increasing : batchIds.Pairwise (· < ·)) :
    batchIds.filterMap (fun batchId => queue.find? (fun batch => batch.batchId = batchId)) =
      queue.filter (fun batch => batch.batchId ∈ batchIds) := by
  refine Ascending.eq ?_ (ascending.filter _) fun batch => ?_
  · refine increasing.filterMap _ fun first second below before isBefore after isAfter => ?_
    rw [find_number isBefore, find_number isAfter]
    exact below
  · rw [List.mem_filterMap, List.mem_filter, decide_eq_true_eq]
    constructor
    · rintro ⟨batchId, known, found⟩
      exact ⟨List.mem_of_find?_eq_some found, (find_number found).symm ▸ known⟩
    · rintro ⟨member, known⟩
      exact ⟨batch.batchId, known, ascending.find_own member⟩

/-- A search in which nothing fails collects all it finds. -/
theorem mapM_isSome {α β : Type} {search : α → Option β} {sought : List α}
    (each : ∀ one ∈ sought, (search one).isSome = true) :
    sought.mapM search = some (sought.filterMap search) := by
  induction sought with
  | nil => rfl
  | cons first rest inductionHypothesis =>
    obtain ⟨found, isFound⟩ := Option.isSome_iff_exists.mp (each first (by simp))
    rw [List.mapM_cons, isFound, inductionHypothesis fun one member => each one (by simp [member]),
      List.filterMap_cons_some isFound]
    rfl

/-- The numbers of references, put into a set. -/
theorem collect_spec (references : List DocumentKeyReference) {batchIds : List (Int × Unit)}
    (sorted : SortedEntries.Sorted batchIds) :
    SortedEntries.Sorted (references.foldl (fun batchIds reference =>
      SortedEntries.put reference.refId () batchIds) batchIds) ∧
    ∀ batchId, batchId ∈ (references.foldl (fun batchIds reference =>
        SortedEntries.put reference.refId () batchIds) batchIds).map Prod.fst ↔
      batchId ∈ batchIds.map Prod.fst ∨ ∃ reference ∈ references, reference.refId = batchId := by
  induction references generalizing batchIds with
  | nil => exact ⟨sorted, fun batchId => by simp⟩
  | cons reference rest inductionHypothesis =>
    obtain ⟨after, members⟩ := inductionHypothesis (sorted.put reference.refId ())
    refine ⟨after, fun batchId => ?_⟩
    rw [List.foldl_cons, members, ← SortedEntries.get_isSome_iff, SortedEntries.get_put,
      ← SortedEntries.get_isSome_iff]
    by_cases same : batchId = reference.refId
    · simp [same]
    · simp [same, Ne.symm same]

end Numbers

namespace MemoryMutationQueue

variable {Change : Type}

/-- Whether a batch writes to a document of a collection. -/
def writesInto (path : ResourcePath) (batch : MutationBatch (Mutation DocumentKey Change)) : Bool :=
  batch.mutations.any fun mutation => path.isPrefixOf mutation.key.val &&
    decide (mutation.key.val.length = path.length + 1)

/-- Whether a batch writes to a document. -/
def writesTo (key : DocumentKey) (batch : MutationBatch (Mutation DocumentKey Change)) : Bool :=
  batch.mutations.any (fun mutation => mutation.key = key)

namespace Valid

variable {queue : MemoryMutationQueue Change}

/-- The numbers of a valid queue ascend. -/
theorem ascends (valid : queue.Valid) : Ascending queue.queue := valid.consecutive.ascending

/-- A reference stands for a batch of the queue that writes to its document. -/
theorem mem_values (valid : queue.Valid) {reference : DocumentKeyReference} :
    reference ∈ SortedSet.values queue.batchesByDocumentKey ↔
      ∃ batch ∈ queue.queue, batch.batchId = reference.refId ∧ writesTo reference.key batch = true := by
  rw [valid.indexed]
  simp [Writes, writesTo]

/-- The numbers of references are positive. -/
theorem refId_pos (valid : queue.Valid) {reference : DocumentKeyReference}
    (member : reference ∈ SortedSet.values queue.batchesByDocumentKey) : 0 < reference.refId := by
  obtain ⟨batch, held, same, _⟩ := valid.mem_values.mp member
  have within := valid.consecutive.range batch held
  have positive := valid.positive
  omega

/-- The scan for a document finds its references. -/
theorem referencesOf_eq (valid : queue.Valid) (key : DocumentKey) :
    queue.referencesOf key = some ((SortedSet.values queue.batchesByDocumentKey).filter
      (fun reference => reference.key = key)) := by
  have closed : ∀ first second : DocumentKeyReference, .of key 0 ≤ first → first < second →
      decide (second.key = key) = true → decide (first.key = key) = true := by
    intro first second above before isKey
    have low := Prod.Lex.monotone_fst _ _ above
    have high := Prod.Lex.monotone_fst _ _ before.le
    have same : second.key = key := of_decide_eq_true isKey
    exact decide_eq_true (le_antisymm (same ▸ high) low)
  rw [referencesOf, SortedSet.scan_eq valid.kept closed]
  refine congrArg some (List.filter_congr fun reference member => ?_)
  have positive := valid.refId_pos member
  have above : reference.key = key → DocumentKeyReference.of key 0 ≤ reference := by
    rintro rfl
    exact Prod.Lex.toLex_le_toLex.mpr (.inr ⟨rfl, positive.le⟩)
  simpa using above

/-- Batches are found by increasing numbers. -/
theorem withIds (valid : queue.Valid) {batchIds : List (Int × Unit)}
    (sorted : SortedEntries.Sorted batchIds) :
    queue.allMutationBatchesWithIds batchIds =
      some (queue.queue.filter (fun batch => batch.batchId ∈ batchIds.map Prod.fst)) := by
  have looked : batchIds.mapM (fun entry => queue.lookupMutationBatch entry.1) = some _ :=
    mapM_isSome fun entry _ => by rw [valid.lookup]; rfl
  rw [allMutationBatchesWithIds, looked, Option.map_some, List.filterMap_filterMap,
    ← valid.ascends.filterMap_find (List.pairwise_map.mpr sorted), List.filterMap_map]
  refine congrArg some (List.filterMap_congr fun entry _ => ?_)
  rw [valid.lookup]
  rfl

/-- The index holds a batch of the queue for a document when the batch writes to it. -/
theorem mem_of (valid : queue.Valid) {batch : MutationBatch (Mutation DocumentKey Change)}
    (held : batch ∈ queue.queue) (key : DocumentKey) :
    .of key batch.batchId ∈ SortedSet.values queue.batchesByDocumentKey ↔
      writesTo key batch = true := by
  rw [valid.mem_values]
  constructor
  · rintro ⟨other, member, same, writes⟩
    have found := valid.ascends.find_own member
    rw [show other.batchId = batch.batchId from same, valid.ascends.find_own held] at found
    obtain rfl := Option.some.inj found
    exact writes
  · exact fun writes => ⟨batch, held, rfl, writes⟩

/-- The batches that concern a document. -/
theorem affectingDocumentKey (valid : queue.Valid) (key : DocumentKey) :
    queue.allMutationBatchesAffectingDocumentKey key =
      some (queue.queue.filter (writesTo key)) := by
  rw [allMutationBatchesAffectingDocumentKey, valid.referencesOf_eq, Option.bind_eq_bind,
    Option.bind_some]
  have search (reference : DocumentKeyReference) :
      ((queue.lookupMutationBatch reference.refId).bind fun batch => batch) =
        queue.queue.find? (fun batch => batch.batchId = reference.refId) := by
    rw [valid.lookup]
    rfl
  have increasing : (((SortedSet.values queue.batchesByDocumentKey).filter
      (fun reference => reference.key = key)).map DocumentKeyReference.refId).Pairwise (· < ·) := by
    rw [List.pairwise_map]
    refine ((SortedSet.pairwise_values valid.kept).filter _).imp_of_mem
      fun {first second} isFirst isSecond before => ?_
    have same : first.key = second.key := by
      rw [of_decide_eq_true (List.mem_filter.mp isFirst).2,
        of_decide_eq_true (List.mem_filter.mp isSecond).2]
    obtain less | ⟨_, less⟩ := Prod.Lex.lt_iff.mp before
    · exact absurd same less.ne
    · exact less
  refine (mapM_isSome fun reference member => ?_).trans (congrArg some ?_)
  · obtain ⟨batch, held, same, _⟩ := valid.mem_values.mp (List.mem_filter.mp member).1
    have found := valid.ascends.find_own held
    rw [show batch.batchId = reference.refId from same] at found
    exact (congrArg Option.isSome (search reference)).trans (by rw [found]; rfl)
  · refine Eq.trans ?_ ((valid.ascends.filterMap_find increasing).trans
      (List.filter_congr fun batch held => ?_))
    · rw [List.filterMap_map]
      exact List.filterMap_congr fun reference _ => search reference
    · rw [Bool.eq_iff_iff, decide_eq_true_eq, List.mem_map, ← valid.mem_of held]
      constructor
      · rintro ⟨reference, member, same⟩
        obtain ⟨known, isKey⟩ := List.mem_filter.mp member
        rw [← same, ← of_decide_eq_true isKey]
        exact known
      · exact fun known => ⟨_, List.mem_filter.mpr ⟨known, decide_eq_true rfl⟩, rfl⟩

/-- Scans for several documents collect the numbers of their references. -/
theorem collects (valid : queue.Valid) (documentKeys : List DocumentKey)
    {batchIds : List (Int × Unit)} (sorted : SortedEntries.Sorted batchIds) :
    ∃ collected, documentKeys.foldlM (fun batchIds key => do
        let references ← queue.referencesOf key
        some (references.foldl (fun batchIds reference =>
          SortedEntries.put reference.refId () batchIds) batchIds)) batchIds = some collected ∧
      SortedEntries.Sorted collected ∧ ∀ batchId, batchId ∈ collected.map Prod.fst ↔
        batchId ∈ batchIds.map Prod.fst ∨ ∃ key ∈ documentKeys,
          .of key batchId ∈ SortedSet.values queue.batchesByDocumentKey := by
  induction documentKeys generalizing batchIds with
  | nil => exact ⟨batchIds, rfl, sorted, fun batchId => by simp⟩
  | cons key rest inductionHypothesis =>
    obtain ⟨put, members⟩ := collect_spec ((SortedSet.values queue.batchesByDocumentKey).filter
      (fun reference => reference.key = key)) sorted
    obtain ⟨collected, collects, after, known⟩ := inductionHypothesis put
    refine ⟨collected, ?_, after, fun batchId => ?_⟩
    · rw [List.foldlM_cons, valid.referencesOf_eq]
      exact collects
    · have here : (∃ reference ∈ (SortedSet.values queue.batchesByDocumentKey).filter
          (fun reference => reference.key = key), reference.refId = batchId) ↔
          .of key batchId ∈ SortedSet.values queue.batchesByDocumentKey := by
        constructor
        · rintro ⟨reference, member, rfl⟩
          obtain ⟨holds, isKey⟩ := List.mem_filter.mp member
          rw [← of_decide_eq_true isKey]
          exact holds
        · exact fun holds => ⟨_, List.mem_filter.mpr ⟨holds, decide_eq_true rfl⟩, rfl⟩
      rw [known, members, here, List.exists_mem_cons_iff, or_assoc]

/-- The batches that concern any of some documents. -/
theorem affectingDocumentKeys (valid : queue.Valid) (documentKeys : List DocumentKey) :
    queue.allMutationBatchesAffectingDocumentKeys documentKeys =
      some (queue.queue.filter fun batch => documentKeys.any fun key => writesTo key batch) := by
  obtain ⟨collected, collects, sorted, known⟩ :=
    valid.collects documentKeys SortedEntries.sorted_nil
  rw [allMutationBatchesAffectingDocumentKeys, collects, Option.bind_eq_bind, Option.bind_some,
    valid.withIds sorted]
  refine congrArg some (List.filter_congr fun batch held => ?_)
  rw [Bool.eq_iff_iff, decide_eq_true_eq, known, List.any_eq_true]
  simp only [List.map_nil, List.not_mem_nil, false_or, valid.mem_of held]

/-- The rows of a collection lie together, after the path with an empty last segment. -/
theorem rows_eq (valid : queue.Valid) {path : ResourcePath} {start : DocumentKey}
    (isPrefix : path <+: start.val) :
    (queue.batchesByDocumentKey.valuesFrom (.of start 0)).map
        (List.takeWhile fun reference => path.isPrefixOf reference.key.val) =
      some ((SortedSet.values queue.batchesByDocumentKey).filter fun reference =>
        DocumentKeyReference.of start 0 ≤ reference ∧
          path.isPrefixOf reference.key.val = true) := by
  refine SortedSet.scan_eq valid.kept fun first second above before inside => ?_
  have low : start.val ≤ first.key.val := Prod.Lex.monotone_fst _ _ above
  have high : first.key.val ≤ second.key.val := Prod.Lex.monotone_fst _ _ before.le
  exact List.isPrefixOf_iff_prefix.mpr
    (OrderedCodes.prefix_between isPrefix (List.isPrefixOf_iff_prefix.mp inside) low high)

/-- A query starts below all documents of its collection. -/
theorem start_spec (path : ResourcePath) : ∃ start, DocumentKey.ofPath
      (if isDocumentKey path then path else path ++ [[]]) = some start ∧ path <+: start.val ∧
    ∀ key : DocumentKey, path <+: key.val → key.val.length = path.length + 1 → start ≤ key := by
  by_cases even : isDocumentKey path = true
  · refine ⟨⟨path, even⟩, by simp [DocumentKey.ofPath, even], List.prefix_rfl,
      fun key _ longer => ?_⟩
    -- a document is not right below a document
    have own := key.property
    simp only [isDocumentKey, beq_iff_eq] at even own
    omega
  · have appended : isDocumentKey (path ++ [[]]) = true := by
      simp only [isDocumentKey, beq_iff_eq, List.length_append, List.length_singleton] at even ⊢
      omega
    refine ⟨⟨path ++ [[]], appended⟩, by simp [DocumentKey.ofPath, even, appended],
      List.prefix_append _ _, fun key inside longer => ?_⟩
    obtain ⟨rest, split⟩ := inside
    rw [← split, List.length_append] at longer
    obtain ⟨segment, rfl⟩ := List.length_eq_one_iff.mp (Nat.add_left_cancel longer)
    show path ++ [[]] ≤ key.val
    rw [← split]
    exact child_above (fun other => not_lt.mp (List.not_lt_nil other)) path segment

/-- The batches that concern a collection: none of its rows is missed or broken off, and
deeper rows are passed over. -/
theorem affectingQuery (valid : queue.Valid) (query : Query) :
    queue.allMutationBatchesAffectingQuery query =
      if query.collectionGroup = none then some (queue.queue.filter (writesInto query.path))
      else none := by
  by_cases plain : query.collectionGroup = none
  · obtain ⟨start, isStart, isPrefix, above⟩ := start_spec query.path
    obtain ⟨references, visits, isRows⟩ := Option.map_eq_some_iff.mp (valid.rows_eq isPrefix)
    simp only [allMutationBatchesAffectingQuery, plain, guard, ↓reduceIte, isStart, visits, isRows,
      Option.bind_eq_bind, Option.bind_some, Option.pure_def]
    have collected := collect_spec (((SortedSet.values queue.batchesByDocumentKey).filter
      fun reference => DocumentKeyReference.of start 0 ≤ reference ∧
        query.path.isPrefixOf reference.key.val = true).filter fun reference =>
          decide (reference.key.val.length = query.path.length + 1)) SortedEntries.sorted_nil
    rw [valid.withIds collected.1]
    refine congrArg some (List.filter_congr fun batch held => ?_)
    rw [Bool.eq_iff_iff, decide_eq_true_eq, collected.2]
    simp only [List.map_nil, List.not_mem_nil, false_or, List.mem_filter, decide_eq_true_eq,
      writesInto, List.any_eq_true, Bool.and_eq_true]
    constructor
    · rintro ⟨reference, ⟨⟨holds, _, inside⟩, child⟩, same⟩
      have writes : writesTo reference.key batch = true := (valid.mem_of held _).mp (same ▸ holds)
      obtain ⟨mutation, member, isKey⟩ := List.any_eq_true.mp writes
      have equal : mutation.key = reference.key := of_decide_eq_true isKey
      exact ⟨mutation, member, by rw [equal]; exact ⟨inside, child⟩⟩
    · rintro ⟨mutation, member, inside, child⟩
      have writes : writesTo mutation.key batch = true :=
        List.any_eq_true.mpr ⟨mutation, member, decide_eq_true rfl⟩
      have holds := (valid.mem_of held mutation.key).mpr writes
      have low := above mutation.key (List.isPrefixOf_iff_prefix.mp inside) child
      have positive := valid.refId_pos holds
      refine ⟨.of mutation.key batch.batchId, ⟨⟨holds, ?_, inside⟩, child⟩, rfl⟩
      exact Prod.Lex.toLex_le_toLex.mpr (low.lt_or_eq.imp id fun same => ⟨same, positive.le⟩)
  · simp [allMutationBatchesAffectingQuery, plain]

/-- Whether a document is written to. -/
theorem containsKey_eq (valid : queue.Valid) (key : DocumentKey) :
    queue.containsKey key = some (queue.queue.any (writesTo key)) := by
  have scan := valid.referencesOf_eq key
  obtain ⟨references, visits, found⟩ := Option.map_eq_some_iff.mp scan
  have first : references.head?.any (fun reference => reference.key = key) =
      !(references.takeWhile fun reference => reference.key = key).isEmpty := by
    cases references with
    | nil => rfl
    | cons reference rest => by_cases isKey : reference.key = key <;> simp [isKey]
  rw [containsKey, visits, Option.map_some, first, found]
  refine congrArg some ?_
  rw [Bool.eq_iff_iff, List.any_eq_true, Bool.not_eq_true', List.isEmpty_eq_false_iff_exists_mem]
  constructor
  · rintro ⟨reference, member⟩
    obtain ⟨holds, isKey⟩ := List.mem_filter.mp member
    obtain ⟨batch, held, _, writes⟩ := valid.mem_values.mp holds
    exact ⟨batch, held, of_decide_eq_true isKey ▸ writes⟩
  · rintro ⟨batch, held, writes⟩
    exact ⟨.of key batch.batchId, List.mem_filter.mpr
      ⟨(valid.mem_of held key).mpr writes, decide_eq_true rfl⟩⟩

end Valid

end MemoryMutationQueue

end Amigo.Firestore
