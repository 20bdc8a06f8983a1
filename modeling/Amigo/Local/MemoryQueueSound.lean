import Mathlib.Tactic.Common
import Amigo.Local.MemoryMutationQueue

/-!
# The index of a queue in memory

The numbers of a queue in memory have no gaps, so the place of a number is found by
subtraction; and the index holds exactly the documents the batches of the queue write
to. Every operation keeps both, and fails no assertion where the first batch is the one
it is told of. So a scan of the index finds what a search of the whole queue finds.
-/

namespace Amigo.Firestore

variable {Change : Type}

/-- A reference is its number and its document. -/
theorem DocumentKeyReference.eq_of_iff {reference : DocumentKeyReference} {key : DocumentKey}
    {refId : Int} :
    reference = .of key refId ↔ refId = reference.refId ∧ key = reference.key := by
  constructor
  · rintro rfl
    exact ⟨rfl, rfl⟩
  · rintro ⟨rfl, rfl⟩
    rfl

section Numbers

variable {M : Type}

/-- The numbers of the batches, from one on, without gaps. -/
def Consecutive : Int → List (MutationBatch M) → Prop
  | _, [] => True
  | batchId, batch :: rest => batch.batchId = batchId ∧ Consecutive (batchId + 1) rest

variable {first : Int} {queue : List (MutationBatch M)}

/-- The numbers of a consecutive queue lie in one range. -/
theorem Consecutive.range (consecutive : Consecutive first queue) :
    ∀ batch ∈ queue, first ≤ batch.batchId ∧ batch.batchId < first + queue.length := by
  induction queue generalizing first with
  | nil => exact nofun
  | cons head rest inductionHypothesis =>
    obtain ⟨same, others⟩ := consecutive
    intro batch member
    rw [List.length_cons]
    obtain rfl | later := List.mem_cons.mp member
    · omega
    · have within := inductionHypothesis others batch later
      omega

/-- They ascend. -/
theorem Consecutive.ascending (consecutive : Consecutive first queue) :
    queue.Pairwise (fun before after => before.batchId < after.batchId) := by
  induction queue generalizing first with
  | nil => exact .nil
  | cons head rest inductionHypothesis =>
    obtain ⟨same, others⟩ := consecutive
    refine .cons (fun batch later => ?_) (inductionHypothesis others)
    have within := others.range batch later
    omega

/-- One more batch takes the next number. -/
theorem Consecutive.concat (consecutive : Consecutive first queue) {batch : MutationBatch M}
    (next : batch.batchId = first + queue.length) : Consecutive first (queue ++ [batch]) := by
  induction queue generalizing first with
  | nil => exact ⟨by simpa using next, trivial⟩
  | cons head rest inductionHypothesis =>
    obtain ⟨same, others⟩ := consecutive
    refine ⟨same, inductionHypothesis others ?_⟩
    rw [next, List.length_cons]
    omega

/-- The place of a number is its distance from the first. -/
theorem Consecutive.find_eq (consecutive : Consecutive first queue) (batchId : Int) :
    queue.find? (fun batch => batch.batchId = batchId) =
      if batchId < first then none else queue[(batchId - first).toNat]? := by
  induction queue generalizing first with
  | nil => simp
  | cons head rest inductionHypothesis =>
    obtain ⟨same, others⟩ := consecutive
    by_cases here : head.batchId = batchId
    · have zero : (batchId - first).toNat = 0 := by omega
      rw [List.find?_cons_of_pos (by simpa using here), if_neg (by omega), zero]
      rfl
    · rw [List.find?_cons_of_neg (by simpa using here), inductionHypothesis others]
      by_cases before : batchId < first
      · rw [if_pos before, if_pos (by omega)]
      · have later : (batchId - first).toNat = (batchId - (first + 1)).toNat + 1 := by omega
        rw [if_neg before, if_neg (by omega), later, List.getElem?_cons_succ]

/-- So is the place of the first number after one. -/
theorem Consecutive.find_after (consecutive : Consecutive first queue) (batchId : Int) :
    queue.find? (fun batch => batchId < batch.batchId) = queue[(batchId + 1 - first).toNat]? := by
  induction queue generalizing first with
  | nil => simp
  | cons head rest inductionHypothesis =>
    obtain ⟨same, others⟩ := consecutive
    by_cases here : batchId < head.batchId
    · have zero : (batchId + 1 - first).toNat = 0 := by omega
      rw [List.find?_cons_of_pos (by simpa using here), zero]
      rfl
    · have later : (batchId + 1 - first).toNat = (batchId + 1 - (first + 1)).toNat + 1 := by omega
      rw [List.find?_cons_of_neg (by simpa using here), inductionHypothesis others, later,
        List.getElem?_cons_succ]

/-- The last number is the last of the range. -/
theorem Consecutive.getLast (consecutive : Consecutive first queue) :
    ∀ last ∈ queue.getLast?, last.batchId = first + queue.length - 1 := by
  induction queue generalizing first with
  | nil => exact nofun
  | cons head rest inductionHypothesis =>
    obtain ⟨same, others⟩ := consecutive
    intro last isLast
    cases rest with
    | nil =>
      obtain rfl : head = last := by simpa using isLast
      simp [same]
    | cons next more =>
      rw [List.getLast?_cons_cons] at isLast
      rw [inductionHypothesis others last isLast]
      simp only [List.length_cons]
      push_cast
      omega

end Numbers

namespace MemoryMutationQueue

/-- What a batch with a number writes. -/
def Writes (reference : DocumentKeyReference) (batchId : Int)
    (mutations : List (Mutation DocumentKey Change)) : Prop :=
  batchId = reference.refId ∧ ∃ mutation ∈ mutations, mutation.key = reference.key

/-- A batch writes to what its first mutation or one of the others writes to. -/
theorem writes_cons {reference : DocumentKeyReference} {batchId : Int}
    {mutation : Mutation DocumentKey Change} {rest : List (Mutation DocumentKey Change)} :
    Writes reference batchId (mutation :: rest) ↔
      reference = .of mutation.key batchId ∨ Writes reference batchId rest := by
  simp only [Writes, List.mem_cons, exists_eq_or_imp, DocumentKeyReference.eq_of_iff]
  tauto

/-- Tracking a batch adds what it writes. -/
theorem trackReferences_spec {set : SortedSet DocumentKeyReference} (kept : set.Kept)
    (batchId : Int) (mutations : List (Mutation DocumentKey Change)) :
    ∃ next, trackReferences batchId mutations set = some next ∧ SortedMap.Kept next ∧
      ∀ reference, reference ∈ SortedSet.values next ↔
        Writes reference batchId mutations ∨ reference ∈ SortedSet.values set := by
  induction mutations generalizing set with
  | nil => exact ⟨set, rfl, kept, fun reference => by simp [Writes]⟩
  | cons mutation rest inductionHypothesis =>
    obtain ⟨added, inserts, keptAdded, isAdded⟩ :=
      SortedSet.insert_spec kept (.of mutation.key batchId)
    obtain ⟨next, tracks, keptNext, isNext⟩ := inductionHypothesis keptAdded
    refine ⟨next, ?_, keptNext, fun reference => ?_⟩
    · rw [trackReferences, List.foldlM_cons, inserts]
      exact tracks
    · rw [isNext, isAdded, writes_cons]
      tauto

/-- Forgetting a batch takes out what it writes. -/
theorem forgetReferences_spec {set : SortedSet DocumentKeyReference} (kept : set.Kept)
    (batchId : Int) (mutations : List (Mutation DocumentKey Change)) :
    ∃ next, forgetReferences batchId mutations set = some next ∧ SortedMap.Kept next ∧
      ∀ reference, reference ∈ SortedSet.values next ↔
        ¬ Writes reference batchId mutations ∧ reference ∈ SortedSet.values set := by
  induction mutations generalizing set with
  | nil => exact ⟨set, rfl, kept, fun reference => by simp [Writes]⟩
  | cons mutation rest inductionHypothesis =>
    obtain ⟨left, erases, keptLeft, isLeft⟩ :=
      SortedSet.erase_spec kept (.of mutation.key batchId)
    obtain ⟨next, forgets, keptNext, isNext⟩ := inductionHypothesis keptLeft
    refine ⟨next, ?_, keptNext, fun reference => ?_⟩
    · rw [forgetReferences, List.foldlM_cons, erases]
      exact forgets
    · rw [isNext, isLeft, writes_cons]
      tauto

/-- What every operation keeps. -/
structure Valid (queue : MemoryMutationQueue Change) : Prop where
  positive : 0 < queue.nextBatchId - queue.queue.length
  consecutive : Consecutive (queue.nextBatchId - queue.queue.length) queue.queue
  written : ∀ batch ∈ queue.queue, batch.mutations ≠ []
  kept : queue.batchesByDocumentKey.Kept
  indexed : ∀ reference, reference ∈ SortedSet.values queue.batchesByDocumentKey ↔
    ∃ batch ∈ queue.queue, Writes reference batch.batchId batch.mutations

namespace Valid

variable {queue : MemoryMutationQueue Change}

/-- A new queue is valid. -/
theorem create : Valid (MemoryMutationQueue.create : MemoryMutationQueue Change) := by
  refine ⟨?_, trivial, nofun, SortedSet.kept_empty, fun reference => ?_⟩
  · simp [MemoryMutationQueue.create]
  · simp [MemoryMutationQueue.create, SortedSet.values, SortedSet.empty, SortedMap.entries]

/-- Starting keeps the queue valid and as it is. -/
theorem start (valid : queue.Valid) : queue.start.Valid ∧ queue.start.queue = queue.queue := by
  unfold MemoryMutationQueue.start
  split
  · rename_i vacant
    have empty : queue.queue = [] := by simpa [isEmpty] using vacant
    refine ⟨⟨?_, ?_, valid.written, valid.kept, valid.indexed⟩, rfl⟩
    · simp [empty]
    · simp [empty, Consecutive]
  · exact ⟨valid, rfl⟩

/-- A batch is added at the end, under the next number. -/
theorem add (valid : queue.Valid) {mutations : List (Mutation DocumentKey Change)}
    (some : mutations ≠ []) :
    ∃ after, queue.addMutationBatch mutations =
        .some (⟨queue.nextBatchId, mutations⟩, after) ∧ after.Valid ∧
      after.queue = queue.queue ++ [⟨queue.nextBatchId, mutations⟩] := by
  obtain ⟨tracked, tracks, kept, isTracked⟩ :=
    trackReferences_spec valid.kept queue.nextBatchId mutations
  have above : ∀ prior ∈ queue.queue.getLast?, prior.batchId < queue.nextBatchId := by
    intro prior isLast
    rw [valid.consecutive.getLast prior isLast]
    omega
  refine ⟨{ queue with
      queue := queue.queue ++ [⟨queue.nextBatchId, mutations⟩]
      nextBatchId := queue.nextBatchId + 1
      batchesByDocumentKey := tracked }, ?_, ⟨?_, ?_, ?_, kept, ?_⟩, rfl⟩
  · simp only [addMutationBatch, guard, ne_eq, some, not_false_eq_true, ↓reduceIte, if_pos above,
      tracks, Option.pure_def, Option.bind_eq_bind, Option.bind_some]
  · have positive := valid.positive
    simp only [List.length_append, List.length_singleton]
    push_cast
    omega
  · have same : queue.nextBatchId + 1 - ((queue.queue ++
        [MutationBatch.mk queue.nextBatchId mutations]).length : Int) =
          queue.nextBatchId - queue.queue.length := by
      rw [List.length_append, List.length_singleton]
      push_cast
      omega
    show Consecutive (queue.nextBatchId + 1 - _) _
    rw [same]
    exact valid.consecutive.concat (by simp)
  · intro batch member
    obtain before | added := List.mem_append.mp member
    · exact valid.written batch before
    · rw [List.mem_singleton.mp added]
      exact some
  · intro reference
    show reference ∈ SortedSet.values tracked ↔ _
    rw [isTracked, valid.indexed]
    simp only [List.mem_append, List.mem_singleton, or_and_right, exists_or, exists_eq_left]
    exact or_comm

/-- The first batch is taken out, and with it what it writes. -/
theorem remove (valid : queue.Valid) {batch : MutationBatch (Mutation DocumentKey Change)}
    {rest : List (MutationBatch (Mutation DocumentKey Change))}
    (first : queue.queue = batch :: rest) :
    ∃ after, queue.removeMutationBatch batch = some after ∧ after.Valid ∧ after.queue = rest := by
  obtain ⟨left, forgets, kept, isLeft⟩ :=
    forgetReferences_spec valid.kept batch.batchId batch.mutations
  have consecutive := valid.consecutive
  have positive := valid.positive
  rw [first, List.length_cons] at consecutive positive
  push_cast at consecutive positive
  obtain ⟨own, others⟩ := consecutive
  refine ⟨{ queue with queue := queue.queue.tail, batchesByDocumentKey := left },
    by simp [removeMutationBatch, first, forgets], ⟨?_, ?_, ?_, kept, ?_⟩, ?_⟩
  · simp only [first, List.tail_cons]
    omega
  · simp only [first, List.tail_cons]
    have same : queue.nextBatchId - ((rest.length : Int) + 1) + 1 =
        queue.nextBatchId - rest.length := by omega
    rwa [same] at others
  · intro other member
    simp only [first, List.tail_cons] at member
    exact valid.written other (by rw [first]; exact List.mem_cons_of_mem _ member)
  · intro reference
    show reference ∈ SortedSet.values left ↔ _
    rw [isLeft, valid.indexed]
    simp only [first, List.tail_cons, List.mem_cons, exists_eq_or_imp]
    constructor
    · rintro ⟨apart, same | later⟩
      · exact absurd same apart
      · exact later
    · rintro ⟨other, member, writes⟩
      refine ⟨fun same => ?_, .inr ⟨other, member, writes⟩⟩
      have later := others.range other member
      have equal := writes.1.trans same.1.symm
      omega
  · simp [first]

/-- Acknowledging the first batch stores its stream token. -/
theorem acknowledge (valid : queue.Valid) {batch : MutationBatch (Mutation DocumentKey Change)}
    {rest : List (MutationBatch (Mutation DocumentKey Change))}
    (first : queue.queue = batch :: rest) (token : ByteString) :
    ∃ after, queue.acknowledgeBatch batch token = some after ∧ after.Valid ∧
      after.queue = queue.queue :=
  ⟨{ queue with lastStreamToken := token }, by simp [acknowledgeBatch, first],
    ⟨valid.positive, valid.consecutive, valid.written, valid.kept, valid.indexed⟩, rfl⟩

/-- A stream token keeps it valid. -/
theorem token (valid : queue.Valid) (token : ByteString) :
    Valid { queue with lastStreamToken := token } :=
  ⟨valid.positive, valid.consecutive, valid.written, valid.kept, valid.indexed⟩

/-- The place of a number holds its batch. -/
theorem lookup (valid : queue.Valid) (batchId : Int) :
    queue.lookupMutationBatch batchId =
      some (queue.queue.find? (fun batch => batch.batchId = batchId)) := by
  have consecutive := valid.consecutive
  unfold lookupMutationBatch indexOfBatchId
  cases split : queue.queue with
  | nil => rfl
  | cons head rest =>
    rw [split] at consecutive
    obtain ⟨own, others⟩ := consecutive
    have whole : Consecutive head.batchId (head :: rest) := ⟨rfl, own ▸ others⟩
    simp only [List.isEmpty_cons, Bool.false_eq_true, ↓reduceIte]
    rw [whole.find_eq]
    by_cases before : batchId < head.batchId
    · rw [if_pos (.inl (by omega)), if_pos before]
    · rw [if_neg before]
      by_cases beyond : ((head :: rest).length : Int) ≤ batchId - head.batchId
      · rw [if_pos (.inr beyond), List.getElem?_eq_none (by omega)]
      · rw [if_neg (by omega)]
        have inside : (batchId - head.batchId).toNat < (head :: rest).length := by omega
        have found := whole.find_eq batchId
        rw [if_neg before, List.getElem?_eq_getElem inside] at found
        have same := List.find?_some found
        rw [List.getElem?_eq_getElem inside]
        simp only [guard, of_decide_eq_true same, ↓reduceIte, Option.bind_eq_bind, Option.bind_some,
          Option.pure_def]

/-- The first batch after a number is at the place of the next number. -/
theorem nextAfter (valid : queue.Valid) (batchId : Int) :
    queue.nextMutationBatchAfterBatchId batchId =
      queue.queue.find? (fun batch => batchId < batch.batchId) := by
  have consecutive := valid.consecutive
  unfold nextMutationBatchAfterBatchId indexOfBatchId
  cases split : queue.queue with
  | nil => rfl
  | cons head rest =>
    rw [split] at consecutive
    obtain ⟨own, others⟩ := consecutive
    have whole : Consecutive head.batchId (head :: rest) := ⟨rfl, own ▸ others⟩
    have place : (if batchId + 1 - head.batchId < 0 then 0
        else (batchId + 1 - head.batchId).toNat) = (batchId + 1 - head.batchId).toNat := by
      split <;> omega
    simp only [place]
    rw [whole.find_after]
    split
    · rename_i beyond
      exact (List.getElem?_eq_none beyond).symm
    · rfl

/-- The highest pending number is the last batch's. -/
theorem highest (valid : queue.Valid) : queue.getHighestUnacknowledgedBatchId =
    (queue.queue.getLast?.map MutationBatch.batchId).getD kBatchIdUnknown := by
  unfold getHighestUnacknowledgedBatchId isEmpty
  cases isLast : queue.queue.getLast? with
  | none =>
    have empty : queue.queue = [] := List.getLast?_eq_none_iff.mp isLast
    simp [empty]
  | some last =>
    have same := valid.consecutive.getLast last isLast
    have some : queue.queue ≠ [] := by
      intro empty
      simp [empty] at isLast
    simp [some, same]

/-- An empty queue has an empty index. -/
theorem check (valid : queue.Valid) : queue.performConsistencyCheck = some () := by
  unfold performConsistencyCheck
  split
  · rename_i vacant
    have empty : queue.queue = [] := by simpa using vacant
    have none : SortedSet.values queue.batchesByDocumentKey = [] := by
      rw [List.eq_nil_iff_forall_not_mem]
      intro reference member
      obtain ⟨batch, held, _⟩ := (valid.indexed reference).mp member
      simp [empty] at held
    simp [SortedSet.isEmpty_eq valid.kept, none]
  · rfl

end Valid

end MemoryMutationQueue

namespace MemoryPersistence

variable {User : Type} [DecidableEq User]

/-- Every user's queue is as its operations leave it. -/
def Valid (store : MemoryPersistence User Change) : Prop :=
  ∀ user, (store.queues user).Valid

omit [DecidableEq User] in
/-- A new store is valid. -/
theorem valid_create (user : User) : Valid (create user : MemoryPersistence User Change) :=
  fun _ => .create

section Current

variable {store : MemoryPersistence User Change} {queue : MemoryMutationQueue Change}

/-- A valid queue in the place of the one in use keeps the store valid. -/
theorem Valid.withCurrent (valid : store.Valid) (current : queue.Valid) :
    (store.withCurrent queue).Valid := by
  intro user
  by_cases same : user = store.user
  · subst same
    simpa [MemoryPersistence.withCurrent] using current
  · simpa [MemoryPersistence.withCurrent, same] using valid user

/-- It changes what is pending for its user only. -/
theorem withCurrent_pending (store : MemoryPersistence User Change)
    (queue : MemoryMutationQueue Change) :
    (fun user => ((store.withCurrent queue).queues user).queue) =
      Function.update (fun user => (store.queues user).queue) store.user queue.queue := by
  funext user
  by_cases same : user = store.user
  · subst same
    simp [MemoryPersistence.withCurrent]
  · simp [MemoryPersistence.withCurrent, same]

/-- A queue whose batches stay leaves all queues as they are. -/
theorem withCurrent_same (same : queue.queue = store.current.queue) :
    (fun user => ((store.withCurrent queue).queues user).queue) =
      fun user => (store.queues user).queue := by
  rw [withCurrent_pending, same]
  exact Function.update_eq_self store.user _

end Current

/-- Queues in memory are lawful. -/
instance : LawfulMutationQueue (MemoryPersistence User Change) User
    (Mutation DocumentKey Change) where
  Valid := Valid
  user := MemoryPersistence.user
  pending store user := (store.queues user).queue
  ascending valid user := (valid user).consecutive.ascending
  numbered valid user batch member := by
    have within := (valid user).consecutive.range batch member
    have positive := (valid user).positive
    exact ⟨by omega, (valid user).written batch member⟩
  start_spec {store} valid next := by
    obtain ⟨started, same⟩ := (valid next).start
    have moved : Valid { store with user := next } := valid
    exact ⟨moved.withCurrent started, rfl, withCurrent_same same⟩
  add_spec {store} valid mutations some := by
    obtain ⟨after, adds, valid', grown⟩ := (valid store.user).add some
    refine ⟨(store.queues store.user).nextBatchId, store.withCurrent after, ?_,
      Valid.withCurrent valid valid', rfl, ?_⟩
    · simp [MutationQueue.addMutationBatch, current, adds]
    · rw [withCurrent_pending, grown]
  acknowledge_spec {store} valid batch rest first token := by
    obtain ⟨after, acknowledges, valid', same⟩ := (valid store.user).acknowledge first token
    exact ⟨store.withCurrent after, by simp [MutationQueue.acknowledgeBatch, current, acknowledges],
      Valid.withCurrent valid valid', rfl, withCurrent_same same⟩
  remove_spec {store} valid batch rest first := by
    obtain ⟨after, removes, valid', shorter⟩ := (valid store.user).remove first
    refine ⟨store.withCurrent after, by simp [MutationQueue.removeMutationBatch, current, removes],
      Valid.withCurrent valid valid', rfl, ?_⟩
    rw [withCurrent_pending, shorter]
  lookup_spec {store} valid batchId := (valid store.user).lookup batchId
  next_spec {store} valid batchId := congrArg some ((valid store.user).nextAfter batchId)
  highest_spec {store} valid := (valid store.user).highest
  check_spec {store} valid := (valid store.user).check
  token_spec {store} valid token :=
    ⟨Valid.withCurrent valid ((valid store.user).token token), rfl, withCurrent_same rfl⟩

end MemoryPersistence

end Amigo.Firestore
