import Amigo.Remote.TaskSound
import Amigo.Remote.OutboxCommits

/-!
# The books of the sync engine as outboxes

The engine keeps its callbacks beside its queues, under the numbers of batches: those of
writes for each user, those that wait for pending writes for the current user alone. As
long as it keeps them only under numbers that are pending, a queue and the callbacks
under its numbers are one outbox, and what a task does to the engine is what a step does
to an outbox.
-/

namespace Amigo.Firestore

open LawfulMutationQueue

variable {Store User M : Type} [DecidableEq User]

/-- The statuses the app is told. -/
def verdicts : Outbox.Verdicts Error := ⟨.ok, .cancelled, by decide⟩

/-- Done is no error. -/
@[simp] theorem verdicts_done : verdicts.done = .ok := rfl

/-- Cancelled is the error of that name. -/
@[simp] theorem verdicts_cancelled : verdicts.cancelled = .cancelled := rfl

/-- The callbacks under a number. -/
def callbacksOf (callbacks : List (Int × List Nat)) (batchId : Int) : List Nat :=
  ((callbacks.find? (fun entry => entry.1 = batchId)).map Prod.snd).getD []

section Callbacks

variable {callbacks : List (Int × List Nat)} {batchId : Int}

/-- The callbacks under a number are those of its first entry. -/
theorem callbacksOf_cons (entry : Int × List Nat) (rest : List (Int × List Nat)) :
    callbacksOf (entry :: rest) batchId =
      if entry.1 = batchId then entry.2 else callbacksOf rest batchId := by
  by_cases same : entry.1 = batchId <;> simp [callbacksOf, same]

/-- A number without an entry has no callbacks. -/
theorem callbacksOf_absent (absent : batchId ∉ callbacks.map Prod.fst) :
    callbacksOf callbacks batchId = [] := by
  have none : callbacks.find? (fun entry => entry.1 = batchId) = none := by
    rw [List.find?_eq_none]
    intro entry member same
    have equal : entry.1 = batchId := of_decide_eq_true same
    exact absent (equal ▸ List.mem_map_of_mem member)
  rw [callbacksOf, none]
  rfl

/-- The callbacks of other numbers stay when those of one are dropped. -/
theorem callbacksOf_filter {dropped : Int} (apart : batchId ≠ dropped) :
    callbacksOf (callbacks.filter (fun entry => entry.1 ≠ dropped)) batchId =
      callbacksOf callbacks batchId := by
  induction callbacks with
  | nil => rfl
  | cons entry rest inductionHypothesis =>
    by_cases gone : entry.1 = dropped
    · rw [List.filter_cons_of_neg (by simpa using gone), inductionHypothesis, callbacksOf_cons,
        if_neg (by rw [gone]; exact apart.symm)]
    · rw [List.filter_cons_of_pos (by simpa using gone), callbacksOf_cons, inductionHypothesis,
        callbacksOf_cons]

/-- A callback is appended under its number, and nothing else changes. -/
theorem callbacksOf_push (pushed : Int) (callback : Nat) :
    callbacksOf (SyncEngine.pushCallback pushed callback callbacks) batchId =
      callbacksOf callbacks batchId ++ if pushed = batchId then [callback] else [] := by
  induction callbacks with
  | nil =>
    rw [SyncEngine.pushCallback, callbacksOf_cons]
    rfl
  | cons entry rest inductionHypothesis =>
    rw [SyncEngine.pushCallback]
    by_cases here : entry.1 = pushed
    · rw [if_pos here, callbacksOf_cons, callbacksOf_cons, ← here]
      split <;> simp
    · rw [if_neg here, callbacksOf_cons, callbacksOf_cons, inductionHypothesis]
      split
      · rename_i same
        rw [if_neg (fun equal => here (same.trans equal.symm)), List.append_nil]
      · rfl

/-- The numbers after a callback is pushed. -/
theorem map_fst_push (pushed : Int) (callback : Nat) :
    (SyncEngine.pushCallback pushed callback callbacks).map Prod.fst =
      if pushed ∈ callbacks.map Prod.fst then callbacks.map Prod.fst
      else callbacks.map Prod.fst ++ [pushed] := by
  induction callbacks with
  | nil => rfl
  | cons entry rest inductionHypothesis =>
    rw [SyncEngine.pushCallback]
    by_cases here : entry.1 = pushed
    · simp [here]
    · rw [if_neg here, List.map_cons, inductionHypothesis]
      simp only [List.map_cons, List.mem_cons, Ne.symm here, false_or, List.cons_append]
      split <;> rfl

/-- Numbers that include every entry's find all the callbacks. -/
theorem flatMap_callbacksOf (keys : (callbacks.map Prod.fst).Nodup) {batchIds : List Int}
    (distinct : batchIds.Nodup) (known : ∀ key ∈ callbacks.map Prod.fst, key ∈ batchIds) :
    (callbacks.flatMap Prod.snd).Perm (batchIds.flatMap (callbacksOf callbacks)) := by
  induction callbacks with
  | nil =>
    have none : batchIds.flatMap (callbacksOf []) = [] := List.flatMap_eq_nil_iff.mpr fun _ _ => rfl
    rw [none]
    exact .refl _
  | cons entry rest inductionHypothesis =>
    obtain ⟨fresh, keys⟩ := List.nodup_cons.mp keys
    obtain ⟨front, back, rfl⟩ := List.append_of_mem (known entry.1 (by simp))
    obtain ⟨_, behind, apart⟩ := List.nodup_append.mp distinct
    have others := inductionHypothesis keys fun key member => known key (by simp [member])
    have same {part : List Int} (elsewhere : ∀ batchId ∈ part, entry.1 ≠ batchId) :
        part.flatMap (callbacksOf (entry :: rest)) = part.flatMap (callbacksOf rest) :=
      List.flatMap_congr fun batchId member => by rw [callbacksOf_cons, if_neg (elsewhere _ member)]
    have before : front.flatMap _ = front.flatMap _ := same fun batchId member equal =>
      apart batchId member entry.1 (by simp) equal.symm
    have after : back.flatMap _ = back.flatMap _ := same fun batchId member equal =>
      (List.nodup_cons.mp behind).1 (equal ▸ member)
    rw [List.flatMap_append, List.flatMap_cons, callbacksOf_absent fresh, List.nil_append] at others
    rw [List.flatMap_cons, List.flatMap_append, List.flatMap_cons, before, after, callbacksOf_cons,
      if_pos rfl, ← List.append_assoc]
    refine (others.append_left entry.2).trans ?_
    rw [← List.append_assoc]
    exact List.perm_append_comm.append_right _

end Callbacks

namespace SyncEngine

/-- The waiters the engine keeps for a batch of a user. -/
def waiters (engine : SyncEngine Store User) (user : User) (batchId : Int) : List Nat :=
  if user = engine.currentUser then callbacksOf engine.pendingWritesCallbacks batchId else []

/-- A batch with the callbacks under its number. -/
def entry (engine : SyncEngine Store User) (user : User) (batch : MutationBatch M) :
    Outbox.Entry M :=
  ⟨batch.mutations, engine.mutationCallbacks user batch.batchId, engine.waiters user batch.batchId⟩

/-- What settling a batch tells. -/
theorem told_conclude (batchId : Int) (status : Error) (engine : SyncEngine Store User) :
    (engine.conclude batchId status).told = engine.told ++
      ((engine.mutationCallbacks engine.currentUser batchId).toList.map (fun callback =>
        (callback, status)) ++
      (callbacksOf engine.pendingWritesCallbacks batchId).map (fun callback =>
        (callback, Error.ok))) := by
  cases own : engine.mutationCallbacks engine.currentUser batchId <;>
    cases found : engine.pendingWritesCallbacks.find? (fun entry => entry.1 = batchId) <;>
      simp [conclude, notifyUser, triggerPendingWriteCallbacks, own, found, callbacksOf]

/-- Settling a batch forgets its callback. -/
theorem mutationCallbacks_conclude (batchId : Int) (status : Error)
    (engine : SyncEngine Store User) :
    (engine.conclude batchId status).mutationCallbacks =
      Function.update engine.mutationCallbacks engine.currentUser
        (Function.update (engine.mutationCallbacks engine.currentUser) batchId none) := by
  cases own : engine.mutationCallbacks engine.currentUser batchId with
  | none =>
    have same : Function.update (engine.mutationCallbacks engine.currentUser) batchId none =
        engine.mutationCallbacks engine.currentUser := by
      rw [← own, Function.update_eq_self]
    rw [same, Function.update_eq_self]
    cases found : engine.pendingWritesCallbacks.find? (fun entry => entry.1 = batchId) <;>
      simp [conclude, notifyUser, triggerPendingWriteCallbacks, own, found]
  | some callback =>
    cases found : engine.pendingWritesCallbacks.find? (fun entry => entry.1 = batchId) <;>
      simp [conclude, notifyUser, triggerPendingWriteCallbacks, own, found]

/-- Settling a batch drops those that waited for it. -/
theorem pendingWritesCallbacks_conclude (batchId : Int) (status : Error)
    (engine : SyncEngine Store User) :
    (engine.conclude batchId status).pendingWritesCallbacks =
      engine.pendingWritesCallbacks.filter (fun entry => entry.1 ≠ batchId) := by
  cases found : engine.pendingWritesCallbacks.find? (fun entry => entry.1 = batchId) with
  | none =>
    have stays : engine.pendingWritesCallbacks.filter (fun entry => entry.1 ≠ batchId) =
        engine.pendingWritesCallbacks := by
      rw [List.filter_eq_self]
      intro entry member
      simpa using List.find?_eq_none.mp found entry member
    rw [stays]
    cases own : engine.mutationCallbacks engine.currentUser batchId <;>
      simp [conclude, notifyUser, triggerPendingWriteCallbacks, own, found]
  | some entry =>
    cases own : engine.mutationCallbacks engine.currentUser batchId <;>
      simp [conclude, notifyUser, triggerPendingWriteCallbacks, own, found]

variable [MutationQueue Store User M] [LawfulMutationQueue Store User M]

/-- The queues and the callbacks under their numbers. -/
def queue (engine : SyncEngine Store User) (user : User) : List (Outbox.Entry M) :=
  (pending engine.store user).map (engine.entry user)

/-- What is told concerns no queue. -/
@[simp] theorem queue_told (engine : SyncEngine Store User)
    (told : List (Nat × Error)) : queue { engine with told } = engine.queue := rfl

/-- Callbacks are kept only under numbers that are pending. -/
structure Tidy (engine : SyncEngine Store User) : Prop where
  callbacks : ∀ user batchId, (engine.mutationCallbacks user batchId).isSome →
    batchId ∈ (pending engine.store user).map MutationBatch.batchId
  keys : (engine.pendingWritesCallbacks.map Prod.fst).Nodup
  waits : ∀ batchId ∈ engine.pendingWritesCallbacks.map Prod.fst,
    batchId ∈ engine.waiting.map MutationBatch.batchId

variable {engine after : SyncEngine Store User} {batch : MutationBatch M}

/-- The numbers of a queue are all different. -/
theorem distinct (valid : Valid engine.store) (user : User) :
    ((pending engine.store user).map MutationBatch.batchId).Nodup := by
  rw [List.nodup_iff_pairwise_ne, List.pairwise_map]
  exact (ascending valid user).imp fun earlier => earlier.ne

/-- What keeps the books tells no one. -/
theorem Kept.told (kept : engine.Kept after) : after.told = engine.told := by rw [← kept.ledger]

/-- What keeps the books keeps the queues. -/
theorem Kept.queue (kept : engine.Kept after) : after.queue = engine.queue := by
  funext user
  rw [SyncEngine.queue, kept.pending, SyncEngine.queue, ← kept.ledger]
  rfl

/-- What keeps the books keeps them tidy. -/
theorem Kept.tidy (kept : engine.Kept after) (tidy : engine.Tidy) : after.Tidy := by
  have waiting := kept.waiting
  have pending := kept.pending
  rw [← kept.ledger] at waiting pending ⊢
  refine ⟨?_, tidy.keys, ?_⟩
  · rw [pending]
    exact tidy.callbacks
  · rw [waiting]
    exact tidy.waits

/-- Settling a batch tells its own callback and those that waited for it. -/
theorem Settles.told {status : Error} (settles : engine.Settles batch status after) :
    after.told = engine.told ++ (engine.entry engine.currentUser batch).news verdicts status := by
  rw [← settles.ledger]
  refine (told_conclude batch.batchId status engine).trans ?_
  simp [entry, Outbox.Entry.news, waiters, verdicts]

/-- The numbers after the first of a queue are other numbers. -/
theorem apart_of_first (valid : Valid engine.store) {user : User}
    {rest : List (MutationBatch M)} (first : pending engine.store user = batch :: rest) :
    ∀ other ∈ rest, other.batchId ≠ batch.batchId := by
  have ascends := ascending valid user
  rw [first, List.pairwise_cons] at ascends
  exact fun other member => (ascends.1 other member).ne'

/-- It takes the batch from the head of its user's queue. -/
theorem Settles.queue {status : Error} (settles : engine.Settles batch status after)
    (valid : Valid engine.store) :
    ∃ rest, engine.queue engine.currentUser = engine.entry engine.currentUser batch :: rest ∧
      after.queue = Function.update engine.queue engine.currentUser rest := by
  obtain ⟨rest, first⟩ := settles.first
  have apart := apart_of_first valid first
  have entries : ∀ user, ∀ other : MutationBatch M, user ≠ engine.currentUser ∨
      other.batchId ≠ batch.batchId → after.entry user other = engine.entry user other := by
    intro user other elsewhere
    rw [← settles.ledger]
    simp only [entry, waiters, conclude_currentUser, mutationCallbacks_conclude,
      pendingWritesCallbacks_conclude]
    obtain another | another := elsewhere
    · simp [another]
    · rw [callbacksOf_filter another]
      congr 1
      by_cases same : user = engine.currentUser
      · subst same
        simp [another]
      · simp [same]
  refine ⟨rest.map (engine.entry engine.currentUser), ?_, funext fun user => ?_⟩
  · show engine.waiting.map (engine.entry engine.currentUser) = _
    rw [first, List.map_cons]
  · rw [SyncEngine.queue, settles.pending, first, List.tail_cons]
    by_cases same : user = engine.currentUser
    · subst same
      rw [Function.update_self, Function.update_self]
      exact List.map_congr_left fun other member => entries _ other (.inr (apart other member))
    · rw [Function.update_of_ne same, Function.update_of_ne same]
      exact List.map_congr_left fun other _ => entries _ other (.inl same)

/-- It keeps the books tidy. -/
theorem Settles.tidy {status : Error} (settles : engine.Settles batch status after)
    (tidy : engine.Tidy) : after.Tidy := by
  obtain ⟨rest, first⟩ := settles.first
  have front : LawfulMutationQueue.pending engine.store engine.currentUser = batch :: rest := first
  have waiting := settles.waiting
  have pending := settles.pending
  rw [first, List.tail_cons] at waiting pending
  refine ⟨fun user batchId known => ?_, ?_, fun batchId member => ?_⟩
  · rw [← settles.ledger] at known
    simp only [mutationCallbacks_conclude] at known
    rw [pending]
    by_cases same : user = engine.currentUser
    · subst same
      rw [Function.update_self] at known ⊢
      by_cases gone : batchId = batch.batchId
      · simp [gone] at known
      · rw [Function.update_of_ne gone] at known
        have member := tidy.callbacks _ batchId known
        rw [front, List.map_cons, List.mem_cons] at member
        exact member.resolve_left gone
    · rw [Function.update_of_ne same] at known ⊢
      exact tidy.callbacks user batchId known
  · rw [← settles.ledger]
    simp only [pendingWritesCallbacks_conclude]
    exact tidy.keys.sublist (List.filter_sublist.map _)
  · rw [← settles.ledger] at member
    simp only [pendingWritesCallbacks_conclude] at member
    obtain ⟨entry, kept, rfl⟩ := List.mem_map.mp member
    obtain ⟨known, other⟩ := List.mem_filter.mp kept
    have before := tidy.waits entry.1 (List.mem_map_of_mem known)
    rw [first, List.map_cons, List.mem_cons] at before
    rw [waiting]
    exact before.resolve_left (by simpa using other)

/-- The number of a batch that is added is new. -/
theorem Adds.fresh {callback : Nat} (adds : engine.Adds batch callback after) :
    batch.batchId ∉ engine.waiting.map MutationBatch.batchId := by
  have numbers : (after.waiting.map MutationBatch.batchId).Nodup :=
    distinct adds.valid after.currentUser
  rw [adds.waiting, List.map_append, List.nodup_append] at numbers
  exact fun member => numbers.2.2 _ member _ (by simp) rfl

/-- Adding a batch changes the store and the callback under its number. -/
theorem Adds.kept {callback : Nat} (adds : engine.Adds batch callback after)
    (tidy : engine.Tidy) :
    { engine with
      store := after.store
      mutationCallbacks := Function.update engine.mutationCallbacks engine.currentUser
        (Function.update (engine.mutationCallbacks engine.currentUser) batch.batchId
          (some callback)) } = after := by
  have free : (engine.mutationCallbacks engine.currentUser batch.batchId).isSome = false := by
    by_contra taken
    exact adds.fresh (tidy.callbacks _ _ (Bool.of_not_eq_false taken))
  conv_rhs => rw [← adds.ledger]
  simp [insertCallback, free]

/-- It tells no one. -/
theorem Adds.told {callback : Nat} (adds : engine.Adds batch callback after)
    (tidy : engine.Tidy) : after.told = engine.told := by rw [← adds.kept tidy]

/-- It puts the batch at the end of its user's queue. -/
theorem Adds.queue {callback : Nat} (adds : engine.Adds batch callback after)
    (tidy : engine.Tidy) :
    after.queue = Function.update engine.queue engine.currentUser
      (engine.queue engine.currentUser ++ [⟨batch.mutations, some callback, []⟩]) := by
  have fresh := adds.fresh
  have unwaited : callbacksOf engine.pendingWritesCallbacks batch.batchId = [] :=
    callbacksOf_absent fun member => fresh (tidy.waits _ member)
  funext user
  rw [SyncEngine.queue, adds.pending, ← adds.kept tidy]
  by_cases same : user = engine.currentUser
  · subst same
    rw [Function.update_self, Function.update_self, List.map_append]
    congr 1
    · refine List.map_congr_left fun other member => ?_
      have apart : other.batchId ≠ batch.batchId := fun equal =>
        fresh (equal ▸ List.mem_map_of_mem member)
      simp [entry, waiters, apart]
    · simp [entry, waiters, unwaited]
  · rw [Function.update_of_ne same, Function.update_of_ne same]
    refine List.map_congr_left fun other _ => ?_
    simp [entry, waiters, same]

/-- It keeps the books tidy. -/
theorem Adds.tidy {callback : Nat} (adds : engine.Adds batch callback after)
    (tidy : engine.Tidy) : after.Tidy := by
  have waiting := adds.waiting
  have pending := adds.pending
  rw [← adds.kept tidy] at waiting pending ⊢
  refine ⟨fun user batchId known => ?_, tidy.keys, fun batchId member => ?_⟩
  · rw [pending]
    by_cases same : user = engine.currentUser
    · subst same
      rw [Function.update_self, List.map_append, List.mem_append]
      by_cases new : batchId = batch.batchId
      · simp [new]
      · simp only [Function.update_self, Function.update_of_ne new] at known
        exact .inl (tidy.callbacks _ batchId known)
    · simp only [Function.update_of_ne same] at known ⊢
      exact tidy.callbacks user batchId known
  · rw [waiting, List.map_append]
    exact List.mem_append_left _ (tidy.waits batchId member)

/-- Where nothing is pending, a wait is over at once. -/
theorem register_nil (valid : Valid engine.store) (owner : user engine.store = engine.currentUser)
    (none : engine.waiting = []) (callback : Nat) :
    engine.registerPendingWritesCallback callback =
      { engine with told := engine.told ++ [(callback, .ok)] } := by
  have highest := highest_spec valid
  rw [owner, show pending engine.store engine.currentUser = [] from none] at highest
  simp [registerPendingWritesCallback, highest]

/-- A wait is kept under the highest pending number. -/
theorem register_concat (valid : Valid engine.store)
    (owner : user engine.store = engine.currentUser) {front : List (MutationBatch M)}
    {last : MutationBatch M} (split : engine.waiting = front ++ [last]) (callback : Nat) :
    engine.registerPendingWritesCallback callback = { engine with
      pendingWritesCallbacks :=
        pushCallback last.batchId callback engine.pendingWritesCallbacks } := by
  have isLast : pending engine.store engine.currentUser = front ++ [last] := split
  have highest := highest_spec valid
  have positive : 0 < last.batchId :=
    (numbered valid engine.currentUser last (by rw [isLast]; simp)).1
  have known : last.batchId ≠ kBatchIdUnknown := by
    intro none
    rw [none] at positive
    exact absurd positive (by decide)
  rw [owner, isLast, List.getLast?_append, List.getLast?_singleton, Option.some_or,
    Option.map_some, Option.getD_some] at highest
  simp [registerPendingWritesCallback, highest, known]

/-- A wait hangs on the last batch. -/
theorem queue_push (valid : Valid engine.store) {front : List (MutationBatch M)}
    {last : MutationBatch M} (split : engine.waiting = front ++ [last]) (callback : Nat) :
    SyncEngine.queue { engine with
        pendingWritesCallbacks :=
          pushCallback last.batchId callback engine.pendingWritesCallbacks } =
      Function.update engine.queue engine.currentUser
        (front.map (engine.entry engine.currentUser) ++
          [{ engine.entry engine.currentUser last with
            waiters := (engine.entry engine.currentUser last).waiters ++ [callback] }]) := by
  have whole : pending engine.store engine.currentUser = front ++ [last] := split
  have apart : ∀ other ∈ front, last.batchId ≠ other.batchId := by
    have ascends := ascending valid engine.currentUser
    rw [whole, List.pairwise_append] at ascends
    exact fun other member => (ascends.2.2 other member last (by simp)).ne'
  funext user
  by_cases same : user = engine.currentUser
  · subst same
    rw [Function.update_self, SyncEngine.queue, whole, List.map_append]
    congr 1
    · refine List.map_congr_left fun other member => ?_
      simp [entry, waiters, callbacksOf_push, apart other member]
    · simp [entry, waiters, callbacksOf_push]
  · rw [Function.update_of_ne same]
    refine List.map_congr_left fun other _ => ?_
    simp [entry, waiters, same]

/-- A callback that waits for the last batch keeps the books tidy. -/
theorem tidy_push (tidy : engine.Tidy) {front : List (MutationBatch M)}
    {last : MutationBatch M} (split : engine.waiting = front ++ [last]) (callback : Nat) :
    Tidy { engine with
      pendingWritesCallbacks :=
        pushCallback last.batchId callback engine.pendingWritesCallbacks } := by
  refine ⟨tidy.callbacks, ?_, fun batchId member => ?_⟩
  · rw [map_fst_push]
    split
    · exact tidy.keys
    · rename_i new
      refine List.nodup_append.mpr ⟨tidy.keys, by simp, fun key member other isLast equal => new ?_⟩
      rw [← List.mem_singleton.mp isLast, ← equal]
      exact member
  · rw [map_fst_push] at member
    have known : batchId ∈ engine.pendingWritesCallbacks.map Prod.fst ∨ batchId = last.batchId := by
      split at member
      · exact .inl member
      · simpa using member
    obtain old | rfl := known
    · exact tidy.waits batchId old
    · show last.batchId ∈ engine.waiting.map MutationBatch.batchId
      simp [split]

omit [LawfulMutationQueue Store User M] in
/-- A change of user gives up the waits of the user before. -/
theorem changeUser_told (engine : SyncEngine Store User) {next : User}
    (other : next ≠ engine.currentUser) :
    (engine.changeUser next).told = engine.told ++
      (engine.pendingWritesCallbacks.flatMap Prod.snd).map (fun callback =>
        (callback, verdicts.cancelled)) := by
  rw [changeUser, if_neg other.symm, List.map_flatMap]
  rfl

/-- A change of user releases whoever waited in the queue that is left. -/
theorem changeUser_queue (valid : Valid engine.store) {next : User}
    (other : next ≠ engine.currentUser) :
    (engine.changeUser next).queue = Function.update engine.queue engine.currentUser
      ((engine.queue engine.currentUser).map Outbox.Entry.release) := by
  have same : pending (engine.changeUser next).store = pending engine.store := by
    rw [changeUser, if_neg other.symm]
    exact (start_spec valid next).2.2
  funext user
  rw [SyncEngine.queue, same, changeUser, if_neg other.symm]
  by_cases old : user = engine.currentUser
  · subst old
    rw [Function.update_self, SyncEngine.queue, List.map_map]
    refine List.map_congr_left fun batch _ => ?_
    simp [entry, waiters, other.symm, failOutstandingPendingWriteCallbacks, Outbox.Entry.release]
  · rw [Function.update_of_ne old]
    refine List.map_congr_left fun batch _ => ?_
    have none : callbacksOf [] batch.batchId = [] := rfl
    simp [entry, waiters, old, failOutstandingPendingWriteCallbacks, none]

/-- It keeps the books tidy. -/
theorem changeUser_tidy (valid : Valid engine.store) (tidy : engine.Tidy) (next : User) :
    (engine.changeUser next).Tidy := by
  unfold changeUser
  split
  · exact tidy
  · refine ⟨fun user batchId known => ?_, List.nodup_nil, nofun⟩
    have same : pending (MutationQueue.start next engine.store) user = pending engine.store user :=
      congrFun (start_spec valid next).2.2 user
    show batchId ∈ (pending (MutationQueue.start next engine.store) user).map MutationBatch.batchId
    rw [same]
    exact tidy.callbacks user batchId known

/-- Those that wait for pending writes are those that wait in the current queue. -/
theorem waiting_perm (valid : Valid engine.store) (tidy : engine.Tidy) :
    (engine.pendingWritesCallbacks.flatMap Prod.snd).Perm
      (Outbox.waiting (engine.queue engine.currentUser)) := by
  refine (flatMap_callbacksOf tidy.keys (distinct valid engine.currentUser) tidy.waits).trans ?_
  simp [Outbox.waiting, SyncEngine.queue, entry, waiters, List.flatMap_map]

end SyncEngine

end Amigo.Firestore
