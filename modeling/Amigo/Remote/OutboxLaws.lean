import Mathlib.Tactic.Common
import Amigo.Remote.Outbox

/-!
# The laws of outboxes

Calls are carried out in the order they are made, each under the user signed in when
it was made, so the calls carried out are always the first ones. Of each user, the
writes carried out are, in order, those whose callbacks were told and those whose
entries are still in the outbox: none is lost, told twice or overtaken. A write told as
done is committed under its user; what one stream has committed is a stretch of the
writes of one user, in their order; and a wait is told as done only after every earlier
write of its user has been told.
-/

namespace Outbox

variable {User M Status : Type}

/-- The call a task carries out. -/
def Task.callback : Task User M → Option Nat
  | .call callback _ => some callback
  | .change _ => none

/-- The calls the tasks will carry out. -/
def taskCalls (tasks : List (Task User M)) : List Nat := tasks.filterMap Task.callback

/-- The callbacks of an entry. -/
def Entry.callbacks (entry : Entry M) : List Nat := entry.callback.toList ++ entry.waiters

variable [DecidableEq User]

/-- What a call of a user writes; to write nothing is no write. -/
def writeOf (calls : List (Call User M)) (user : User) (callback : Nat) : Option (List M) :=
  calls[callback]?.bind fun call =>
    match call.order with
    | .write (first :: rest) => if call.user = user then some (first :: rest) else none
    | _ => none

/-- Whether a call is a write of a user. -/
def isWrite (calls : List (Call User M)) (user : User) (callback : Nat) : Bool :=
  (writeOf calls user callback).isSome

/-- Whether a call is made under a user. -/
def isBy (calls : List (Call User M)) (user : User) (callback : Nat) : Bool :=
  decide (calls[callback]?.map Call.user = some user)

/-- Each task is a call of the user it will be carried out under. -/
def Attributed (calls : List (Call User M)) (signedIn : User) : User → List (Task User M) → Prop
  | user, [] => user = signedIn
  | user, .call callback order :: rest =>
    calls[callback]? = some ⟨user, order⟩ ∧ Attributed calls signedIn user rest
  | _, .change user :: rest => Attributed calls signedIn user rest

section Calls

variable {calls : List (Call User M)} {user : User} {callback : Nat}

/-- A further call leaves what an earlier one writes. -/
theorem writeOf_append (short : callback < calls.length) (call : Call User M) :
    writeOf (calls ++ [call]) user callback = writeOf calls user callback := by
  rw [writeOf, List.getElem?_append_left short, writeOf]

/-- It leaves whether an earlier one is a write. -/
theorem isWrite_append (short : callback < calls.length) (call : Call User M) :
    isWrite (calls ++ [call]) user callback = isWrite calls user callback := by
  rw [isWrite, writeOf_append short, isWrite]

/-- It leaves whose an earlier one is. -/
theorem isBy_append (short : callback < calls.length) (call : Call User M) :
    isBy (calls ++ [call]) user callback = isBy calls user callback := by
  rw [isBy, List.getElem?_append_left short, isBy]

/-- A call's write counts for its own user. -/
theorem writeOf_write {owner : User} {mutations : List M}
    (found : calls[callback]? = some ⟨owner, .write mutations⟩) (some : mutations ≠ []) :
    writeOf calls user callback = if owner = user then .some mutations else none := by
  cases mutations with
  | nil => exact absurd rfl some
  | cons first rest => simp [writeOf, found]

/-- A call with mutations is a write of its user. -/
theorem isWrite_write {owner : User} {mutations : List M}
    (found : calls[callback]? = some ⟨owner, .write mutations⟩) (some : mutations ≠ []) :
    isWrite calls user callback = decide (owner = user) := by
  rw [isWrite, writeOf_write found some]
  by_cases same : owner = user <;> simp [same]

/-- A wait writes nothing. -/
theorem writeOf_wait {owner : User} (found : calls[callback]? = some ⟨owner, .wait⟩) :
    writeOf calls user callback = none := by simp [writeOf, found]

/-- An order done at once writes nothing. -/
theorem writeOf_prompt {owner : User} {order : Order M} {queue : List (Entry M)}
    (found : calls[callback]? = some ⟨owner, order⟩) (prompt : Prompt queue order) :
    writeOf calls user callback = none := by
  cases order with
  | write mutations => simp [writeOf, found, show mutations = [] from prompt]
  | wait => exact writeOf_wait found
  | other => simp [writeOf, found]

/-- A call is by the user who was signed in at it. -/
theorem isBy_found {owner : User} {order : Order M}
    (found : calls[callback]? = some ⟨owner, order⟩) :
    isBy calls user callback = decide (owner = user) := by simp [isBy, found]

/-- Only a user's own calls are the user's writes. -/
theorem isWrite_of_isBy (apart : isBy calls user callback = false) :
    isWrite calls user callback = false := by
  cases found : calls[callback]? with
  | none => simp [isWrite, writeOf, found]
  | some call =>
    have other : call.user ≠ user := by simpa [isBy, found] using apart
    rw [isWrite, writeOf, found]
    obtain ⟨owner, order⟩ := call
    cases order with
    | write mutations => cases mutations <;> simp [other]
    | wait => rfl
    | other => rfl

/-- A call has one user. -/
theorem isBy_other {other : User} (by_ : isBy calls user callback = true) (apart : other ≠ user) :
    isBy calls other callback = false := by
  have found : calls[callback]?.map Call.user = some user := of_decide_eq_true by_
  simp [isBy, found, apart.symm]

omit [DecidableEq User] in
/-- One more call concerns no task. -/
theorem Attributed.called {signedIn : User} {tasks : List (Task User M)}
    (attributed : Attributed calls signedIn user tasks) (order : Order M) :
    Attributed (calls ++ [⟨signedIn, order⟩]) signedIn user
      (tasks ++ [.call calls.length order]) := by
  induction tasks generalizing user with
  | nil =>
    have same : user = signedIn := attributed
    exact ⟨by simp [same], same⟩
  | cons task rest inductionHypothesis =>
    cases task with
    | call callback earlier =>
      obtain ⟨found, later⟩ := attributed
      obtain ⟨short, _⟩ := List.getElem?_eq_some_iff.mp found
      exact ⟨by rw [List.getElem?_append_left short, found], inductionHypothesis later⟩
    | change next => exact inductionHypothesis attributed

omit [DecidableEq User] in
/-- The next user is signed in at the end. -/
theorem Attributed.signsIn {signedIn : User} {tasks : List (Task User M)}
    (attributed : Attributed calls signedIn user tasks) (next : User) :
    Attributed calls next user (tasks ++ [.change next]) := by
  induction tasks generalizing user with
  | nil => exact rfl
  | cons task rest inductionHypothesis =>
    cases task with
    | call callback order => exact ⟨attributed.1, inductionHypothesis attributed.2⟩
    | change later => exact inductionHypothesis attributed

end Calls

/-- What a settled entry tells, it tells its callbacks. -/
theorem map_fst_news (verdicts : Verdicts Status) (status : Status) (entry : Entry M) :
    (entry.news verdicts status).map Prod.fst = entry.callbacks := by
  simp [Entry.news, Entry.callbacks, Function.comp_def]

/-- The callbacks of a queue are those of its writes and those that wait. -/
theorem callbacks_perm (queue : List (Entry M)) :
    (queue.flatMap Entry.callbacks).Perm
      (waiting queue ++ (queue.map Entry.release).flatMap Entry.callbacks) := by
  rw [List.perm_iff_count]
  intro callback
  induction queue with
  | nil => rfl
  | cons entry rest inductionHypothesis =>
    simp only [waiting, List.flatMap_cons, List.map_cons, List.count_append, Entry.callbacks,
      Entry.release, List.count_nil] at inductionHypothesis ⊢
    omega

/-- What holds of the outbox of one user, where the first `executed` calls have been
carried out and `told` is what the app has heard. -/
structure Booked (executed : Nat) (calls : List (Call User M)) (told : List (Nat × Status))
    (user : User) (queue : List (Entry M)) : Prop where
  written : ∀ entry ∈ queue, ∀ callback, entry.callback = some callback →
    callback < executed ∧ entry.mutations ≠ [] ∧
      calls[callback]? = some ⟨user, .write entry.mutations⟩
  waited : ∀ entry ∈ queue, ∀ callback ∈ entry.waiters,
    callback < executed ∧ calls[callback]? = some ⟨user, .wait⟩
  inOrder : (List.range executed).filter (isWrite calls user) =
    (told.map Prod.fst).filter (isWrite calls user) ++ queue.filterMap Entry.callback
  once : ((List.range executed).filter (isBy calls user)).Perm
    ((told.map Prod.fst).filter (isBy calls user) ++ queue.flatMap Entry.callbacks)
  hanging : queue.Pairwise fun entry later =>
    ∀ waiter ∈ entry.waiters, ∀ callback, later.callback = some callback → waiter < callback

namespace Booked

variable {executed : Nat} {calls : List (Call User M)} {told : List (Nat × Status)} {user : User}
  {queue : List (Entry M)}

/-- One more call concerns nothing that has been carried out. -/
theorem called (booked : Booked executed calls told user queue) (ran : executed ≤ calls.length)
    (heard : ∀ news ∈ told, news.1 < executed) (call : Call User M) :
    Booked executed (calls ++ [call]) told user queue := by
  have keeps {callback : Nat} {earlier : Call User M} (found : calls[callback]? = some earlier) :
      (calls ++ [call])[callback]? = some earlier := by
    obtain ⟨short, _⟩ := List.getElem?_eq_some_iff.mp found
    rw [List.getElem?_append_left short, found]
  have early {callback : Nat} (before : callback ∈ List.range executed) :
      callback < calls.length := (List.mem_range.mp before).trans_le ran
  have known {callback : Nat} (member : callback ∈ told.map Prod.fst) :
      callback < calls.length := by
    obtain ⟨news, isNews, rfl⟩ := List.mem_map.mp member
    exact (heard news isNews).trans_le ran
  refine ⟨?_, ?_, ?_, ?_, booked.hanging⟩
  · intro entry member callback isCallback
    obtain ⟨before, some, found⟩ := booked.written entry member callback isCallback
    exact ⟨before, some, keeps found⟩
  · intro entry member callback waits
    obtain ⟨before, found⟩ := booked.waited entry member callback waits
    exact ⟨before, keeps found⟩
  · rw [List.filter_congr (fun callback before => isWrite_append (early before) call),
      List.filter_congr (fun callback member => isWrite_append (known member) call)]
    exact booked.inOrder
  · rw [List.filter_congr (fun callback before => isBy_append (early before) call),
      List.filter_congr (fun callback member => isBy_append (known member) call)]
    exact booked.once

/-- A call of another user is carried out. -/
theorem passed (booked : Booked executed calls told user queue)
    (apart : isBy calls user executed = false) : Booked (executed + 1) calls told user queue := by
  refine ⟨?_, ?_, ?_, ?_, booked.hanging⟩
  · intro entry member callback isCallback
    obtain ⟨early, known⟩ := booked.written entry member callback isCallback
    exact ⟨early.trans (Nat.lt_succ_self _), known⟩
  · intro entry member callback waits
    obtain ⟨early, known⟩ := booked.waited entry member callback waits
    exact ⟨early.trans (Nat.lt_succ_self _), known⟩
  · rw [List.range_succ, List.filter_append, booked.inOrder]
    simp [isWrite_of_isBy apart]
  · rw [List.range_succ, List.filter_append]
    simpa [apart] using booked.once

/-- Callbacks of another user are told. -/
theorem elsewhere (booked : Booked executed calls told user queue) {news : List (Nat × Status)}
    (apart : ∀ callback ∈ news.map Prod.fst, isBy calls user callback = false) :
    Booked executed calls (told ++ news) user queue := by
  refine ⟨booked.written, booked.waited, ?_, ?_, booked.hanging⟩
  · have silent : (news.map Prod.fst).filter (isWrite calls user) = [] := by
      rw [List.filter_eq_nil_iff]
      intro callback member
      simp [isWrite_of_isBy (apart callback member)]
    rw [List.map_append, List.filter_append, silent, List.append_nil]
    exact booked.inOrder
  · have silent : (news.map Prod.fst).filter (isBy calls user) = [] := by
      rw [List.filter_eq_nil_iff]
      intro callback member
      simp [apart callback member]
    rw [List.map_append, List.filter_append, silent, List.append_nil]
    exact booked.once

/-- A write of the user is carried out. -/
theorem writes (booked : Booked executed calls told user queue) {mutations : List M}
    (found : calls[executed]? = some ⟨user, .write mutations⟩) (some : mutations ≠ []) :
    Booked (executed + 1) calls told user (queue ++ [⟨mutations, .some executed, []⟩]) := by
  refine ⟨?_, ?_, ?_, ?_, ?_⟩
  · intro entry member callback isCallback
    obtain before | added := List.mem_append.mp member
    · obtain ⟨early, known⟩ := booked.written entry before callback isCallback
      exact ⟨early.trans (Nat.lt_succ_self _), known⟩
    · cases List.mem_singleton.mp added
      cases isCallback
      exact ⟨Nat.lt_succ_self _, some, found⟩
  · intro entry member callback waits
    obtain before | added := List.mem_append.mp member
    · obtain ⟨early, known⟩ := booked.waited entry before callback waits
      exact ⟨early.trans (Nat.lt_succ_self _), known⟩
    · cases List.mem_singleton.mp added
      cases waits
  · rw [List.range_succ, List.filter_append, booked.inOrder, List.filterMap_append,
      ← List.append_assoc]
    simp [isWrite_write found some]
  · rw [List.range_succ, List.filter_append, List.flatMap_append, ← List.append_assoc]
    refine booked.once.append ?_
    simp [isBy_found found, Entry.callbacks]
  · refine List.pairwise_append.mpr ⟨booked.hanging, List.pairwise_singleton _ _, ?_⟩
    intro entry member added isAdded waiter waits callback isCallback
    cases List.mem_singleton.mp isAdded
    cases isCallback
    exact (booked.waited entry member waiter waits).1

/-- An order of the user is done at once. -/
theorem done (booked : Booked executed calls told user queue) {order : Order M}
    (found : calls[executed]? = some ⟨user, order⟩) (prompt : Prompt queue order)
    (status : Status) :
    Booked (executed + 1) calls (told ++ [(executed, status)]) user queue := by
  have silent : isWrite calls user executed = false := by
    rw [isWrite, writeOf_prompt found prompt]
    rfl
  refine ⟨?_, ?_, ?_, ?_, booked.hanging⟩
  · intro entry member callback isCallback
    obtain ⟨early, known⟩ := booked.written entry member callback isCallback
    exact ⟨early.trans (Nat.lt_succ_self _), known⟩
  · intro entry member callback waits
    obtain ⟨early, known⟩ := booked.waited entry member callback waits
    exact ⟨early.trans (Nat.lt_succ_self _), known⟩
  · rw [List.range_succ, List.filter_append, booked.inOrder, List.map_append, List.filter_append]
    simp [silent]
  · rw [List.range_succ, List.filter_append, List.map_append, List.filter_append,
      List.append_assoc]
    refine (booked.once.append_right _).trans ?_
    rw [List.append_assoc]
    exact List.perm_append_comm.append_left _

/-- A wait of the user hangs on the last entry. -/
theorem waits {front : List (Entry M)} {last : Entry M}
    (booked : Booked executed calls told user (front ++ [last]))
    (found : calls[executed]? = some ⟨user, .wait⟩) :
    Booked (executed + 1) calls told user
      (front ++ [{ last with waiters := last.waiters ++ [executed] }]) := by
  have silent : isWrite calls user executed = false := by
    rw [isWrite, writeOf_wait found]
    rfl
  have held : last ∈ front ++ [last] := by simp
  refine ⟨?_, ?_, ?_, ?_, ?_⟩
  · intro entry member callback isCallback
    obtain before | changed := List.mem_append.mp member
    · obtain ⟨early, known⟩ := booked.written entry (List.mem_append_left _ before) callback
        isCallback
      exact ⟨early.trans (Nat.lt_succ_self _), known⟩
    · cases List.mem_singleton.mp changed
      obtain ⟨early, known⟩ := booked.written last held callback isCallback
      exact ⟨early.trans (Nat.lt_succ_self _), known⟩
  · intro entry member callback waits
    obtain before | changed := List.mem_append.mp member
    · obtain ⟨early, known⟩ := booked.waited entry (List.mem_append_left _ before) callback waits
      exact ⟨early.trans (Nat.lt_succ_self _), known⟩
    · cases List.mem_singleton.mp changed
      obtain earlier | new := List.mem_append.mp waits
      · obtain ⟨early, known⟩ := booked.waited last held callback earlier
        exact ⟨early.trans (Nat.lt_succ_self _), known⟩
      · cases List.mem_singleton.mp new
        exact ⟨Nat.lt_succ_self _, found⟩
  · have before := booked.inOrder
    rw [List.filterMap_append] at before
    rw [List.range_succ, List.filter_append, before, List.filterMap_append]
    simp [silent, List.filterMap_cons]
  · have before := booked.once
    rw [List.flatMap_append] at before
    rw [List.range_succ, List.filter_append, List.flatMap_append]
    have added : (List.filter (isBy calls user) [executed]) = [executed] := by
      simp [isBy_found found]
    rw [added]
    simpa [Entry.callbacks, List.append_assoc] using before.append_right [executed]
  · obtain ⟨front, _, across⟩ := List.pairwise_append.mp booked.hanging
    refine List.pairwise_append.mpr ⟨front, List.pairwise_singleton _ _, ?_⟩
    intro entry member changed isChanged
    cases List.mem_singleton.mp isChanged
    exact across entry member last (by simp)

/-- The waiters of the user are given up. -/
theorem cancels (booked : Booked executed calls told user queue) {cancelled : List Nat}
    (order : cancelled.Perm (waiting queue)) (status : Status) :
    Booked executed calls (told ++ cancelled.map (fun callback => (callback, status))) user
      (queue.map Entry.release) := by
  have waits {callback : Nat} (member : callback ∈ cancelled) :
      calls[callback]? = some ⟨user, .wait⟩ := by
    obtain ⟨entry, held, waits⟩ := List.mem_flatMap.mp (order.mem_iff.mp member)
    exact (booked.waited entry held callback waits).2
  have named : (cancelled.map fun callback => (callback, status)).map Prod.fst = cancelled := by
    rw [List.map_map]
    exact List.map_id _
  refine ⟨?_, ?_, ?_, ?_, ?_⟩
  · intro entry member callback isCallback
    obtain ⟨before, held, rfl⟩ := List.mem_map.mp member
    exact booked.written before held callback isCallback
  · intro entry member callback waits
    obtain ⟨before, held, rfl⟩ := List.mem_map.mp member
    cases waits
  · have silent : cancelled.filter (isWrite calls user) = [] := by
      rw [List.filter_eq_nil_iff]
      intro callback member
      simp [isWrite, writeOf_wait (waits member)]
    rw [List.map_append, List.filter_append, named, silent, List.append_nil, List.filterMap_map]
    exact booked.inOrder
  · have all : cancelled.filter (isBy calls user) = cancelled := by
      rw [List.filter_eq_self]
      intro callback member
      simp [isBy_found (waits member)]
    rw [List.map_append, List.filter_append, named, all, List.append_assoc]
    refine booked.once.trans (List.Perm.append_left _ ?_)
    exact (callbacks_perm queue).trans (order.symm.append_right _)
  · rw [List.pairwise_map]
    exact booked.hanging.imp fun _ _ waits => absurd waits (by simp [Entry.release])

/-- The first entry is settled. -/
theorem settles {entry : Entry M} {rest : List (Entry M)}
    (booked : Booked executed calls told user (entry :: rest)) (verdicts : Verdicts Status)
    (status : Status) :
    Booked executed calls (told ++ entry.news verdicts status) user rest := by
  have known {callback : Nat} (member : callback ∈ entry.waiters) :
      calls[callback]? = some ⟨user, .wait⟩ := (booked.waited entry (by simp) callback member).2
  refine ⟨fun other member => booked.written other (List.mem_cons_of_mem _ member),
    fun other member => booked.waited other (List.mem_cons_of_mem _ member), ?_, ?_,
    booked.hanging.of_cons⟩
  · have silent : entry.waiters.filter (isWrite calls user) = [] := by
      rw [List.filter_eq_nil_iff]
      intro callback member
      simp [isWrite, writeOf_wait (known member)]
    have order := booked.inOrder
    rw [List.map_append, List.filter_append, map_fst_news, Entry.callbacks, List.filter_append, silent,
      List.append_nil, order]
    cases isCallback : entry.callback with
    | none => simp [isCallback]
    | some callback =>
      obtain ⟨_, some, found⟩ := booked.written entry (by simp) callback isCallback
      simp [isCallback, isWrite_write found some]
  · have all : entry.callbacks.filter (isBy calls user) = entry.callbacks := by
      rw [List.filter_eq_self]
      intro callback member
      obtain own | waits := List.mem_append.mp member
      · obtain ⟨_, _, found⟩ := booked.written entry (by simp) callback (by simpa using own)
        simp [isBy_found found]
      · simp [isBy_found (known waits)]
    rw [List.map_append, List.filter_append, map_fst_news, all, List.append_assoc]
    exact booked.once

end Booked

/-- A wait that is told as done comes after every earlier write of its user. -/
def Heeded (verdicts : Verdicts Status) (calls : List (Call User M)) (told : List (Nat × Status)) :
    Prop :=
  ∀ front waiter back user, told = front ++ (waiter, verdicts.done) :: back →
    calls[waiter]? = some ⟨user, .wait⟩ → ∀ callback < waiter,
      isWrite calls user callback = true → callback ∈ front.map Prod.fst

/-- What is told after the rest is judged by itself. -/
theorem Heeded.append {verdicts : Verdicts Status} {calls : List (Call User M)}
    {told news : List (Nat × Status)} (heeded : Heeded verdicts calls told)
    (after : ∀ front waiter back user, news = front ++ (waiter, verdicts.done) :: back →
      calls[waiter]? = some ⟨user, .wait⟩ → ∀ callback < waiter,
        isWrite calls user callback = true → callback ∈ (told ++ front).map Prod.fst) :
    Heeded verdicts calls (told ++ news) := by
  intro front waiter back user split found callback earlier writes
  obtain ⟨more, isFront, isNews⟩ | ⟨more, isTold, isRest⟩ := List.append_eq_append_iff.mp split
  · rw [isFront]
    exact after more waiter back user isNews found callback earlier writes
  · cases more with
    | nil =>
      have isFront : front = told ++ [] := by simpa using isTold.symm
      rw [isFront]
      exact after [] waiter back user isRest.symm found callback earlier writes
    | cons first others =>
      obtain ⟨rfl, rest⟩ := List.cons.inj isRest
      exact heeded front waiter others user isTold found callback earlier writes

/-- What the steps keep, where the first `executed` calls have been carried out. -/
structure Sound (verdicts : Verdicts Status) (executed : Nat) (state : State User M Status) :
    Prop where
  ran : executed ≤ state.calls.length
  remaining : taskCalls state.tasks = List.range' executed (state.calls.length - executed)
  attributed : Attributed state.calls state.signedIn state.user state.tasks
  heard : ∀ news ∈ state.told, news.1 < executed
  booked : ∀ user, Booked executed state.calls state.told user (state.queue user)
  heeded : Heeded verdicts state.calls state.told

/-- What holds of a changed outbox and of every other one holds of each. -/
theorem forall_update {queue : User → List (Entry M)} {user : User} {entries : List (Entry M)}
    {holds : User → List (Entry M) → Prop} (here : holds user entries)
    (others : ∀ other, other ≠ user → holds other (queue other)) :
    ∀ other, holds other (Function.update queue user entries other) := by
  intro other
  by_cases same : other = user
  · subst same
    rwa [Function.update_self]
  · rw [Function.update_of_ne same]
    exact others other same

namespace Sound

variable {executed : Nat} {state : State User M Status} {verdicts : Verdicts Status}

/-- The next call is the first that has not been carried out. -/
theorem next (sound : Sound verdicts executed state) {callback : Nat} {order : Order M}
    {rest : List (Task User M)} (next : state.tasks = .call callback order :: rest) :
    callback = executed ∧ executed < state.calls.length ∧
      taskCalls rest = List.range' (executed + 1) (state.calls.length - (executed + 1)) ∧
      state.calls[executed]? = some ⟨state.user, order⟩ ∧
      Attributed state.calls state.signedIn state.user rest := by
  have remaining := sound.remaining
  have attributed := sound.attributed
  rw [next] at remaining attributed
  have first : taskCalls (.call callback order :: rest) = callback :: taskCalls rest := rfl
  cases left : state.calls.length - executed with
  | zero => rw [first, left] at remaining; cases remaining
  | succ more =>
    rw [first, left, List.range'_succ] at remaining
    obtain ⟨rfl, others⟩ := List.cons.inj remaining
    refine ⟨rfl, by omega, ?_, attributed.1, attributed.2⟩
    rw [others]
    congr 1
    omega

/-- A change of user comes before the calls. -/
theorem change (sound : Sound verdicts executed state) {user : User} {rest : List (Task User M)}
    (next : state.tasks = .change user :: rest) :
    taskCalls rest = List.range' executed (state.calls.length - executed) ∧
      Attributed state.calls state.signedIn user rest := by
  have remaining := sound.remaining
  have attributed := sound.attributed
  rw [next] at remaining attributed
  exact ⟨remaining, attributed⟩

/-- Every earlier write of a user is told, or is in the user's outbox. -/
theorem told_or_held (sound : Sound verdicts executed state) {user : User} {callback : Nat}
    (earlier : callback < executed) (writes : isWrite state.calls user callback = true) :
    callback ∈ state.told.map Prod.fst ∨
      ∃ entry ∈ state.queue user, entry.callback = some callback := by
  have member : callback ∈ (List.range executed).filter (isWrite state.calls user) :=
    List.mem_filter.mpr ⟨List.mem_range.mpr earlier, writes⟩
  rw [(sound.booked user).inOrder] at member
  obtain told | held := List.mem_append.mp member
  · exact .inl (List.mem_of_mem_filter told)
  · exact .inr (List.mem_filterMap.mp held)

/-- A new call joins the tasks. -/
theorem called (sound : Sound verdicts executed state) (order : Order M) :
    Sound verdicts executed { state with
      calls := state.calls ++ [⟨state.signedIn, order⟩]
      tasks := state.tasks ++ [.call state.calls.length order] } := by
  have ran := sound.ran
  refine ⟨?_, ?_, sound.attributed.called order, sound.heard,
    fun user => (sound.booked user).called ran sound.heard _, ?_⟩
  · rw [List.length_append, List.length_singleton]
    omega
  · have appended : taskCalls (state.tasks ++ [.call state.calls.length order]) =
        taskCalls state.tasks ++ [state.calls.length] := by
      rw [taskCalls, List.filterMap_append]
      rfl
    rw [appended, sound.remaining, List.length_append, List.length_singleton,
      Nat.sub_add_comm ran, List.range'_concat]
    congr 2
    omega
  · intro front waiter back user (split : state.told = _) found callback earlier writes
    have early : waiter < state.calls.length :=
      (sound.heard (waiter, verdicts.done) (by simp [split])).trans_le ran
    rw [List.getElem?_append_left early] at found
    rw [isWrite_append (earlier.trans early)] at writes
    exact sound.heeded front waiter back user split found callback earlier writes

/-- Another user signs in. -/
theorem signsIn (sound : Sound verdicts executed state) (user : User) :
    Sound verdicts executed { state with
      signedIn := user
      tasks := state.tasks ++ [.change user] } := by
  refine ⟨sound.ran, ?_, sound.attributed.signsIn user, sound.heard, sound.booked, sound.heeded⟩
  rw [taskCalls, List.filterMap_append, ← taskCalls, sound.remaining]
  exact List.append_nil _

/-- A write joins its queue. -/
theorem writes (sound : Sound verdicts executed state) {callback : Nat} {mutations : List M}
    {rest : List (Task User M)} (next : state.tasks = .call callback (.write mutations) :: rest)
    (some : mutations ≠ []) :
    Sound verdicts (executed + 1) { state with
      tasks := rest
      queue := Function.update state.queue state.user
        (state.queue state.user ++ [⟨mutations, .some callback, []⟩]) } := by
  obtain ⟨rfl, short, remaining, found, attributed⟩ := sound.next next
  refine ⟨short, remaining, attributed,
    fun news told => (sound.heard news told).trans (Nat.lt_succ_self _),
    forall_update ((sound.booked _).writes found some) fun user apart => ?_, sound.heeded⟩
  exact (sound.booked user).passed (by simp [isBy_found found, apart.symm])

/-- A call that needs no write is told at once. -/
theorem done (sound : Sound verdicts executed state) {callback : Nat} {order : Order M}
    {rest : List (Task User M)} (next : state.tasks = .call callback order :: rest)
    (prompt : Prompt (state.queue state.user) order) :
    Sound verdicts (executed + 1) { state with
      tasks := rest
      told := state.told ++ [(callback, verdicts.done)] } := by
  obtain ⟨rfl, short, remaining, found, attributed⟩ := sound.next next
  refine ⟨short, remaining, attributed, fun news told => ?_, fun user => ?_,
    sound.heeded.append ?_⟩
  · obtain before | added := List.mem_append.mp told
    · exact (sound.heard news before).trans (Nat.lt_succ_self _)
    · cases List.mem_singleton.mp added
      exact Nat.lt_succ_self _
  · by_cases same : state.user = user
    · subst same
      exact (sound.booked _).done found prompt _
    · have apart : isBy state.calls user callback = false := by simp [isBy_found found, same]
      refine ((sound.booked user).passed apart).elsewhere ?_
      simpa using apart
  · intro front waiter back user split isWait earlier before writes
    obtain ⟨rfl, rfl, rfl⟩ : front = [] ∧ waiter = callback ∧ back = [] := by
      cases front with
      | nil => simpa [eq_comm] using split
      | cons first others => simp at split
    obtain ⟨rfl, rfl⟩ : state.user = user ∧ order = .wait := by simpa [found] using isWait
    obtain told | ⟨entry, held, _⟩ := sound.told_or_held before writes
    · simpa using told
    · rw [show state.queue state.user = [] from prompt] at held
      cases held

/-- A wait joins the last write of the queue. -/
theorem waits (sound : Sound verdicts executed state) {callback : Nat}
    {rest : List (Task User M)} {front : List (Entry M)} {last : Entry M}
    (next : state.tasks = .call callback .wait :: rest)
    (split : state.queue state.user = front ++ [last]) :
    Sound verdicts (executed + 1) { state with
      tasks := rest
      queue := Function.update state.queue state.user
        (front ++ [{ last with waiters := last.waiters ++ [callback] }]) } := by
  obtain ⟨rfl, short, remaining, found, attributed⟩ := sound.next next
  have booked := sound.booked state.user
  rw [split] at booked
  refine ⟨short, remaining, attributed,
    fun news told => (sound.heard news told).trans (Nat.lt_succ_self _),
    forall_update (booked.waits found) fun user apart => ?_, sound.heeded⟩
  exact (sound.booked user).passed (by simp [isBy_found found, apart.symm])

/-- Taking up the queue in use changes nothing. -/
theorem stays (sound : Sound verdicts executed state) {rest : List (Task User M)}
    (next : state.tasks = .change state.user :: rest) :
    Sound verdicts executed { state with tasks := rest } := by
  obtain ⟨remaining, attributed⟩ := sound.change next
  exact ⟨sound.ran, remaining, attributed, sound.heard, sound.booked, sound.heeded⟩

/-- Taking up another queue cancels who waits in the one that is left. -/
theorem changes (sound : Sound verdicts executed state) {user : User}
    {rest : List (Task User M)} {cancelled : List Nat}
    (next : state.tasks = .change user :: rest)
    (order : cancelled.Perm (waiting (state.queue state.user))) :
    Sound verdicts executed { state with
      user
      tasks := rest
      told := state.told ++ cancelled.map (fun callback => (callback, verdicts.cancelled))
      queue := Function.update state.queue state.user
        ((state.queue state.user).map Entry.release) } := by
  obtain ⟨remaining, attributed⟩ := sound.change next
  have known {callback : Nat} (member : callback ∈ cancelled) :
      callback < executed ∧ state.calls[callback]? = some ⟨state.user, .wait⟩ := by
    obtain ⟨entry, held, waits⟩ := List.mem_flatMap.mp (order.mem_iff.mp member)
    exact (sound.booked state.user).waited entry held callback waits
  refine ⟨sound.ran, remaining, attributed, fun news told => ?_,
    forall_update ((sound.booked _).cancels order _) fun other apart => ?_,
    sound.heeded.append ?_⟩
  · obtain before | added := List.mem_append.mp told
    · exact sound.heard news before
    · obtain ⟨callback, member, rfl⟩ := List.mem_map.mp added
      exact (known member).1
  · refine (sound.booked other).elsewhere fun callback member => ?_
    obtain ⟨_, isNews, rfl⟩ := List.mem_map.mp member
    obtain ⟨callback, isCancelled, rfl⟩ := List.mem_map.mp isNews
    simp [isBy_found (known isCancelled).2, apart.symm]
  · intro front waiter back owner split
    have member : (waiter, verdicts.done) ∈
        cancelled.map (fun callback => (callback, verdicts.cancelled)) := by simp [split]
    obtain ⟨_, _, same⟩ := List.mem_map.mp member
    exact absurd (Prod.mk.inj same).2 verdicts.apart

/-- The first entry is settled, whatever becomes of the stream. -/
theorem settles (sound : Sound verdicts executed state) {entry : Entry M}
    {rest : List (Entry M)} (first : state.queue state.user = entry :: rest) (status : Status)
    (stream answered : Nat) :
    Sound verdicts executed { state with
      queue := Function.update state.queue state.user rest
      told := state.told ++ entry.news verdicts status
      stream
      answered } := by
  have booked := sound.booked state.user
  rw [first] at booked
  have known {callback : Nat} (member : callback ∈ entry.callbacks) :
      callback < executed ∧ isBy state.calls state.user callback = true := by
    obtain own | waits := List.mem_append.mp member
    · obtain ⟨early, _, found⟩ := booked.written entry (by simp) callback (by simpa using own)
      exact ⟨early, by simp [isBy_found found]⟩
    · obtain ⟨early, found⟩ := booked.waited entry (by simp) callback waits
      exact ⟨early, by simp [isBy_found found]⟩
  refine ⟨sound.ran, sound.remaining, sound.attributed, fun news told => ?_,
    forall_update (booked.settles verdicts status) fun other apart => ?_, sound.heeded.append ?_⟩
  · obtain before | added := List.mem_append.mp told
    · exact sound.heard news before
    · refine (known ?_).1
      rw [← map_fst_news verdicts status]
      exact List.mem_map_of_mem added
  · refine (sound.booked other).elsewhere fun callback member => ?_
    rw [map_fst_news] at member
    exact isBy_other (known member).2 apart
  · intro front waiter back owner split found callback earlier writes
    have member : waiter ∈ entry.callbacks := by
      rw [← map_fst_news verdicts status, split]
      simp
    have same : state.user = owner := by
      have by_ := (known member).2
      simpa [isBy, found, eq_comm] using by_
    subst same
    have apart : entry.callback ≠ some waiter := by
      intro own
      have clash := (booked.written entry (by simp) waiter own).2.2.symm.trans found
      simp at clash
    have waits : waiter ∈ entry.waiters := by
      obtain own | waits := List.mem_append.mp member
      · exact absurd (by simpa using own) apart
      · exact waits
    obtain told | ⟨other, held, own⟩ :=
      sound.told_or_held (earlier.trans (known member).1) writes
    · rw [List.map_append]
      exact List.mem_append_left _ told
    rw [first] at held
    obtain rfl | later := List.mem_cons.mp held
    · -- the write's own callback is told before those that wait for it
      cases front with
      | nil =>
        rw [Entry.news, own] at split
        exact absurd (congrArg some (Prod.mk.inj (List.cons.inj split).1).1) (own ▸ apart)
      | cons told others =>
        rw [Entry.news, own] at split
        have before : (callback, status) = told := (List.cons.inj split).1
        simp [← before]
    · have after := (List.pairwise_cons.mp booked.hanging).1 other later waiter waits callback own
      omega

/-- Nothing is carried out at the start. -/
theorem starts (starts : Starts state) : Sound verdicts 0 state := by
  refine ⟨Nat.zero_le _, ?_, ?_, ?_, fun user => ⟨?_, ?_, ?_, ?_, ?_⟩, ?_⟩
  · rw [starts.tasks, starts.calls]
    rfl
  · rw [starts.tasks]
    exact starts.user.symm
  · rw [starts.told]
    exact nofun
  · intro entry member callback isCallback
    rw [(starts.restored user entry member).1] at isCallback
    cases isCallback
  · intro entry member callback waits
    rw [(starts.restored user entry member).2] at waits
    cases waits
  · have none : (state.queue user).filterMap Entry.callback = [] := by
      rw [List.filterMap_eq_nil_iff]
      exact fun entry member => (starts.restored user entry member).1
    rw [starts.told, none]
    rfl
  · have none : (state.queue user).flatMap Entry.callbacks = [] := by
      rw [List.flatMap_eq_nil_iff]
      intro entry member
      obtain ⟨own, waits⟩ := starts.restored user entry member
      simp [Entry.callbacks, own, waits]
    rw [starts.told, none]
    exact .refl _
  · refine List.pairwise_of_forall_mem_list fun entry member other _ waiter waits => ?_
    rw [(starts.restored user entry member).2] at waits
    cases waits
  · intro front waiter back user split
    rw [starts.told] at split
    simp at split

end Sound

end Outbox
