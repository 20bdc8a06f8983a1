import Mathlib.Algebra.Order.BigOperators.Group.List
import Mathlib.Algebra.Order.Ring.Nat
import Mathlib.Data.List.Perm.Basic
import Amigo.ClientSteps
import Amigo.Feeds

/-!
# The callbacks run dry

What a user starts is carried on by steps no user takes: the server answers a
read or fails it, a closure is delivered, an upload ends, a queued write is
committed or refused, the completion of a written post reloads every table ever
loaded, a timer's block reloads its own once more. A closure may ask further reads,
start an upload or issue writes, so it is not plain that this ends. It does. Each
pending read, upload and queued write is given the number of such steps it can still
cause, each at the number of tables loaded, and no step causes more than it was given.
However the steps of all devices interleave, each device therefore takes a bounded
number of them before its user acts or its timers fire again, and what stops is not
stuck half way: feeds in which none of these steps can be taken have nothing pending,
uploading, queued or due.

Showing a delivered list and making its cells may fall in between. They are not
counted: they start one reload for each flag still set and nothing else.
-/

namespace Amigo

universe u

/-- The steps of a client no user takes. -/
def Action.background : Action → Bool
  | .answer _ | .fail _ | .deliver _ | .uploaded _ _ _ _ | .uploadFailed _ | .commit _ | .reject => true
  | _ => false

/-- The steps a queued write can still cause. The commit of a post has a completion, in
which each of the tables calls `Model.getAllPosts`. -/
def Write.work (tables : Nat) : Write → Nat
  | .setData .posts _ _ => 2 + 8 * tables
  | _ => 1

/-- The steps delivering a read can still cause, its own left out. -/
def Callback.rest (tables : Nat) : Callback → Nat
  -- answer, delivery and rest of the deleter lookup and of the refresh
  | .fetchCities _ .merge => 4
  -- the commit of the delete
  | .fetchCities _ (.delete _) => 1
  | .fetchPosts _ .merge => 6
  | .fetchPosts _ (.delete _) => 3
  -- the commit of the announcement, and the fetch of the deletion
  | .confirmedDelete => 6
  -- the upload and its post
  | .editRead _ => 3 + 8 * tables
  | .deleterLookup _ | .refreshCity | .addCity _ | .addName _ _ | .editPrefill _ => 0

/-- The steps a pending read can still cause. -/
def Pending.work (tables : Nat) (pending : Pending) : Nat :=
  pending.callback.rest tables + if pending.answer = none then 2 else 1

namespace Client

/-- The background steps a client can still cause, while its app has this many tables. -/
def work (tables : Nat) (client : Client) : Nat :=
  (client.pending.map (Pending.work tables)).sum + (3 + 8 * tables) * client.uploads.length +
    (client.outbox.map (Write.work tables)).sum

/-- Nothing is asked, uploading or queued. -/
def Idle (client : Client) : Prop :=
  client.pending = [] ∧ client.uploads = [] ∧ client.outbox = []

/-- A client that has trapped has lost its reads and uploads. -/
def Emptied (client : Client) : Prop :=
  client.trap ≠ none → client.pending = [] ∧ client.uploads = []

/-- A sum over a list is at most its length times a common bound. -/
theorem sum_map_le {α : Type*} (cost : α → Nat) {bound : Nat} (each : ∀ item, cost item ≤ bound)
    (items : List α) : (items.map cost).sum ≤ bound * items.length := by
  have bounded := List.sum_le_card_nsmul (items.map cost) bound
    (List.forall_mem_map.mpr fun item _ => each item)
  simpa [Nat.mul_comm] using bounded

/-- A read causes at most eight steps and, for every table, eight. -/
theorem work_le (tables : Nat) (client : Client) :
    client.work tables ≤ (8 + 8 * tables) * client.pending.length +
      (3 + 8 * tables) * client.uploads.length + (2 + 8 * tables) * client.outbox.length := by
  have reads : (client.pending.map (Pending.work tables)).sum ≤
      (8 + 8 * tables) * client.pending.length := by
    apply sum_map_le
    rintro ⟨callback, answer⟩
    have rest : callback.rest tables ≤ 6 + 8 * tables := by
      unfold Callback.rest
      split <;> omega
    simp only [Pending.work]
    split <;> omega
  have writes : (client.outbox.map (Write.work tables)).sum ≤
      (2 + 8 * tables) * client.outbox.length := by
    apply sum_map_le
    intro write
    unfold Write.work
    split <;> omega
  simp only [work]
  omega

/-- Stopping loses reads and uploads, and the queue stays. -/
theorem work_crash (tables : Nat) (trap : Trap) (client : Client) :
    (client.crash trap).work tables ≤ client.work tables := by
  simp [work, crash]

/-- A read that is asked brings its answer, its delivery and its rest. -/
theorem work_ask (tables : Nat) (callback : Callback) (client : Client) :
    (client.ask callback).work tables = client.work tables + callback.rest tables + 2 := by
  simp only [work, ask, List.map_append, List.map_cons, List.map_nil, List.sum_append,
    List.sum_cons, List.sum_nil, Pending.work, ↓reduceIte]
  omega

/-- A queued write brings its own work. -/
theorem work_enqueue (tables : Nat) (write : Write) (client : Client) :
    (client.enqueue write).work tables = client.work tables + write.work tables := by
  simp only [work, enqueue, List.map_append, List.map_cons, List.map_nil, List.sum_append,
    List.sum_cons, List.sum_nil]
  omega

/-- With fewer tables everything causes less. -/
theorem work_mono (client : Client) {fewer tables : Nat} (less : fewer ≤ tables) :
    client.work fewer ≤ client.work tables := by
  have reads : (client.pending.map (Pending.work fewer)).sum ≤
      (client.pending.map (Pending.work tables)).sum := by
    apply List.sum_le_sum
    rintro ⟨callback, answer⟩ _
    have rest : callback.rest fewer ≤ callback.rest tables := by
      unfold Callback.rest
      split <;> omega
    exact Nat.add_le_add_right rest _
  have uploads : (3 + 8 * fewer) * client.uploads.length ≤ (3 + 8 * tables) * client.uploads.length :=
    Nat.mul_le_mul_right _ (by omega)
  have writes : (client.outbox.map (Write.work fewer)).sum ≤
      (client.outbox.map (Write.work tables)).sum := by
    apply List.sum_le_sum
    intro write _
    unfold Write.work
    split <;> omega
  simp only [work]
  omega

/-- Each call of `Model.getAllPosts` brings eight steps. -/
theorem work_getAllPosts (tables calls : Nat) (client : Client) :
    (Client.getAllPosts^[calls] client).work tables = client.work tables + 8 * calls := by
  induction calls generalizing client with
  | zero => rfl
  | succ calls inductionHypothesis =>
    rw [Function.iterate_succ_apply, inductionHypothesis, getAllPosts, work_ask]
    simp only [Callback.rest]
    omega

/-- Taking a read out takes its work out. -/
theorem sum_eraseIdx (tables : Nat) {pending : List Pending} {index : Nat} {item : Pending}
    (found : pending[index]? = some item) :
    item.work tables + ((pending.eraseIdx index).map (Pending.work tables)).sum =
      (pending.map (Pending.work tables)).sum := by
  obtain ⟨inside, rfl⟩ := List.getElem?_eq_some_iff.mp found
  exact ((List.getElem_cons_eraseIdx_perm inside).map (Pending.work tables)).sum_nat

/-- Replacing a read replaces its work. -/
theorem sum_set (tables : Nat) {pending : List Pending} {index : Nat} {item : Pending}
    (other : Pending) (found : pending[index]? = some item) :
    item.work tables + ((pending.set index other).map (Pending.work tables)).sum =
      other.work tables + (pending.map (Pending.work tables)).sum := by
  obtain ⟨inside, rfl⟩ := List.getElem?_eq_some_iff.mp found
  have replaced :=
    ((List.set_perm_cons_eraseIdx inside other).map (Pending.work tables)).sum_nat
  have whole := sum_eraseIdx tables found
  simp only [List.map_cons, List.sum_cons] at replaced
  omega

/-- Taking an upload out takes its work out. -/
theorem mul_eraseIdx (cost : Nat) {index : Nat} {uploads : List Upload} (inside : index < uploads.length) :
    cost * (uploads.eraseIdx index).length + cost = cost * uploads.length := by
  rw [List.length_eraseIdx_of_lt inside, ← Nat.mul_succ, Nat.succ_eq_add_one,
    Nat.sub_add_cancel (Nat.zero_lt_of_lt inside)]

/-- A merge asks at most two lookups. -/
theorem work_merge (tables : Nat) (platform : Platform) (data : List Post) (client : Client) :
    (client.merge platform data).work tables ≤ client.work tables + 4 := by
  have asked : (client.merging data).work tables ≤ client.work tables + 4 := by
    cases data <;> simp [work, merging, mergeReads, Pending.work, Callback.rest] <;> omega
  obtain ⟨_, result⟩ | ⟨finalData, _, result⟩ := merge_form platform data client
  · exact result ▸ (work_crash tables _ _).trans asked
  · exact result ▸ asked

/-- The loops that only bring fields up to date start nothing. -/
theorem work_touches (tables : Nat) {client after : Client}
    (touches : Relation.ReflTransGen Touch client after) : after.work tables ≤ client.work tables := by
  obtain ⟨rows, city, adds, _, rfl | ⟨trap, rfl⟩⟩ := touches_form touches
  · exact Nat.le_refl _
  · exact work_crash tables trap _

/-- A delivered closure starts no more than its read was given. -/
theorem Answers.work (tables : Nat) {platform : Platform} {client after : Client}
    {callback : Callback} {answer : Answer}
    (answers : Answers platform client callback answer after) :
    after.work tables ≤ client.work tables + callback.rest tables := by
  cases answers with
  | silent => exact Nat.le_add_right _ _
  | stops trap => exact (work_crash tables trap client).trans (Nat.le_add_right _ _)
  | refreshes loop =>
    exact (work_touches tables (touches_answered platform loop answer client)).trans
      (Nat.le_add_right _ _)
  | fetched since next documents asked =>
    subst asked
    rw [work_ask]
    cases next <;> simp only [Callback.rest] <;> omega
  | uncast => exact (work_crash tables .postField _).trans (Nat.le_add_right _ _)
  | merged snapshot data asked =>
    subst asked
    exact work_merge tables platform data _
  | missed => exact Nat.le_add_right _ _
  | removed snapshot postIds data asked =>
    subst asked
    exact (work_enqueue tables _ _).le
  | announced documents document postIds asked =>
    subst asked
    rw [deleteAPosts, work_ask, work_enqueue]
    simp only [Callback.rest, Write.work]
    omega
  | edited screen view documents document title userName asked =>
    subst asked
    simp only [Client.work, Callback.rest, List.length_append, List.length_singleton, Nat.mul_add]
    omega

/-- The end of an upload issues at most its post. -/
theorem Finishes.work (tables : Nat) {url : String} {client after : Client} {upload : Upload}
    (finishes : Finishes url client upload after) :
    after.work tables ≤ client.work tables + (2 + 8 * tables) := by
  cases finishes with
  | silent => exact Nat.le_add_right _ _
  | unfilled trap => exact (work_crash tables trap client).trans (Nat.le_add_right _ _)
  | signedOut => exact (work_crash tables .currentUser client).trans (Nat.le_add_right _ _)
  | posts => exact (work_enqueue tables _ _).le

/-- Each background step costs its client at least one, and the commit of a post what its
completion causes as well. -/
theorem work_background (tables : Nat) {platform : Platform} {cloud : Cloud} {client after : Client}
    {action : Action} (background : action.background = true)
    (acted : client.act platform cloud action = some after) :
    after.work tables + 1 + (if commitsPost client action then 1 + 8 * tables else 0) ≤
      client.work tables := by
  cases act_acts acted with
  | uploaded index url placeText recText upload running =>
    obtain ⟨inside, _⟩ := List.getElem?_eq_some_iff.mp running
    have finished := (uploaded_finishes url placeText recText
      { client with uploads := client.uploads.eraseIdx index } upload).work tables
    have removed := mul_eraseIdx (3 + 8 * tables) inside
    simp only [work, commitsPost, Bool.false_eq_true, ↓reduceIte] at finished ⊢
    omega
  | uploadFailed index =>
    obtain ⟨inside, _⟩ := Option.ite_none_right_eq_some.mp
      (Option.ite_none_right_eq_some.mp acted).2
    have removed := mul_eraseIdx (3 + 8 * tables) inside
    simp only [work, commitsPost, Bool.false_eq_true, ↓reduceIte]
    omega
  | answer index callback waiting =>
    have replaced := sum_set tables
      ⟨callback, some (.snapshot (callback.read (client.localView cloud)))⟩ waiting
    simp only [work, Pending.work, commitsPost, Bool.false_eq_true, ↓reduceIte, reduceCtorEq]
      at replaced ⊢
    omega
  | fail index callback waiting =>
    have replaced := sum_set tables ⟨callback, some .failed⟩ waiting
    simp only [work, Pending.work, commitsPost, Bool.false_eq_true, ↓reduceIte, reduceCtorEq]
      at replaced ⊢
    omega
  | deliver index callback answer ready =>
    have removed := sum_eraseIdx tables ready
    have delivered := (answered_answers platform
      { client with pending := client.pending.eraseIdx index } callback answer).work tables
    simp only [work, Pending.work, commitsPost, Bool.false_eq_true, reduceCtorEq, ↓reduceIte]
      at removed delivered ⊢
    omega
  | commit time write rest queued =>
    have settled : (client.settle rest).work tables + write.work tables = client.work tables := by
      simp only [work, queued, List.map_cons, List.sum_cons, settle_pending, settle_uploads,
        settle_outbox]
      omega
    have cost : 1 + (if commitsPost client (.commit time) then 1 + 8 * tables else 0) ≤
        write.work tables := by
      simp only [commitsPost, queued]
      unfold Write.work
      cases write with
      | setData collection =>
        cases collection with
        | posts =>
          simp only [↓reduceIte]
          omega
        | users | cities | deleter => simp
      | delete => simp
    omega
  | reject write rest queued =>
    have cost : 1 ≤ write.work tables := by
      unfold Write.work
      split <;> omega
    simp only [work, commitsPost, queued, List.map_cons, List.sum_cons, settle_pending,
      settle_uploads, settle_outbox, Bool.false_eq_true, ↓reduceIte]
    omega
  | _ => simp [Action.background] at background

/-- The app did not trap between these two states, or it lost its reads and uploads. -/
def RunsOn (before after : Client) : Prop :=
  after.trap = before.trap ∨ (after.pending = [] ∧ after.uploads = [])

/-- A stopped app is emptied. -/
theorem runsOn_crash (before : Client) (trap : Trap) (client : Client) :
    RunsOn before (client.crash trap) := Or.inr ⟨rfl, rfl⟩

/-- A delivered closure stops no app without emptying it. -/
theorem Answers.runsOn {platform : Platform} {client after : Client} {callback : Callback}
    {answer : Answer} (answers : Answers platform client callback answer after) :
    RunsOn client after := by
  cases answers with
  | stops trap => exact runsOn_crash client trap client
  | refreshes loop =>
    obtain ⟨rows, city, adds, _, same | ⟨trap, stopped⟩⟩ :=
      touches_form (touches_answered platform loop answer client)
    · exact Or.inl (same ▸ rfl)
    · exact stopped ▸ runsOn_crash client trap _
  | uncast => exact runsOn_crash client .postField _
  | merged snapshot data =>
    obtain ⟨_, result⟩ | ⟨finalData, _, result⟩ := merge_form platform data
      { client with firebaseCity := client.cityRead answer }
    · exact result ▸ runsOn_crash client .nullColumn _
    · exact Or.inl (result ▸ rfl)
  | silent | fetched | missed | removed | announced | edited => exact Or.inl rfl

/-- Nor does opening a post. -/
theorem Reloads.runsOn {client after : Client} (reloads : Reloads client after) :
    RunsOn client after := by
  cases reloads with
  | closed => exact runsOn_crash client .noPost client
  | signedOut info => exact runsOn_crash client .currentUser _
  | shown => exact Or.inl rfl

/-- Nor does the end of an upload. -/
theorem Finishes.runsOn {url : String} {client after : Client} {upload : Upload}
    (finishes : Finishes url client upload after) : RunsOn client after := by
  cases finishes with
  | unfilled trap => exact runsOn_crash client trap client
  | signedOut => exact runsOn_crash client .currentUser client
  | silent | posts => exact Or.inl rfl

/-- The steps of a running app leave it running or emptied. -/
theorem perform_emptied {platform : Platform} {cloud : Cloud} {client after : Client} {action : Action}
    (running : client.trap = none) (performed : client.perform platform cloud action = some after) :
    after.Emptied := by
  have runsOn : RunsOn client after := by
    cases perform_acts performed with
    | didSelectRowAt post => exact (reloadPost_reloads _).runsOn
    | infoAppears => exact (reloadPost_reloads client).runsOn
    | uploaded index url placeText recText upload =>
      exact (uploaded_finishes url placeText recText _ upload).runsOn
    | deliver index callback answer => exact (answered_answers platform _ callback answer).runsOn
    | relaunch => exact Or.inr ⟨rfl, rfl⟩
    | _ => exact Or.inl rfl
  intro trapped
  obtain same | emptied := runsOn
  · exact absurd (same.trans running) trapped
  · exact emptied

/-- Every step keeps a stopped client emptied. -/
theorem Emptied.act {platform : Platform} {cloud : Cloud} {client after : Client} {action : Action}
    (emptied : client.Emptied) (acted : client.act platform cloud action = some after) :
    after.Emptied := by
  unfold Client.act at acted
  split at acted
  · cases Option.some.inj acted
    exact fun trapped => absurd rfl trapped
  · split at acted
    · simp at acted
    · cases Option.some.inj acted
      exact emptied
  · split at acted
    · simp at acted
    · cases Option.some.inj acted
      exact emptied
  · obtain ⟨running, performed⟩ := Option.ite_none_right_eq_some.mp acted
    exact perform_emptied running performed

/-- A client that is not idle has a background step to take. -/
theorem act_of_busy (platform : Platform) (cloud : Cloud) {client : Client} (emptied : client.Emptied)
    (busy : ¬ client.Idle) :
    ∃ action, action.background = true ∧ (client.act platform cloud action).isSome = true := by
  cases queued : client.outbox with
  | cons write rest => exact ⟨.reject, rfl, by simp [Client.act, queued]⟩
  | nil =>
    have running : client.trap = none := by
      by_contra trapped
      obtain ⟨pending, uploads⟩ := emptied trapped
      exact busy ⟨pending, uploads, queued⟩
    cases asked : client.pending with
    | cons pending others =>
      obtain ⟨callback, answer⟩ := pending
      cases answer with
      | none => exact ⟨.fail 0, rfl, by simp [Client.act, running, perform, receive, asked]⟩
      | some answer => exact ⟨.deliver 0, rfl, by simp [Client.act, running, perform, asked]⟩
    | nil =>
      cases started : client.uploads with
      | cons upload others =>
        exact ⟨.uploadFailed 0, rfl, by simp [Client.act, running, perform, started]⟩
      | nil => exact absurd ⟨asked, started, queued⟩ busy

/-- An idle client has none. -/
theorem Idle.stuck {platform : Platform} {cloud : Cloud} {client : Client} (idle : client.Idle)
    {action : Action} (background : action.background = true) :
    client.act platform cloud action = none := by
  by_contra acts
  obtain ⟨after, acted⟩ := Option.ne_none_iff_exists'.mp acts
  have cost := work_background 0 background acted
  obtain ⟨pending, uploads, outbox⟩ := idle
  simp [work, pending, uploads, outbox] at cost

end Client

namespace World

variable {ι : Type u} [DecidableEq ι]

/-- A client of a reachable world that has trapped is emptied. -/
theorem Reachable.emptied {platform : Platform} {world : World ι} (reachable : world.Reachable platform)
    (client : ι) : (world.clients client).Emptied := by
  refine reachable.invariant (fun world => ∀ client, (world.clients client).Emptied)
    (fun client trapped => absurd rfl trapped) ?_ client
  intro before event next emptied stepped client
  obtain same | ⟨_, acted⟩ := client_after stepped client
  · exact same ▸ emptied client
  · exact (emptied client).act acted

/-- A background event is accepted exactly when its client accepts it. -/
theorem step_background {platform : Platform} {world : World ι} {client : ι} {action : Action}
    (isBackground : action.background = true) :
    world.step platform (client, action) = none ↔
      (world.clients client).act platform world.cloud action = none := by
  have isFresh : world.fresh action = true := by
    cases action <;> simp_all [Action.background, fresh, generates]
  simp [step, isFresh]

end World

/-- The steps of a screen no user takes and no clock: a block of the main queue. -/
def ScreenEvent.background : ScreenEvent → Bool
  | .mainQueue _ => true
  | _ => false

/-- Making a cell and showing a delivered list. -/
def ScreenEvent.renders : ScreenEvent → Bool
  | .cellForRowAt _ _ | .completed _ _ => true
  | _ => false

namespace TableScreens

/-- The reloads the screens still start on their own: one for each block of the main
queue, and one for each flag. -/
def due (screens : TableScreens) : Nat := screens.mainQueue.length + screens.flagsSet

/-- An observer of RefreshDataEvent spends a flag on each reload it starts. -/
theorem refreshed_due (screens : TableScreens) (index : Nat) :
    (screens.refreshed index).mainQueue = screens.mainQueue ∧
      ∃ reloads, (screens.refreshed index).started.length = screens.started.length + reloads ∧
        (screens.refreshed index).flagsSet + reloads = screens.flagsSet := by
  obtain same | ⟨controller, loaded, isSet, result⟩ := refreshed_cases screens index
  · rw [same]
    exact ⟨rfl, 0, rfl, rfl⟩
  · rw [result]
    exact ⟨rfl, 1, List.length_append, clear_flagsSet loaded isSet⟩

/-- So do all of them. -/
theorem post_due (screens : TableScreens) :
    (screens.post RefreshDataEvent refreshed).mainQueue = screens.mainQueue ∧
      ∃ reloads, (screens.post RefreshDataEvent refreshed).started.length =
          screens.started.length + reloads ∧
        (screens.post RefreshDataEvent refreshed).flagsSet + reloads = screens.flagsSet := by
  rw [post]
  generalize (screens.observers.filter _).map Observer.controller = observing
  induction observing generalizing screens with
  | nil => exact ⟨rfl, 0, rfl, rfl⟩
  | cons index rest inductionHypothesis =>
    obtain ⟨sameQueue, first, started, flags⟩ := refreshed_due screens index
    obtain ⟨queue, others, later, left⟩ := inductionHypothesis (screens.refreshed index)
    refine ⟨queue.trans sameQueue, first + others, ?_, ?_⟩
    · exact later.trans (started ▸ Nat.add_assoc _ _ _)
    · rw [List.foldl_cons]
      omega

/-- A screen that goes on by itself spends what is due on the reloads it starts, and a
block of the main queue as well. -/
theorem step_due {screens after : TableScreens} {event : ScreenEvent}
    (itself : event.background = true ∨ event.renders = true)
    (stepped : screens.step event = some after) :
    after.controllers.length = screens.controllers.length ∧
      after.mainQueue.length + (if event.background then 1 else 0) = screens.mainQueue.length ∧
      ∃ reloads, after.started.length = screens.started.length + reloads ∧
        after.due + reloads = screens.due := by
  cases event with
  | mainQueue block =>
    obtain ⟨index, waiting, rfl⟩ := Option.map_eq_some_iff.mp stepped
    obtain ⟨inside, _⟩ := List.getElem?_eq_some_iff.mp waiting
    have fewer : (screens.mainQueue.eraseIdx block).length + 1 = screens.mainQueue.length :=
      List.length_eraseIdx_add_one inside
    refine ⟨rfl, fewer, 1, List.length_append, ?_⟩
    simp only [due, reloadData, flagsSet]
    omega
  | cellForRowAt index row =>
    obtain ⟨controller, loaded, rendered⟩ := Option.bind_eq_some_iff.mp stepped
    obtain ⟨_, result⟩ := Option.ite_none_right_eq_some.mp rendered
    cases Option.some.inj result
    let asked := screens.setController index { controller with cellsDue := controller.cellsDue - 1 }
    have flags : asked.flagsSet = screens.flagsSet := setController_flagsSet loaded rfl
    have length : asked.controllers.length = screens.controllers.length := setController_length _ _ _
    have registries := post_registries refreshed_registries RefreshDataEvent asked
    obtain ⟨queue, reloads, started, left⟩ := post_due asked
    refine ⟨?_, congrArg List.length queue, reloads, started, ?_⟩
    · exact (congrArg (fun kept => kept.2.2) registries).trans length
    · rw [due, due, queue, ← flags, ← left, Nat.add_assoc]
      rfl
  | completed reload delivered =>
    obtain ⟨index, _, completes⟩ := Option.bind_eq_some_iff.mp stepped
    obtain ⟨controller, loaded, rfl⟩ := Option.map_eq_some_iff.mp completes
    cases delivered with
    | none => exact ⟨rfl, rfl, 0, rfl, rfl⟩
    | some data =>
      let done : TableScreens := { screens with underway := screens.underway.eraseIdx reload }
      have isLoaded : done.controllers[index]? = some controller := loaded
      have flags : (done.setController index
          { controller with data, cellsDue := data.length }).flagsSet = screens.flagsSet :=
        setController_flagsSet isLoaded rfl
      exact ⟨setController_length _ _ done, rfl, 0, rfl, congrArg (screens.mainQueue.length + ·) flags⟩
  | _ => simp [ScreenEvent.background, ScreenEvent.renders] at itself

/-- PostDataEvent reloads every table ever loaded, and leaves what is due. -/
theorem postData_due {screens : TableScreens} (registered : screens.Registered) :
    (screens.post PostDataEvent reloaded).controllers = screens.controllers ∧
      (screens.post PostDataEvent reloaded).mainQueue = screens.mainQueue ∧
      (screens.post PostDataEvent reloaded).started.length =
        screens.started.length + screens.controllers.length := by
  have reloads (indexes : List Nat) (current : TableScreens) :
      (indexes.foldl reloaded current).controllers = current.controllers ∧
        (indexes.foldl reloaded current).mainQueue = current.mainQueue := by
    induction indexes generalizing current with
    | nil => exact ⟨rfl, rfl⟩
    | cons index rest inductionHypothesis => exact inductionHypothesis (current.reloaded index)
  obtain ⟨controllers, queue⟩ := reloads (screens.observing PostDataEvent) screens
  have started := started_reloads (screens.observing PostDataEvent) screens
  refine ⟨controllers, queue, ?_⟩
  change ((screens.observing PostDataEvent).foldl reloaded screens).started.length = _
  rw [started, registered.post, List.length_append, List.length_map, List.length_range]

end TableScreens

/-- The steps of a device no user takes and no clock. -/
def FeedEvent.background : FeedEvent → Bool
  | .app action => action.background
  | .screen event => event.background
  | .completion => true

/-- Making a cell and showing a delivered list. -/
def FeedEvent.renders : FeedEvent → Bool
  | .screen event => event.renders
  | _ => false

/-- The table controllers this app has loaded. -/
def Tables.loaded (tables : Tables) : Nat := tables.screens.controllers.length

/-- The background steps the tables of an app can still cause: a completion reloads each
of them, and a reload is eight steps. -/
def Tables.work (tables : Tables) : Nat :=
  (1 + 8 * tables.loaded) * tables.completions + 8 * tables.screens.due +
    tables.screens.mainQueue.length

namespace Feeds

open GuardedRuns

variable {ι : Type u} [DecidableEq ι]

/-- The background steps a device can still take. -/
def work (feeds : Feeds ι) (client : ι) : Nat :=
  (feeds.world.clients client).work (feeds.tables client).loaded + (feeds.tables client).work

/-- The guard that admits the steps no user and no clock takes. -/
def unattended : Feeds ι → ι × FeedEvent → Prop :=
  fun _ event => event.2.background = true ∨ event.2.renders = true

instance (feeds : Feeds ι) (event : ι × FeedEvent) : Decidable (unattended feeds event) :=
  inferInstanceAs (Decidable (event.2.background = true ∨ event.2.renders = true))

/-- Nothing is asked, uploading, queued or due at any device. -/
def Quiescent (feeds : Feeds ι) : Prop :=
  feeds.world.Quiescent ∧ ∀ client, (feeds.tables client).completions = 0 ∧
    (feeds.tables client).screens.mainQueue = []

/-- What an action of the app leaves to its tables is paid for by the commit. -/
theorem work_app {platform : Platform} {cloud : Cloud} {before after : Client} {action : Action}
    (tables : Tables) (isBackground : action.background = true)
    (acted : before.act platform cloud action = some after) :
    after.work (tables.after before after action).loaded + (tables.after before after action).work + 1 ≤
      before.work tables.loaded + tables.work := by
  have spent := Client.work_background tables.loaded isBackground acted
  rw [Tables.after]
  split
  · have completes : (if tables.completes before action then 1 + 8 * tables.loaded else 0) ≤
        if before.commitsPost action then 1 + 8 * tables.loaded else 0 := by
      unfold Tables.completes
      cases before.commitsPost action <;> simp
      split <;> omega
    have one : (1 + 8 * tables.loaded) *
          (tables.completions + if tables.completes before action then 1 else 0) =
        (1 + 8 * tables.loaded) * tables.completions +
          if tables.completes before action then 1 + 8 * tables.loaded else 0 := by
      split <;> simp [Nat.mul_add]
    simp only [Tables.work, Tables.loaded] at one completes spent ⊢
    rw [one]
    omega
  · have fewer := after.work_mono (Nat.zero_le tables.loaded)
    have nothing : ({} : Tables).work = 0 := rfl
    have none : ({} : Tables).loaded = 0 := rfl
    rw [nothing, none]
    omega

/-- Each background step costs its device at least one. -/
theorem Moves.work {platform : Platform} {feeds next : Feeds ι} {client : ι} {event : FeedEvent}
    (registered : (feeds.tables client).screens.Registered)
    (itself : event.background = true ∨ event.renders = true)
    (moves : Moves platform feeds client event next) :
    next.work client + (if event.background then 1 else 0) ≤ feeds.work client := by
  cases moves with
  | app action world other stepped =>
    have isBackground : action.background = true := itself.resolve_right Bool.false_ne_true
    have spent := work_app (feeds.tables client) isBackground (World.step_act stepped)
    simpa [Feeds.work, FeedEvent.background, isBackground] using spent
  | screen event screens running admitted stepped =>
    obtain ⟨loaded, queue, reloads, started, spent⟩ := TableScreens.step_due itself stepped
    change _ + (if event.background then 1 else 0) ≤ _
    simp only [Feeds.work, called, Function.update_self, Client.work_getAllPosts, Tables.work,
      Tables.loaded, loaded]
    omega
  | completion screens running due posted =>
    obtain ⟨controllers, queue, started⟩ := TableScreens.postData_due registered
    rw [← posted] at controllers queue started
    obtain ⟨others, more⟩ := Nat.exists_eq_succ_of_ne_zero due.ne'
    have flags : screens.due = (feeds.tables client).screens.due := by
      rw [TableScreens.due, TableScreens.flagsSet, queue, controllers]
      rfl
    simp only [Feeds.work, called, Function.update_self, Client.work_getAllPosts, Tables.work,
      Tables.loaded, FeedEvent.background, controllers, queue, started, flags, more,
      Nat.succ_sub_one, Nat.mul_succ, ↓reduceIte]
    omega

/-- A step that goes on by itself costs its device what it takes, and the others nothing. -/
theorem step_work {platform : Platform} {feeds next : Feeds ι} {event : ι × FeedEvent}
    (reachable : feeds.Reachable platform) (itself : unattended feeds event)
    (stepped : feeds.step platform event = some next) (client : ι) :
    next.work client + (if event.2.background && decide (event.1 = client) then 1 else 0) ≤
      feeds.work client := by
  have moves := step_moves stepped
  by_cases same : client = event.1
  · subst same
    simpa using moves.work (reachable.registered event.1) itself
  · obtain ⟨sameClient, sameTables⟩ := moves.other same
    have kept : next.work client = feeds.work client := by
      rw [Feeds.work, Feeds.work, sameClient, sameTables]
    simp [kept, Ne.symm same]

/-- Reachable feeds in which no background step can be taken have nothing left. -/
theorem Reachable.quiescent_of_stuck {platform : Platform} {feeds : Feeds ι}
    (reachable : feeds.Reachable platform)
    (stuck : ∀ event : ι × FeedEvent, event.2.background = true → feeds.step platform event = none) :
    feeds.Quiescent := by
  have idle (client : ι) : (feeds.world.clients client).Idle := by
    by_contra busy
    obtain ⟨action, isBackground, acts⟩ :=
      Client.act_of_busy platform feeds.world.cloud (reachable.world.emptied client) busy
    have other : action ≠ .getAllPosts := by
      rintro rfl
      exact Bool.false_ne_true isBackground
    have refused := stuck (client, .app action) isBackground
    simp only [step, other, ↓reduceIte, Option.map_eq_none_iff] at refused
    simp [(World.step_background isBackground).mp refused] at acts
  have running (client : ι) (some : feeds.tables client ≠ {}) :
      (feeds.world.clients client).trap = none :=
    by_contra fun trapped => some (reachable.stopped client trapped)
  refine ⟨idle, fun client => ⟨?_, ?_⟩⟩
  · by_contra due
    have runs := running client (fun none => due (none ▸ rfl))
    have refused := stuck (client, .completion) rfl
    simp [step, runs, Nat.pos_of_ne_zero due, change_eq platform _ runs] at refused
  · by_contra waiting
    have runs := running client (fun none => waiting (none ▸ rfl))
    have refused := stuck (client, .screen (.mainQueue 0)) rfl
    obtain ⟨index, found⟩ : ∃ index, (feeds.tables client).screens.mainQueue[0]? = some index :=
      ⟨_, List.getElem?_eq_getElem (List.length_pos_iff.mpr waiting)⟩
    simp [step, runs, Tables.admits, TableScreens.step, found, change_eq platform _ runs] at refused

/-- Where nothing is left none can be taken. -/
theorem Quiescent.stuck {platform : Platform} {feeds : Feeds ι} (quiescent : feeds.Quiescent)
    {event : ι × FeedEvent} (isBackground : event.2.background = true) :
    feeds.step platform event = none := by
  obtain ⟨client, event⟩ := event
  obtain ⟨completions, queue⟩ := quiescent.2 client
  cases event with
  | app action =>
    have idle : (feeds.world.clients client).act platform feeds.world.cloud action = none :=
      Client.Idle.stuck (quiescent.1 client) isBackground
    have refused : feeds.world.step platform (client, action) = none :=
      (World.step_background isBackground).mpr idle
    simp [step, refused]
  | screen event =>
    cases event with
    | mainQueue block => simp [step, TableScreens.step, queue]
    | _ => exact absurd isBackground Bool.false_ne_true
  | completion => simp [step, completions]

/-- The actions of the apps, as steps of their devices. -/
def ofApps (events : List (Event ι)) : List (ι × FeedEvent) :=
  events.map fun event => (event.1, .app event.2)

/-- A post goes from its upload to the loaded table: it is committed, its completion
reloads the table, which shows it, makes a cell and reloads once more. -/
def publication : List (Bool × FeedEvent) :=
  ofApps [(false, .uploaded 0 "url" "place" "text"), (false, .commit ⟨3, 0⟩)] ++
    (false, .completion) :: ofApps (World.settle false 8) ++
    [(false, .screen (.completed 1
      (some [World.debutPost { id := "uid", fullname := "Ann" } "Haifa" "abcdefghij0123456789"]))),
      (false, .screen (.cellForRowAt 0 0))] ++
    ofApps (World.settle false 4)

end Feeds

end Amigo
