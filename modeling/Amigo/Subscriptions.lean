import Mathlib.Algebra.GroupWithZero.Nat
import Mathlib.Data.Prod.Lex
import Amigo.GuardedRuns
import Amigo.Posts

/-!
# The table screens and what they subscribe to

Every visit to the feed loads a new table controller. Its view registers two observers
with the notification centre and a repeating timer with the run loop, all of which hold
the controller and call its reload. Nothing in the app removes an observer or stops a
timer, so a closed controller keeps answering events.

Making a cell posts RefreshDataEvent at once, to the observers of all controllers ever
loaded; each reloads once, guarded by its flag. The reloads started by that event and
the flags still set always add up to the controllers loaded. Rendering and the delivery
of reloads lower a rank of three parts, the flags set first, then the reloads underway,
then the cells a table still has to ask for, so they cannot drive each other for ever.

A completion may bring any list or none, in any order. A table asks for at most one
cell for each row after new data, and for any number more when the user scrolls; a
closed table may still ask.
-/

namespace Amigo

/-- Why a reload was started. -/
inductive ReloadCause where
  | viewDidLoad
  | viewWillAppear
  | refreshControl
  | timer
  | refreshDataEvent
  | postDataEvent
deriving DecidableEq

/-- The observers of `EventNotificationBase`, by the name of their event. -/
structure Observer where
  eventName : String
  controller : Nat
deriving DecidableEq

/-- `ModelEvents.PostDataEvent`. -/
def PostDataEvent : String := "com.Amigo.PostDataEvent"

/-- `ModelEvents.RefreshDataEvent`. -/
def RefreshDataEvent : String := "com.Amigo.RefreshDataEvent"

/-- A `TablePostTableViewController` whose view is loaded. -/
structure TableController where
  flag : Bool := true
  data : List Post := []
  /-- The cells its table has yet to ask for. -/
  cellsDue : Nat := 0
  isOpen : Bool := true
deriving DecidableEq

/-- All controllers ever loaded, the first one first, with what outlives them. -/
structure TableScreens where
  controllers : List TableController := []
  observers : List Observer := []
  /-- The timers of the run loop, by the controller their block holds. -/
  timers : List Nat := []
  /-- The blocks on the main queue. -/
  mainQueue : List Nat := []
  /-- The calls of `Model.getAllPosts` not completed. -/
  underway : List Nat := []
  /-- Every reload ever started. -/
  started : List (ReloadCause × Nat) := []
deriving DecidableEq

/-- What may happen to the screens. -/
inductive ScreenEvent where
  | viewDidLoad
  | close (controller : Nat)
  | viewWillAppear (controller : Nat)
  | refreshControl (controller : Nat)
  | timerFired (timer : Nat)
  | mainQueue (block : Nat)
  /-- The completion of a reload, with what it is given. -/
  | completed (reload : Nat) (data : Option (List Post))
  | scroll (controller : Nat) (cells : Nat)
  | cellForRowAt (controller : Nat) (row : Nat)
  /-- A post was written or deleted. -/
  | postDataEvent

namespace TableScreens

/-- `reloadData`: one more call of `Model.getAllPosts` is underway. -/
def reloadData (cause : ReloadCause) (controller : Nat) (screens : TableScreens) : TableScreens :=
  { screens with
    underway := screens.underway ++ [controller]
    started := screens.started ++ [(cause, controller)] }

/-- One controller changes. -/
def setController (index : Nat) (controller : TableController) (screens : TableScreens) :
    TableScreens :=
  { screens with controllers := screens.controllers.set index controller }

/-- `EventNotificationBase.observe`. -/
def observe (eventName : String) (controller : Nat) (screens : TableScreens) : TableScreens :=
  { screens with observers := screens.observers ++ [⟨eventName, controller⟩] }

/-- The callback registered for RefreshDataEvent. -/
def refreshed (screens : TableScreens) (index : Nat) : TableScreens :=
  match screens.controllers[index]? with
  | none => screens
  | some controller =>
    if controller.flag then
      (screens.reloadData .refreshDataEvent index).setController index { controller with flag := false }
    else screens

/-- The callback registered for PostDataEvent. -/
def reloaded (screens : TableScreens) (index : Nat) : TableScreens :=
  screens.reloadData .postDataEvent index

/-- `EventNotificationBase.post`: the callbacks run in the order of registration. -/
def post (eventName : String) (callback : TableScreens → Nat → TableScreens)
    (screens : TableScreens) : TableScreens :=
  ((screens.observers.filter (fun observer => observer.eventName = eventName)).map
    Observer.controller).foldl callback screens

/-- `runTimer`. The table it reloads has no rows yet, so no cell is due. -/
def runTimer (controller : Nat) (screens : TableScreens) : TableScreens :=
  { screens with timers := screens.timers ++ [controller] }

/-- `viewDidLoad` of a new controller. -/
def viewDidLoad (screens : TableScreens) : TableScreens :=
  let index := screens.controllers.length
  let loaded := { screens with controllers := screens.controllers ++ [({} : TableController)] }
  (((loaded.observe RefreshDataEvent index).observe PostDataEvent index).reloadData
    .viewDidLoad index).runTimer index

/-- A controller while its screen is open. -/
def openController (screens : TableScreens) (index : Nat) : Option TableController :=
  (screens.controllers[index]?).filter TableController.isOpen

/-- One step of the screens. -/
def step (screens : TableScreens) : ScreenEvent → Option TableScreens
  | .viewDidLoad => some screens.viewDidLoad
  | .close index => (screens.openController index).map fun controller =>
    screens.setController index { controller with isOpen := false }
  | .viewWillAppear index => (screens.openController index).map fun _ =>
    screens.reloadData .viewWillAppear index
  | .refreshControl index => (screens.openController index).map fun _ =>
    screens.reloadData .refreshControl index
  | .timerFired timer => (screens.timers[timer]?).map fun index =>
    -- the block reloads, and reloads again from the main queue
    let reloading := screens.reloadData .timer index
    { reloading with mainQueue := reloading.mainQueue ++ [index] }
  | .mainQueue block => (screens.mainQueue[block]?).map fun index =>
    { screens with mainQueue := screens.mainQueue.eraseIdx block }.reloadData .timer index
  | .completed reload delivered => (screens.underway[reload]?).bind fun index =>
    (screens.controllers[index]?).map fun controller =>
      let done := { screens with underway := screens.underway.eraseIdx reload }
      match delivered with
      | none => done
      | some data => done.setController index { controller with data, cellsDue := data.length }
  | .scroll index cells => (screens.openController index).map fun controller =>
    screens.setController index { controller with cellsDue := controller.cellsDue + cells }
  | .cellForRowAt index row => (screens.controllers[index]?).bind fun controller =>
    if row < controller.data.length ∧ 0 < controller.cellsDue then
      some ((screens.setController index
        { controller with cellsDue := controller.cellsDue - 1 }).post RefreshDataEvent refreshed)
    else none
  | .postDataEvent => some (screens.post PostDataEvent reloaded)

/-! ## What a step can do -/

/-- The controllers, the registries and the reloads started are the same. -/
structure Same (first second : TableScreens) : Prop where
  controllers : second.controllers = first.controllers
  observers : second.observers = first.observers
  timers : second.timers = first.timers
  started : second.started = first.started

/-- What a step does, up to the reloads underway and the main queue: load a controller,
nothing, start a reload that RefreshDataEvent did not cause, change a controller but for
its flag, do that and post RefreshDataEvent, or post PostDataEvent. -/
inductive Effect (screens : TableScreens) : TableScreens → Prop
  | loads : Effect screens screens.viewDidLoad
  | stays : Effect screens screens
  | reloads (cause : ReloadCause) (index : Nat) (other : cause ≠ .refreshDataEvent) :
      Effect screens (screens.reloadData cause index)
  | changes {index : Nat} {controller changed : TableController}
      (loaded : screens.controllers[index]? = some controller)
      (flag : changed.flag = controller.flag) : Effect screens (screens.setController index changed)
  | renders {index : Nat} {controller changed : TableController}
      (loaded : screens.controllers[index]? = some controller)
      (flag : changed.flag = controller.flag) :
      Effect screens ((screens.setController index changed).post RefreshDataEvent refreshed)
  | posts : Effect screens (screens.post PostDataEvent reloaded)

/-- An open controller is a loaded one. -/
theorem openController_loaded {screens : TableScreens} {index : Nat} {controller : TableController}
    (isOpen : screens.openController index = some controller) :
    screens.controllers[index]? = some controller :=
  (Option.filter_eq_some_iff.mp isOpen).1

/-- The inversion of a step. -/
theorem step_effect {screens after : TableScreens} {event : ScreenEvent}
    (stepped : screens.step event = some after) :
    ∃ result, screens.Effect result ∧ result.Same after := by
  cases event with
  | viewDidLoad =>
    cases Option.some.inj stepped
    exact ⟨_, .loads, rfl, rfl, rfl, rfl⟩
  | close index =>
    obtain ⟨controller, isOpen, rfl⟩ := Option.map_eq_some_iff.mp stepped
    let closed := { controller with isOpen := false }
    exact ⟨screens.setController index closed, .changes (openController_loaded isOpen) rfl,
      rfl, rfl, rfl, rfl⟩
  | viewWillAppear index =>
    obtain ⟨controller, isOpen, rfl⟩ := Option.map_eq_some_iff.mp stepped
    exact ⟨_, .reloads .viewWillAppear index (by decide), rfl, rfl, rfl, rfl⟩
  | refreshControl index =>
    obtain ⟨controller, isOpen, rfl⟩ := Option.map_eq_some_iff.mp stepped
    exact ⟨_, .reloads .refreshControl index (by decide), rfl, rfl, rfl, rfl⟩
  | timerFired timer =>
    obtain ⟨index, _, rfl⟩ := Option.map_eq_some_iff.mp stepped
    exact ⟨_, .reloads .timer index (by decide), rfl, rfl, rfl, rfl⟩
  | mainQueue block =>
    obtain ⟨index, _, rfl⟩ := Option.map_eq_some_iff.mp stepped
    exact ⟨_, .reloads .timer index (by decide), rfl, rfl, rfl, rfl⟩
  | completed reload delivered =>
    obtain ⟨index, _, completes⟩ := Option.bind_eq_some_iff.mp stepped
    obtain ⟨controller, loaded, rfl⟩ := Option.map_eq_some_iff.mp completes
    cases delivered with
    | none => exact ⟨_, .stays, rfl, rfl, rfl, rfl⟩
    | some data =>
      let filled := { controller with data, cellsDue := data.length }
      exact ⟨screens.setController index filled, .changes loaded rfl, rfl, rfl, rfl, rfl⟩
  | scroll index cells =>
    obtain ⟨controller, isOpen, rfl⟩ := Option.map_eq_some_iff.mp stepped
    let scrolled := { controller with cellsDue := controller.cellsDue + cells }
    exact ⟨screens.setController index scrolled, .changes (openController_loaded isOpen) rfl,
      rfl, rfl, rfl, rfl⟩
  | cellForRowAt index row =>
    obtain ⟨controller, loaded, rendered⟩ := Option.bind_eq_some_iff.mp stepped
    obtain ⟨_, result⟩ := Option.ite_none_right_eq_some.mp rendered
    cases Option.some.inj result
    let asked := { controller with cellsDue := controller.cellsDue - 1 }
    exact ⟨(screens.setController index asked).post RefreshDataEvent refreshed,
      .renders loaded rfl, rfl, rfl, rfl, rfl⟩
  | postDataEvent =>
    cases Option.some.inj stepped
    exact ⟨_, .posts, rfl, rfl, rfl, rfl⟩

/-! ## The feedback of rendering -/

/-- The controllers whose flag is still set. -/
def flagsSet (screens : TableScreens) : Nat := screens.controllers.countP TableController.flag

/-- The reloads RefreshDataEvent has started. -/
def refreshReloads (screens : TableScreens) : Nat :=
  screens.started.countP (fun reload => reload.1 = .refreshDataEvent)

/-- The cells all tables have yet to ask for. -/
def cellsDue (screens : TableScreens) : Nat :=
  (screens.controllers.map TableController.cellsDue).sum

/-- The reloads of RefreshDataEvent and the flags still set add up to the controllers
ever loaded. -/
def Balanced (screens : TableScreens) : Prop :=
  screens.refreshReloads + screens.flagsSet = screens.controllers.length

/-- A reload changes no controller. -/
@[simp] theorem reloadData_controllers (cause : ReloadCause) (index : Nat) (screens : TableScreens) :
    (screens.reloadData cause index).controllers = screens.controllers := rfl

/-- It counts when RefreshDataEvent caused it. -/
@[simp] theorem reloadData_refreshReloads (cause : ReloadCause) (index : Nat)
    (screens : TableScreens) : (screens.reloadData cause index).refreshReloads =
      screens.refreshReloads + if cause = .refreshDataEvent then 1 else 0 := by
  simp [refreshReloads, reloadData, List.countP_append, List.countP_singleton]

/-- Changing a controller starts no reload. -/
@[simp] theorem setController_refreshReloads (index : Nat) (controller : TableController)
    (screens : TableScreens) :
    (screens.setController index controller).refreshReloads = screens.refreshReloads := rfl

/-- Nor does it load one. -/
@[simp] theorem setController_length (index : Nat) (controller : TableController)
    (screens : TableScreens) :
    (screens.setController index controller).controllers.length = screens.controllers.length :=
  List.length_set

/-- A changed controller stands between the others as the old one did. -/
theorem setController_split {screens : TableScreens} {index : Nat} {controller : TableController}
    (loaded : screens.controllers[index]? = some controller) (changed : TableController) :
    ∃ before after, screens.controllers = before ++ controller :: after ∧
      (screens.setController index changed).controllers = before ++ changed :: after := by
  obtain ⟨inside, isController⟩ := List.getElem?_eq_some_iff.mp loaded
  obtain ⟨before, after, split, _, changes⟩ : ∃ before after,
      screens.controllers = before ++ screens.controllers[index] :: after ∧ before.length = index ∧
        screens.controllers.set index changed = before ++ changed :: after :=
    List.exists_of_set inside
  exact ⟨before, after, isController ▸ split, changes⟩

/-- A change that keeps the flag keeps the number of flags set. -/
theorem setController_flagsSet {screens : TableScreens} {index : Nat}
    {controller changed : TableController} (loaded : screens.controllers[index]? = some controller)
    (same : changed.flag = controller.flag) :
    (screens.setController index changed).flagsSet = screens.flagsSet := by
  obtain ⟨before, after, split, changes⟩ := setController_split loaded changed
  simp only [flagsSet, split, changes, List.countP_append, List.countP_cons, same]

/-- Clearing a flag leaves one fewer set. -/
theorem clear_flagsSet {screens : TableScreens} {index : Nat} {controller : TableController}
    (loaded : screens.controllers[index]? = some controller) (isSet : controller.flag = true) :
    (screens.setController index { controller with flag := false }).flagsSet + 1 =
      screens.flagsSet := by
  obtain ⟨before, after, split, changes⟩ :=
    setController_split loaded { controller with flag := false }
  simp only [flagsSet, split, changes, List.countP_append, List.countP_cons, isSet]
  simp [Nat.add_assoc]

/-- An observer of RefreshDataEvent does nothing, or clears its controller's flag and
starts one reload. -/
theorem refreshed_cases (screens : TableScreens) (index : Nat) :
    screens.refreshed index = screens ∨
      (∃ controller, screens.controllers[index]? = some controller ∧ controller.flag = true ∧
        screens.refreshed index = (screens.reloadData .refreshDataEvent index).setController index
          { controller with flag := false }) := by
  rw [refreshed]
  cases loaded : screens.controllers[index]? with
  | none => exact Or.inl rfl
  | some controller =>
    cases isSet : controller.flag with
    | false => exact Or.inl (by simp [isSet])
    | true => exact Or.inr ⟨controller, rfl, isSet, by simp [isSet]⟩

/-- An observer of RefreshDataEvent keeps the balance. -/
theorem refreshed_balanced {screens : TableScreens} (balanced : screens.Balanced) (index : Nat) :
    (screens.refreshed index).Balanced := by
  obtain same | ⟨controller, loaded, isSet, result⟩ := refreshed_cases screens index
  · rw [same]
    exact balanced
  · have fewer : ((screens.reloadData .refreshDataEvent index).setController index
        { controller with flag := false }).flagsSet + 1 = screens.flagsSet := clear_flagsSet loaded isSet
    rw [result]
    simp only [Balanced, setController_refreshReloads, reloadData_refreshReloads, ↓reduceIte,
      setController_length, reloadData_controllers] at balanced ⊢
    omega

/-- So do all the observers one after another. -/
theorem post_balanced {screens : TableScreens} (balanced : screens.Balanced) :
    (screens.post RefreshDataEvent refreshed).Balanced := by
  rw [post]
  generalize (screens.observers.filter _).map Observer.controller = observing
  induction observing generalizing screens with
  | nil => exact balanced
  | cons index rest inductionHypothesis => exact inductionHypothesis (refreshed_balanced balanced index)

/-- A reload for another reason changes neither side of the balance. -/
theorem reloadData_balanced {screens : TableScreens} (balanced : screens.Balanced)
    {cause : ReloadCause} (other : cause ≠ .refreshDataEvent) (index : Nat) :
    (screens.reloadData cause index).Balanced := by
  have same : (screens.reloadData cause index).refreshReloads = screens.refreshReloads := by
    simp [other]
  exact (congrArg (· + screens.flagsSet) same).trans balanced

/-- Nor does a change to a controller that keeps its flag. -/
theorem setController_balanced {screens : TableScreens} (balanced : screens.Balanced) {index : Nat}
    {controller changed : TableController} (loaded : screens.controllers[index]? = some controller)
    (same : changed.flag = controller.flag) : (screens.setController index changed).Balanced := by
  rw [Balanced, setController_refreshReloads, setController_flagsSet loaded same,
    setController_length]
  exact balanced

/-- A new controller comes with its flag set. -/
theorem viewDidLoad_balanced {screens : TableScreens} (balanced : screens.Balanced) :
    screens.viewDidLoad.Balanced := by
  have reloads : screens.viewDidLoad.refreshReloads = screens.refreshReloads := by
    simp [viewDidLoad, runTimer, observe, reloadData, refreshReloads]
  have flags : screens.viewDidLoad.flagsSet = screens.flagsSet + 1 := by
    simp [viewDidLoad, runTimer, observe, reloadData, flagsSet]
  have loaded : screens.viewDidLoad.controllers.length = screens.controllers.length + 1 := by
    simp [viewDidLoad, runTimer, observe, reloadData]
  rw [Balanced, reloads, flags, loaded, ← balanced, Nat.add_assoc]

/-- PostDataEvent's observers start reloads of their own cause. -/
theorem post_postData_balanced {screens : TableScreens} (balanced : screens.Balanced) :
    (screens.post PostDataEvent reloaded).Balanced := by
  rw [post]
  generalize (screens.observers.filter _).map Observer.controller = observing
  induction observing generalizing screens with
  | nil => exact balanced
  | cons index rest inductionHypothesis =>
    exact inductionHypothesis (reloadData_balanced balanced (by simp) index)

/-- Every step keeps the balance. -/
theorem step_balanced {screens after : TableScreens} {event : ScreenEvent}
    (balanced : screens.Balanced) (stepped : screens.step event = some after) : after.Balanced := by
  obtain ⟨result, effect, same⟩ := step_effect stepped
  rw [Balanced, refreshReloads, flagsSet, same.started, same.controllers]
  cases effect with
  | loads => exact viewDidLoad_balanced balanced
  | stays => exact balanced
  | reloads cause index other => exact reloadData_balanced balanced other index
  | changes loaded flag => exact setController_balanced balanced loaded flag
  | renders loaded flag => exact post_balanced (setController_balanced balanced loaded flag)
  | posts => exact post_postData_balanced balanced

/-- Posting RefreshDataEvent changes nothing, or fewer flags are set after it. -/
theorem post_lowers (screens : TableScreens) :
    screens.post RefreshDataEvent refreshed = screens ∨
      (screens.post RefreshDataEvent refreshed).flagsSet < screens.flagsSet := by
  rw [post]
  generalize (screens.observers.filter _).map Observer.controller = observing
  induction observing generalizing screens with
  | nil => exact Or.inl rfl
  | cons index rest inductionHypothesis =>
    have later := inductionHypothesis (screens.refreshed index)
    rw [List.foldl_cons]
    obtain same | ⟨controller, loaded, isSet, result⟩ := refreshed_cases screens index
    · rw [same] at later ⊢
      exact later
    · have fewer : (screens.refreshed index).flagsSet + 1 = screens.flagsSet := by
        have cleared : ((screens.reloadData .refreshDataEvent index).setController index
          { controller with flag := false }).flagsSet + 1 = screens.flagsSet :=
            clear_flagsSet loaded isSet
        rwa [result]
      right
      obtain same | lower := later
      · rw [same]
        omega
      · omega

/-- Asking for a cell leaves one fewer due. -/
theorem ask_cellsDue {screens : TableScreens} {index : Nat} {controller : TableController}
    (loaded : screens.controllers[index]? = some controller) (due : 0 < controller.cellsDue) :
    (screens.setController index { controller with cellsDue := controller.cellsDue - 1 }).cellsDue <
      screens.cellsDue := by
  obtain ⟨before, after, split, changes⟩ :=
    setController_split loaded { controller with cellsDue := controller.cellsDue - 1 }
  simp only [cellsDue, split, changes, List.map_append, List.map_cons, List.sum_append, List.sum_cons]
  omega

/-- Rendering a cell and completing a reload: what feeds back. -/
def IsFeedback (event : ScreenEvent) : Prop :=
  match event with
  | .cellForRowAt _ _ | .completed _ _ => True
  | _ => False

/-- The flags set, then the reloads underway, then the cells due. -/
def rank (screens : TableScreens) : Nat × Nat × Nat :=
  (screens.flagsSet, screens.underway.length, screens.cellsDue)

/-- The first part that differs is smaller. -/
def Lower : Nat × Nat × Nat → Nat × Nat × Nat → Prop :=
  Prod.Lex (· < ·) (Prod.Lex (· < ·) (· < ·))

/-- Nothing goes on getting lower. -/
theorem lower_wellFounded : WellFounded Lower :=
  Nat.lt_wfRel.wf.prod_lex (Nat.lt_wfRel.wf.prod_lex Nat.lt_wfRel.wf)

/-- Every step of the feedback lowers the rank. -/
theorem feedback_lowers (screens : TableScreens) (event : ScreenEvent) (after : TableScreens)
    (isFeedback : IsFeedback event) (stepped : screens.step event = some after) :
    Lower after.rank screens.rank := by
  cases event with
  | cellForRowAt index row =>
    obtain ⟨controller, loaded, rendered⟩ := Option.bind_eq_some_iff.mp stepped
    obtain ⟨⟨_, due⟩, result⟩ := Option.ite_none_right_eq_some.mp rendered
    cases Option.some.inj result
    have fewer := ask_cellsDue loaded due
    have flags : (screens.setController index
        { controller with cellsDue := controller.cellsDue - 1 }).flagsSet = screens.flagsSet :=
      setController_flagsSet loaded rfl
    have underway : (screens.setController index
      { controller with cellsDue := controller.cellsDue - 1 }).underway = screens.underway := rfl
    generalize screens.setController index _ = asked at flags fewer underway ⊢
    obtain unchanged | lower := post_lowers asked
    · rw [unchanged, rank, rank, flags, underway]
      exact Prod.Lex.right _ (Prod.Lex.right _ fewer)
    · exact Prod.Lex.left _ _ (flags ▸ lower)
  | completed reload delivered =>
    obtain ⟨index, isUnderway, completes⟩ := Option.bind_eq_some_iff.mp stepped
    obtain ⟨controller, loaded, rfl⟩ := Option.map_eq_some_iff.mp completes
    have fewer : (screens.underway.eraseIdx reload).length < screens.underway.length := by
      have inside := (List.getElem?_eq_some_iff.mp isUnderway).1
      rw [List.length_eraseIdx_of_lt inside]
      omega
    cases delivered with
    | none => exact Prod.Lex.right _ (Prod.Lex.left _ _ fewer)
    | some data =>
      let done : TableScreens := { screens with underway := screens.underway.eraseIdx reload }
      have isLoaded : done.controllers[index]? = some controller := loaded
      have flags : (done.setController index
          { controller with data, cellsDue := data.length }).flagsSet = done.flagsSet :=
        setController_flagsSet isLoaded rfl
      change Lower (rank (done.setController index _)) _
      rw [rank, flags]
      exact Prod.Lex.right _ (Prod.Lex.left _ _ fewer)
  | viewDidLoad | close | viewWillAppear | refreshControl | timerFired | mainQueue | scroll
  | postDataEvent => exact isFeedback.elim

/-- In every run the reloads RefreshDataEvent starts are never more than the controllers
loaded, and rendering and completing reloads alone never go on for ever. -/
theorem refresh_feedback_bounded :
    (∀ events last, GuardedRuns.Runs step GuardedRuns.unguarded {} events last →
      last.refreshReloads ≤ last.controllers.length) ∧
    ¬ ∃ chain : Nat → TableScreens, ∀ time, ∃ event, IsFeedback event ∧
      (chain time).step event = some (chain (time + 1)) := by
  constructor
  · intro events last run
    have balanced : last.Balanced :=
      run.invariant (fun _ _ _ held _ stepped => step_balanced held stepped) rfl
    exact balanced ▸ Nat.le_add_right _ _
  · exact GuardedRuns.no_endless_chain lower_wellFounded rank IsFeedback feedback_lowers

/-! ## What closing a screen leaves behind -/

/-- The controllers whose screen is open. -/
def openScreens (screens : TableScreens) : List Nat :=
  (List.range screens.controllers.length).filter (fun index => (screens.openController index).isSome)

/-- The controllers registered for an event, in the order of registration. -/
def observing (eventName : String) (screens : TableScreens) : List Nat :=
  (screens.observers.filter (fun observer => observer.eventName = eventName)).map Observer.controller

/-- The observers of PostDataEvent and the timers are as many as the open screens, and
the event starts one reload for each of these and no other. -/
structure MatchesOpen (screens : TableScreens) : Prop where
  observers : (screens.observing PostDataEvent).length = screens.openScreens.length
  timers : screens.timers.length = screens.openScreens.length
  reloads : ∀ after, screens.step .postDataEvent = some after → after.started =
    screens.started ++ screens.openScreens.map (fun index => (.postDataEvent, index))

/-- The same with the screens ever loaded. -/
structure MatchesLoaded (screens : TableScreens) : Prop where
  observers : (screens.observing PostDataEvent).length = screens.controllers.length
  timers : screens.timers.length = screens.controllers.length
  reloads : ∀ after, screens.step .postDataEvent = some after → after.started =
    screens.started ++ (List.range screens.controllers.length).map (fun index => (.postDataEvent, index))

/-- Every controller is registered once for both events and has one timer. -/
structure Registered (screens : TableScreens) : Prop where
  refresh : screens.observing RefreshDataEvent = List.range screens.controllers.length
  post : screens.observing PostDataEvent = List.range screens.controllers.length
  timers : screens.timers = List.range screens.controllers.length

/-- What a step leaves of the registries and how many controllers there are. -/
def registries (screens : TableScreens) : List Observer × List Nat × Nat :=
  (screens.observers, screens.timers, screens.controllers.length)

/-- Callbacks that touch no registry leave a post of their event without one touched. -/
theorem post_registries {callback : TableScreens → Nat → TableScreens}
    (untouched : ∀ screens index, (callback screens index).registries = screens.registries)
    (eventName : String) (screens : TableScreens) :
    (screens.post eventName callback).registries = screens.registries := by
  rw [post]
  generalize (screens.observers.filter _).map Observer.controller = observing
  induction observing generalizing screens with
  | nil => rfl
  | cons index rest inductionHypothesis =>
    exact (inductionHypothesis (callback screens index)).trans (untouched screens index)

/-- Changing a controller touches no registry. -/
theorem setController_registries (index : Nat) (controller : TableController)
    (screens : TableScreens) :
    (screens.setController index controller).registries = screens.registries := by
  simp [registries, setController]

/-- Nor does an observer of RefreshDataEvent. -/
theorem refreshed_registries (screens : TableScreens) (index : Nat) :
    (screens.refreshed index).registries = screens.registries := by
  obtain same | ⟨controller, _, _, result⟩ := refreshed_cases screens index
  · rw [same]
  · rw [result, setController_registries]
    rfl

/-- Only a new controller touches the registries: closing one does not. -/
theorem step_registries {screens after : TableScreens} {event : ScreenEvent}
    (stepped : screens.step event = some after) :
    after.registries = screens.viewDidLoad.registries ∨ after.registries = screens.registries := by
  obtain ⟨result, effect, same⟩ := step_effect stepped
  rw [registries, same.observers, same.timers, same.controllers, ← registries]
  cases effect with
  | loads => exact Or.inl rfl
  | stays | reloads => exact Or.inr rfl
  | changes => exact Or.inr (setController_registries _ _ screens)
  | renders =>
    exact Or.inr ((post_registries refreshed_registries _ _).trans
      (setController_registries _ _ screens))
  | posts =>
    have untouched (current : TableScreens) (index : Nat) :
        (current.reloaded index).registries = current.registries := rfl
    exact Or.inr (post_registries untouched PostDataEvent screens)

/-- With the registries the registrations stay. -/
theorem Registered.of_registries {screens after : TableScreens} (registered : screens.Registered)
    (same : after.registries = screens.registries) : after.Registered := by
  simp only [registries, Prod.mk.injEq] at same
  obtain ⟨observers, timers, length⟩ := same
  refine ⟨?_, ?_, ?_⟩
  · rw [observing, observers, length]
    exact registered.refresh
  · rw [observing, observers, length]
    exact registered.post
  · rw [timers, length]
    exact registered.timers

/-- A new controller registers itself once everywhere. -/
theorem viewDidLoad_registered {screens : TableScreens} (registered : screens.Registered) :
    screens.viewDidLoad.Registered := by
  have length : screens.viewDidLoad.controllers.length = screens.controllers.length + 1 := by
    simp [viewDidLoad, runTimer, observe, reloadData]
  have observers : screens.viewDidLoad.observers = screens.observers ++
      [⟨RefreshDataEvent, screens.controllers.length⟩, ⟨PostDataEvent, screens.controllers.length⟩] := by
    simp [viewDidLoad, runTimer, observe, reloadData]
  have timers : screens.viewDidLoad.timers = screens.timers ++ [screens.controllers.length] := rfl
  have different : RefreshDataEvent ≠ PostDataEvent := by decide
  refine ⟨?_, ?_, ?_⟩
  · rw [observing, observers, length, List.range_succ, ← registered.refresh]
    simp [observing, different.symm]
  · rw [observing, observers, length, List.range_succ, ← registered.post]
    simp [observing, different]
  · rw [timers, length, List.range_succ, registered.timers]

/-- Every step keeps the registrations. -/
theorem step_registered {screens after : TableScreens} {event : ScreenEvent}
    (registered : screens.Registered) (stepped : screens.step event = some after) :
    after.Registered := by
  obtain new | same := step_registries stepped
  · exact (viewDidLoad_registered registered).of_registries new
  · exact registered.of_registries same

/-- Observers called one after another start one reload each, in their order. -/
theorem started_reloads (indexes : List Nat) (screens : TableScreens) :
    (indexes.foldl reloaded screens).started =
      screens.started ++ indexes.map (fun index => (.postDataEvent, index)) := by
  induction indexes generalizing screens with
  | nil => simp
  | cons index rest inductionHypothesis =>
    rw [List.foldl_cons, inductionHypothesis, reloaded, reloadData, List.append_assoc]
    rfl

/-- What is registered matches the screens ever loaded. -/
theorem Registered.matchesLoaded {screens : TableScreens} (registered : screens.Registered) :
    screens.MatchesLoaded := by
  refine ⟨?_, ?_, ?_⟩
  · rw [registered.post, List.length_range]
  · rw [registered.timers, List.length_range]
  · intro after stepped
    cases Option.some.inj stepped
    rw [← registered.post]
    exact started_reloads (screens.observing PostDataEvent) screens

/-- What is registered matches the open screens exactly while no screen was closed. -/
theorem MatchesLoaded.open_iff {screens : TableScreens} (loaded : screens.MatchesLoaded) :
    screens.MatchesOpen ↔ ∀ controller ∈ screens.controllers, controller.isOpen = true := by
  have opened (index : Nat) (controller : TableController)
      (isLoaded : screens.controllers[index]? = some controller) :
      (screens.openController index).isSome = true ↔ controller.isOpen = true := by
    simp [openController, isLoaded]
  have everyOpen : (∀ controller ∈ screens.controllers, controller.isOpen = true) ↔
      ∀ index ∈ List.range screens.controllers.length, (screens.openController index).isSome = true := by
    constructor
    · intro all index inRange
      have inside := List.mem_range.mp inRange
      exact (opened index _ (List.getElem?_eq_getElem inside)).mpr (all _ (List.getElem_mem inside))
    · intro all controller member
      obtain ⟨index, isLoaded⟩ := List.mem_iff_getElem?.mp member
      have inside := (List.getElem?_eq_some_iff.mp isLoaded).1
      exact (opened index controller isLoaded).mp (all index (List.mem_range.mpr inside))
  rw [everyOpen]
  constructor
  · intro isOpen
    have sameLength := isOpen.observers.symm.trans loaded.observers
    apply List.length_filter_eq_length_iff.mp
    rw [List.length_range]
    exact sameLength
  · intro all
    have same : screens.openScreens = List.range screens.controllers.length :=
      List.filter_eq_self.mpr all
    refine ⟨?_, ?_, ?_⟩
    · rw [same, List.length_range, loaded.observers]
    · rw [same, List.length_range, loaded.timers]
    · rw [same]
      exact loaded.reloads

/-- In every run the observers of PostDataEvent and the timers are as many as the screens
ever loaded, and each such event starts one reload for every one of these; this is what
is open exactly while no screen was closed. -/
theorem subscriptions_match_loaded (events : List ScreenEvent) (last : TableScreens)
    (run : GuardedRuns.Runs step GuardedRuns.unguarded {} events last) :
    last.MatchesLoaded ∧
      (last.MatchesOpen ↔ ∀ controller ∈ last.controllers, controller.isOpen = true) := by
  have registered : last.Registered :=
    run.invariant (fun _ _ _ held _ stepped => step_registered held stepped) ⟨rfl, rfl, rfl⟩
  exact ⟨registered.matchesLoaded, registered.matchesLoaded.open_iff⟩

/-- The feed is opened, left, and opened again. -/
def revisit : List ScreenEvent := [.viewDidLoad, .close 0, .viewDidLoad]

/-- It has two observers, and a post written by the user reloads both controllers. -/
theorem subscriptions_match_loaded_revisit : ∃ last, last.openScreens = [1] ∧
    GuardedRuns.exec step {} revisit = some last ∧ last.MatchesLoaded ∧ ¬ last.MatchesOpen := by
  have ran : ((GuardedRuns.exec step {} revisit).any
      fun last => decide (last.openScreens = [1] ∧
        ¬ ∀ controller ∈ last.controllers, controller.isOpen = true)) = true := by decide +kernel
  obtain ⟨last, run, isOpen, closed⟩ := GuardedRuns.exists_run ran
  obtain ⟨loaded, exact⟩ := subscriptions_match_loaded revisit last run
  exact ⟨last, isOpen, (GuardedRuns.runs_iff_exec _ _ _).mp run, loaded, fun all => closed (exact.mp all)⟩

/-- After the feed is closed its observer and its timer are still there. -/
theorem subscriptions_not_always_match_open : ¬ ∀ (events : List ScreenEvent) (last : TableScreens),
    GuardedRuns.Runs step GuardedRuns.unguarded {} events last → last.MatchesOpen := by
  intro always
  have ran : ((GuardedRuns.exec step {} [.viewDidLoad, .close 0]).any
      fun last => decide (last.timers = [0] ∧ last.openScreens = [])) = true := by decide +kernel
  obtain ⟨last, run, timers, nothing⟩ := GuardedRuns.exists_run ran
  have same := (always _ last run).timers
  rw [timers, nothing] at same
  exact absurd same (by decide)

end TableScreens

end Amigo
