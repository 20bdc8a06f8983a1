import Amigo.Subscriptions
import Amigo.World

/-!
# The feeds over the world

A world leaves open when a device calls `Model.getAllPosts`. Only table screens call
it: when they load or appear, when the user pulls, twice at each tick of their timer,
when a cell is made while their flag is set, and when a post of this app has been
written. Here each device has its table screens beside its client, and every reload they
start asks a read of the client. The last of the reasons closes a circle: the completion
of `ModelFirebase.addPost` posts PostDataEvent once the server has committed the post,
and every table ever loaded reloads. A rejected write only prints, as does the delete.

A completion belongs to the app that issued the write. It runs in the main queue, some
time after the commit, and is lost when the app stops or starts again, like the screens.
A table is given a list that some merge has read; which of the reloads underway it
belongs to is left open. The read of a table's title, which asks nothing further, is left
out.

Whatever the feeds do, the world under them takes steps of its own, so what holds of
every reachable world holds under them.
-/

namespace Amigo

universe u

/-- The table screens of one running app, and the completions they wait for. -/
structure Tables where
  screens : TableScreens := {}
  /-- How many of the queued writes this app has issued: the last ones. -/
  awaited : Nat := 0
  /-- The committed posts whose completion is still to run. -/
  completions : Nat := 0
deriving DecidableEq

/-- The steps of one device. -/
inductive FeedEvent where
  | app (action : Action)
  | screen (event : ScreenEvent)
  /-- The completion of `ModelFirebase.addPost`, for a committed post. -/
  | completion

/-- The server commits a post. -/
def Client.commitsPost (client : Client) : Action → Bool
  | .commit _ =>
    match client.outbox with
    | .setData .posts _ _ :: _ => true
    | _ => false
  | _ => false

namespace Tables

/-- An action commits a post this app has issued: the first write of the queue is one of
those it awaits. -/
def completes (tables : Tables) (before : Client) (action : Action) : Bool :=
  before.commitsPost action && decide (before.outbox.length ≤ tables.awaited)

/-- The tables after an action of their app. One that has stopped or started again has
none. -/
def after (tables : Tables) (before after : Client) (action : Action) : Tables :=
  if after.trap = none ∧ action ≠ .relaunch then
    { tables with
      -- a write joins the queue behind the others, and leaves it at its head
      awaited := min (tables.awaited + (after.outbox.length - before.outbox.length))
        after.outbox.length
      completions := tables.completions + if tables.completes before action then 1 else 0 }
  else {}

/-- The steps of the screens on their own. The notification centre posts PostDataEvent
for a completion only, and a table shows what a merge has read. -/
def admits (client : Client) : ScreenEvent → Bool
  | .postDataEvent | .completed _ none => false
  | .completed _ (some data) => client.delivered.contains data
  | _ => true

end Tables

/-- A world and the tables of each device. -/
structure Feeds (ι : Type u) where
  world : World ι
  tables : ι → Tables

namespace Feeds

open GuardedRuns

variable {ι : Type u}

/-- No table has been loaded anywhere. -/
def init (ι : Type u) : Feeds ι where
  world := World.init ι
  tables := fun _ => {}

variable [DecidableEq ι]

/-- The tables of a client change, and each reload this starts calls `Model.getAllPosts`. -/
def change (platform : Platform) (client : ι) (tables : Tables) (feeds : Feeds ι) :
    Option (Feeds ι) :=
  let reloads := tables.screens.started.length - (feeds.tables client).screens.started.length
  (exec (World.step platform) feeds.world (List.replicate reloads (client, .getAllPosts))).map
    fun world => ⟨world, Function.update feeds.tables client tables⟩

/-- One step of one device. -/
def step (platform : Platform) (feeds : Feeds ι) : ι × FeedEvent → Option (Feeds ι)
  | (client, .app action) =>
    if action = .getAllPosts then none
    else (feeds.world.step platform (client, action)).map fun world =>
      ⟨world, Function.update feeds.tables client
        ((feeds.tables client).after (feeds.world.clients client) (world.clients client) action)⟩
  | (client, .screen event) =>
    let tables := feeds.tables client
    if (feeds.world.clients client).trap = none ∧
        Tables.admits (feeds.world.clients client) event = true then
      (tables.screens.step event).bind fun screens =>
        feeds.change platform client { tables with screens }
    else none
  | (client, .completion) =>
    let tables := feeds.tables client
    if (feeds.world.clients client).trap = none ∧ 0 < tables.completions then
      feeds.change platform client
        { tables with
          screens := tables.screens.post PostDataEvent TableScreens.reloaded
          completions := tables.completions - 1 }
    else none

/-- A state of some run from the start. -/
def Reachable (platform : Platform) (feeds : Feeds ι) : Prop :=
  ∃ events, Runs (step platform) unguarded (init ι) events feeds

/-- Calls of `Model.getAllPosts` only add their reads. -/
theorem getAllPosts_iterate (calls : Nat) (client : Client) :
    Client.getAllPosts^[calls] client =
      { client with
        pending := client.pending ++
          List.replicate calls ⟨.fetchPosts client.lastUpdateDate .merge, none⟩ } := by
  induction calls generalizing client with
  | zero => simp
  | succ calls inductionHypothesis =>
    rw [Function.iterate_succ_apply, inductionHypothesis, List.replicate_succ]
    simp [Client.getAllPosts, Client.ask, Client.lastUpdateDate]

/-- The world after a number of calls of `Model.getAllPosts` at one client. -/
def called (client : ι) (calls : Nat) (world : World ι) : World ι :=
  { world with
    clients := Function.update world.clients client
      (Client.getAllPosts^[calls] (world.clients client)) }

/-- A running app takes every call. -/
theorem exec_calls (platform : Platform) {client : ι} {world : World ι}
    (running : (world.clients client).trap = none) (reloads : Nat) :
    exec (World.step platform) world (List.replicate reloads (client, .getAllPosts)) =
      some (called client reloads world) := by
  induction reloads generalizing world with
  | zero => simp [exec, called]
  | succ reloads inductionHypothesis =>
    have stepped : world.step platform (client, .getAllPosts) = some (called client 1 world) := by
      simp [World.step, World.fresh, World.generates, World.cloudAfter, Client.act, running,
        Client.perform, called]
    have next : ((called client 1 world).clients client).trap = none := by
      simpa [called, Client.getAllPosts, Client.ask] using running
    rw [List.replicate_succ, exec, stepped, Option.bind_some, inductionHypothesis next]
    simp [called]

/-- The tables of a running app change as they are told to. -/
theorem change_eq (platform : Platform) {client : ι} {feeds : Feeds ι} (tables : Tables)
    (running : (feeds.world.clients client).trap = none) :
    feeds.change platform client tables = some
      ⟨called client
          (tables.screens.started.length - (feeds.tables client).screens.started.length) feeds.world,
        Function.update feeds.tables client tables⟩ := by
  rw [change, exec_calls platform running]
  rfl

/-- What a step does: one action of the app, or a change of its tables, by a step of the
screens or by a completion. -/
inductive Moves (platform : Platform) (feeds : Feeds ι) (client : ι) : FeedEvent → Feeds ι → Prop
  | app (action : Action) (world : World ι) (other : action ≠ .getAllPosts)
      (stepped : feeds.world.step platform (client, action) = some world) :
      Moves platform feeds client (.app action) ⟨world, Function.update feeds.tables client
        ((feeds.tables client).after (feeds.world.clients client) (world.clients client) action)⟩
  | screen (event : ScreenEvent) (screens : TableScreens)
      (running : (feeds.world.clients client).trap = none)
      (admitted : Tables.admits (feeds.world.clients client) event = true)
      (stepped : (feeds.tables client).screens.step event = some screens) :
      Moves platform feeds client (.screen event)
        ⟨called client
            (screens.started.length - (feeds.tables client).screens.started.length) feeds.world,
          Function.update feeds.tables client { feeds.tables client with screens }⟩
  | completion (screens : TableScreens) (running : (feeds.world.clients client).trap = none)
      (due : 0 < (feeds.tables client).completions)
      (posted : screens = (feeds.tables client).screens.post PostDataEvent TableScreens.reloaded) :
      Moves platform feeds client .completion
        ⟨called client
            (screens.started.length - (feeds.tables client).screens.started.length) feeds.world,
          Function.update feeds.tables client
            { feeds.tables client with
              screens
              completions := (feeds.tables client).completions - 1 }⟩

/-- The inversion of a step. -/
theorem step_moves {platform : Platform} {feeds next : Feeds ι} {client : ι} {event : FeedEvent}
    (stepped : feeds.step platform (client, event) = some next) :
    Moves platform feeds client event next := by
  cases event with
  | app action =>
    obtain ⟨other, performed⟩ := Option.ite_none_left_eq_some.mp stepped
    obtain ⟨world, acted, rfl⟩ := Option.map_eq_some_iff.mp performed
    exact .app action world other acted
  | screen event =>
    obtain ⟨⟨running, admitted⟩, performed⟩ := Option.ite_none_right_eq_some.mp stepped
    obtain ⟨screens, moved, changed⟩ := Option.bind_eq_some_iff.mp performed
    rw [change_eq platform _ running, Option.some.injEq] at changed
    exact changed ▸ .screen event screens running admitted moved
  | completion =>
    obtain ⟨⟨running, due⟩, changed⟩ := Option.ite_none_right_eq_some.mp stepped
    rw [change_eq platform _ running, Option.some.injEq] at changed
    exact changed ▸ .completion _ running due rfl

/-- The world under a step takes steps of its own. -/
theorem Moves.world {platform : Platform} {feeds next : Feeds ι} {client : ι} {event : FeedEvent}
    (moves : Moves platform feeds client event next) :
    ∃ events, Runs (World.step platform) unguarded feeds.world events next.world := by
  cases moves with
  | app action world other stepped => exact ⟨_, .next trivial stepped (.done _)⟩
  | screen event screens running =>
    exact ⟨_, (runs_iff_exec _ _ _).mpr (exec_calls platform running _)⟩
  | completion screens running =>
    exact ⟨_, (runs_iff_exec _ _ _).mpr (exec_calls platform running _)⟩

/-- A step leaves the other devices alone. -/
theorem Moves.other {platform : Platform} {feeds next : Feeds ι} {client : ι} {event : FeedEvent}
    (moves : Moves platform feeds client event next) {other : ι} (distinct : other ≠ client) :
    next.world.clients other = feeds.world.clients other ∧ next.tables other = feeds.tables other := by
  constructor
  · cases moves with
    | app action world _ stepped => exact World.step_other stepped distinct
    | screen | completion => exact Function.update_of_ne distinct _ _
  · cases moves <;> exact Function.update_of_ne distinct _ _

/-- What holds at the start and is kept by every step holds of all reachable feeds. -/
theorem Reachable.invariant {platform : Platform} {feeds : Feeds ι}
    (reachable : feeds.Reachable platform) (invariant : Feeds ι → Prop)
    (initial : invariant (init ι))
    (kept : ∀ before client event next, invariant before → Moves platform before client event next →
      invariant next) : invariant feeds := by
  obtain ⟨events, run⟩ := reachable
  exact run.invariant (fun before event next holds _ stepped =>
    kept before event.1 event.2 next holds (step_moves stepped)) initial

/-- Under reachable feeds the world is reachable. -/
theorem Reachable.world {platform : Platform} {feeds : Feeds ι}
    (reachable : feeds.Reachable platform) : feeds.world.Reachable platform := by
  refine reachable.invariant (fun feeds => feeds.world.Reachable platform) ⟨[], .done _⟩ ?_
  rintro before client event next ⟨past, run⟩ moves
  obtain ⟨events, continued⟩ := moves.world
  exact ⟨past ++ events, run.append continued⟩

/-- What a step keeps for the app it is about holds of every app. -/
theorem Reachable.each {platform : Platform} {feeds : Feeds ι}
    (reachable : feeds.Reachable platform) (invariant : Client → Tables → Prop)
    (initial : ∀ client, invariant ((init ι).world.clients client) ((init ι).tables client))
    (kept : ∀ (before : Feeds ι) client event (next : Feeds ι),
      invariant (before.world.clients client) (before.tables client) →
        Moves platform before client event next →
          invariant (next.world.clients client) (next.tables client)) (client : ι) :
    invariant (feeds.world.clients client) (feeds.tables client) := by
  refine reachable.invariant (fun feeds => ∀ client,
    invariant (feeds.world.clients client) (feeds.tables client)) initial ?_ client
  intro before acting event next holds moves client
  by_cases same : client = acting
  · exact same ▸ kept before acting event next (holds acting) moves
  · obtain ⟨sameClient, sameTables⟩ := moves.other same
    rw [sameClient, sameTables]
    exact holds client

/-- The observers of every app are those of the tables it has loaded. -/
theorem Reachable.registered {platform : Platform} {feeds : Feeds ι}
    (reachable : feeds.Reachable platform) (client : ι) :
    (feeds.tables client).screens.Registered := by
  have start : ({} : TableScreens).Registered := ⟨rfl, rfl, rfl⟩
  refine reachable.each (fun _ tables => tables.screens.Registered) (fun _ => start) ?_ client
  intro before client event next registered moves
  cases moves with
  | app action world =>
    simp only [Function.update_self, Tables.after]
    split
    · exact registered
    · exact start
  | screen event screens running admitted stepped =>
    simp only [Function.update_self]
    exact TableScreens.step_registered registered stepped
  | completion screens running due posted =>
    have stepped : (before.tables client).screens.step .postDataEvent = some screens :=
      congrArg some posted.symm
    simp only [Function.update_self]
    exact TableScreens.step_registered registered stepped

/-- An app that has stopped has no tables. -/
theorem Reachable.stopped {platform : Platform} {feeds : Feeds ι}
    (reachable : feeds.Reachable platform) (client : ι)
    (trapped : (feeds.world.clients client).trap ≠ none) : feeds.tables client = {} := by
  refine reachable.each (fun app tables => app.trap ≠ none → tables = {}) (fun _ _ => rfl) ?_
    client trapped
  intro before client event next empty moves trapped
  have runs (calls : Nat) (running : (before.world.clients client).trap = none) :
      ((called client calls before.world).clients client).trap = none := by
    simpa only [called, Function.update_self, getAllPosts_iterate] using running
  cases moves with
  | app action world =>
    simp only [Function.update_self, Tables.after]
    exact if_neg (fun running => trapped running.1)
  | screen event screens running => exact absurd (runs _ running) trapped
  | completion screens running => exact absurd (runs _ running) trapped

end Feeds

end Amigo
