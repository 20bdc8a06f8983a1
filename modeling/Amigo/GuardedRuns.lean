import Mathlib.Data.List.Basic
import Mathlib.Data.List.Induction
import Mathlib.Order.WellFounded

/-!
# Runs of a partial step function

A system is a step function that refuses, by returning no state, the events its
current state does not admit. A run executes a finite list of events, every one
of which is accepted. A guard restricts runs: it is a predicate on the state an
event finds and on that event, never on what the event produces. A law proved
for guarded runs therefore says which events, met in which states, it needs.

An invariant kept by one guarded step holds at the end of every guarded run,
and every prefix of a guarded run is one, so it holds at every state on the way.
Labelled runs record what an observer sees of each step. When a deterministic
observer machine can follow the labels alone, runs with equal labels leave the
observer in equal states; this is the two-run form used for confinement. Events
that lower a well-founded rank at every step make no endless chain.
-/

namespace GuardedRuns

universe u v w
variable {σ : Type u} {ε : Type v} {label : Type w}

/-- Execute the events in order; a refused event leaves no final state. -/
def exec (step : σ → ε → Option σ) : σ → List ε → Option σ
  | start, [] => some start
  | start, event :: rest => (step start event).bind (fun next => exec step next rest)

/-- A finite run whose events are all accepted, each met in a state its guard
admits. -/
inductive Runs (step : σ → ε → Option σ) (guard : σ → ε → Prop) : σ → List ε → σ → Prop
  | done (state : σ) : Runs step guard state [] state
  | next {state middle last : σ} {event : ε} {rest : List ε}
      (admitted : guard state event) (stepped : step state event = some middle)
      (tail : Runs step guard middle rest last) :
      Runs step guard state (event :: rest) last

/-- The guard that excludes no event. -/
def unguarded : σ → ε → Prop := fun _ _ => True

variable {step : σ → ε → Option σ} {guard : σ → ε → Prop}

/-- An unguarded run is exactly a completed execution. -/
theorem runs_iff_exec (start last : σ) (events : List ε) :
    Runs step unguarded start events last ↔ exec step start events = some last := by
  constructor
  · intro run
    induction run with
    | done state => rfl
    | next admitted stepped tail inductionHypothesis =>
      simp only [exec, stepped, Option.bind_some, inductionHypothesis]
  · intro executed
    induction events generalizing start with
    | nil =>
      cases Option.some.inj executed
      exact .done _
    | cons event rest inductionHypothesis =>
      obtain ⟨middle, stepped, continued⟩ := Option.bind_eq_some_iff.mp executed
      exact .next trivial stepped (inductionHypothesis middle continued)

/-- Execute while checking a decidable guard before each event. -/
def execGuarded (step : σ → ε → Option σ) (guard : σ → ε → Prop)
    [∀ state event, Decidable (guard state event)] (start : σ) (events : List ε) : Option σ :=
  exec (fun state event => if guard state event then step state event else none) start events

/-- A completed checked execution is a guarded run. -/
theorem runs_of_execGuarded [∀ state event, Decidable (guard state event)]
    {start last : σ} {events : List ε}
    (executed : execGuarded step guard start events = some last) :
    Runs step guard start events last := by
  induction events generalizing start with
  | nil =>
    cases Option.some.inj executed
    exact .done _
  | cons event rest inductionHypothesis =>
    obtain ⟨middle, checked, continued⟩ := Option.bind_eq_some_iff.mp executed
    by_cases admitted : guard start event
    · exact .next admitted (by simpa only [admitted, ↓reduceIte] using checked)
        (inductionHypothesis continued)
    · simp only [admitted, ↓reduceIte, reduceCtorEq] at checked

/-- A property kept by each admitted step is kept by a whole guarded run. -/
theorem Runs.invariant {invariant : σ → Prop}
    (kept : ∀ state event next, invariant state → guard state event →
      step state event = some next → invariant next)
    {start last : σ} {events : List ε} (run : Runs step guard start events last)
    (initial : invariant start) : invariant last := by
  induction run with
  | done state => exact initial
  | next admitted stepped tail inductionHypothesis =>
    exact inductionHypothesis (kept _ _ _ initial admitted stepped)

/-- A run under a stronger guard is a run under a weaker one. -/
theorem Runs.weaken {weaker : σ → ε → Prop}
    (implied : ∀ state event, guard state event → weaker state event)
    {start last : σ} {events : List ε} (run : Runs step guard start events last) :
    Runs step weaker start events last := by
  induction run with
  | done state => exact .done state
  | next admitted stepped tail inductionHypothesis =>
    exact .next (implied _ _ admitted) stepped inductionHypothesis

/-- Forget the guard. -/
theorem Runs.forget {start last : σ} {events : List ε}
    (run : Runs step guard start events last) : Runs step unguarded start events last :=
  run.weaken (fun _ _ _ => trivial)

/-- Runs compose end to end. -/
theorem Runs.append {start middle last : σ} {before after : List ε}
    (first : Runs step guard start before middle) (second : Runs step guard middle after last) :
    Runs step guard start (before ++ after) last := by
  induction first with
  | done state => exact second
  | next admitted stepped tail inductionHypothesis =>
    exact .next admitted stepped (inductionHypothesis second)

/-- The accepted steps of an execution, each with the state it finds and the one
it leaves. -/
def transitions (step : σ → ε → Option σ) : σ → List ε → List (σ × ε × σ)
  | _, [] => []
  | start, event :: rest =>
    match step start event with
    | none => []
    | some next => (start, event, next) :: transitions step next rest

/-- Each recorded transition is a step. -/
theorem step_of_transition {start before after : σ} {events : List ε} {event : ε}
    (member : (before, event, after) ∈ transitions step start events) :
    step before event = some after := by
  induction events generalizing start with
  | nil => simp [transitions] at member
  | cons first rest inductionHypothesis =>
    cases stepped : step start first with
    | none => simp [transitions, stepped] at member
    | some next =>
      simp only [transitions, stepped, List.mem_cons, Prod.mk.injEq] at member
      obtain ⟨rfl, rfl, rfl⟩ | later := member
      · exact stepped
      · exact inductionHypothesis later

/-- A run whose recorded transitions all meet a guard is a run under that guard. -/
theorem Runs.guarded {start last : σ} {events : List ε}
    (run : Runs step unguarded start events last)
    (admitted : ∀ before event after, (before, event, after) ∈ transitions step start events →
      guard before event) : Runs step guard start events last := by
  induction run with
  | done state => exact .done state
  | @next state middle last event rest _ stepped tail inductionHypothesis =>
    refine .next (admitted state event middle ?_) stepped (inductionHypothesis ?_)
    · simp only [transitions, stepped, List.mem_cons, true_or]
    · intro before event after member
      apply admitted before event after
      simp only [transitions, stepped]
      exact List.mem_cons_of_mem _ member

/-- The step that follows a completed execution is one of the longer one's. -/
theorem transition_after {start before after : σ} {events : List ε} {event : ε}
    (executed : exec step start events = some before) (stepped : step before event = some after) :
    (before, event, after) ∈ transitions step start (events ++ [event]) := by
  induction events generalizing start with
  | nil =>
    cases Option.some.inj executed
    simp [transitions, stepped]
  | cons first rest inductionHypothesis =>
    obtain ⟨middle, firstStep, continued⟩ := Option.bind_eq_some_iff.mp executed
    simp only [List.cons_append, transitions, firstStep]
    exact List.mem_cons_of_mem _ (inductionHypothesis continued)

/-- Executions compose end to end. -/
theorem exec_append (start : σ) (before after : List ε) :
    exec step start (before ++ after) =
      (exec step start before).bind (fun middle => exec step middle after) := by
  induction before generalizing start with
  | nil => rfl
  | cons event rest inductionHypothesis =>
    cases stepped : step start event with
    | none => simp [exec, stepped]
    | some next => simpa [exec, stepped] using inductionHypothesis next

/-- An execution goes on with one more step. -/
theorem exec_snoc {start before after : σ} {events : List ε} {event : ε}
    (executed : exec step start events = some before) (stepped : step before event = some after) :
    exec step start (events ++ [event]) = some after := by
  rw [exec_append, executed]
  simp [exec, stepped]

/-- A law of each admitted step from a state with the invariant is a law of every
step of a guarded run. -/
theorem Runs.every_step {invariant : σ → Prop} {law : σ → ε → σ → Prop}
    (kept : ∀ state event next, invariant state → guard state event →
      step state event = some next → invariant next)
    (lawful : ∀ state event next, invariant state → guard state event →
      step state event = some next → law state event next)
    {start last : σ} {events : List ε} (run : Runs step guard start events last)
    (initial : invariant start) :
    ∀ before event after, (before, event, after) ∈ transitions step start events →
      law before event after := by
  induction run with
  | done state =>
    intro before event after member
    exact absurd member List.not_mem_nil
  | next admitted stepped tail inductionHypothesis =>
    intro before event after member
    simp only [transitions, stepped, List.mem_cons, Prod.mk.injEq] at member
    obtain ⟨rfl, rfl, rfl⟩ | later := member
    · exact lawful _ _ _ initial admitted stepped
    · exact inductionHypothesis (kept _ _ _ initial admitted stepped) before event after later

/-- The same for every accepted step of a list of events, of which some may be refused. -/
theorem every_transition {invariant : σ → Prop} {law : σ → ε → σ → Prop}
    (kept : ∀ state event next, invariant state → step state event = some next → invariant next)
    (lawful : ∀ state event next, invariant state → step state event = some next →
      law state event next)
    {start : σ} {events : List ε} (initial : invariant start) :
    ∀ before event after, (before, event, after) ∈ transitions step start events →
      law before event after := by
  intro before event after member
  induction events generalizing start with
  | nil => exact absurd member List.not_mem_nil
  | cons first rest inductionHypothesis =>
    cases stepped : step start first with
    | none => simp [transitions, stepped] at member
    | some next =>
      simp only [transitions, stepped, List.mem_cons, Prod.mk.injEq] at member
      obtain ⟨rfl, rfl, rfl⟩ | later := member
      · exact lawful _ _ _ initial stepped
      · exact inductionHypothesis (kept _ _ _ initial stepped) later

/-- What an observer sees of a run: the labels of its observable steps, each
read in the state its event finds. -/
def trace (step : σ → ε → Option σ) (observed : σ → ε → Option label) :
    σ → List ε → List label
  | _, [] => []
  | start, event :: rest =>
    (observed start event).toList ++
      ((step start event).map (fun next => trace step observed next rest)).getD []

/-- Events that lower a well-founded rank at every step they make do not go on without
end. -/
theorem no_endless_chain {ρ : Type*} {lower : ρ → ρ → Prop} (wellFounded : WellFounded lower)
    (rank : σ → ρ) (among : ε → Prop)
    (lowers : ∀ state event next, among event → step state event = some next →
      lower (rank next) (rank state)) :
    ¬ ∃ chain : Nat → σ, ∀ time, ∃ event, among event ∧
      step (chain time) event = some (chain (time + 1)) := by
  rintro ⟨chain, continues⟩
  have descends (time : Nat) : lower (rank (chain (time + 1))) (rank (chain time)) := by
    obtain ⟨event, isAmong, stepped⟩ := continues time
    exact lowers _ event _ isAmong stepped
  exact (wellFounded_iff_isEmpty_descending_chain.mp wellFounded).false
    ⟨fun time => rank (chain time), descends⟩

/-- Something came about at an event of a past: what is said of it may mention the events
before it, the state they led to and the event itself. -/
def Occurred (step : σ → ε → Option σ) (start : σ) (what : List ε → σ → ε → Prop)
    (past : List ε) : Prop :=
  ∃ earlier event later before, past = earlier ++ event :: later ∧
    exec step start earlier = some before ∧ what earlier before event

/-- What occurred stays part of a longer past. -/
theorem Occurred.later {start : σ} {what : List ε → σ → ε → Prop} {past : List ε}
    (occurred : Occurred step start what past) (event : ε) :
    Occurred step start what (past ++ [event]) := by
  obtain ⟨earlier, cause, between, before, rfl, executed, holds⟩ := occurred
  exact ⟨earlier, cause, between ++ [event], before, by simp, executed, holds⟩

/-- What an event brings about has occurred after it. -/
theorem Occurred.now {start before : σ} {what : List ε → σ → ε → Prop} {past : List ε}
    (executed : exec step start past = some before) {event : ε} (holds : what past before event) :
    Occurred step start what (past ++ [event]) :=
  ⟨past, event, [], before, rfl, executed, holds⟩

/-- What each step keeps about the past and the state it led to, whole executions keep. -/
theorem exec_history {invariant : List ε → σ → Prop} {start : σ} (initial : invariant [] start)
    (kept : ∀ past before event after, exec step start past = some before → invariant past before →
      step before event = some after → invariant (past ++ [event]) after)
    {events : List ε} {last : σ} (executed : exec step start events = some last) :
    invariant events last := by
  induction events using List.reverseRecOn generalizing last with
  | nil =>
    cases Option.some.inj executed
    exact initial
  | append_singleton past event inductionHypothesis =>
    rw [exec_append, Option.bind_eq_some_iff] at executed
    obtain ⟨before, earlier, continued⟩ := executed
    obtain ⟨after, stepped, rest⟩ := Option.bind_eq_some_iff.mp continued
    cases Option.some.inj rest
    exact kept past before event _ earlier (inductionHypothesis earlier) stepped

/-- When every admitted step keeps an invariant and a charged one costs the budget one, a
run takes no more charged events than the budget it starts with. -/
theorem Runs.charged {invariant : σ → Prop} (budget : σ → Nat) (charged : ε → Bool)
    (kept : ∀ state event next, invariant state → guard state event →
      step state event = some next → invariant next)
    (costs : ∀ state event next, invariant state → guard state event →
      step state event = some next → budget next + (if charged event then 1 else 0) ≤ budget state)
    {start last : σ} {events : List ε} (run : Runs step guard start events last)
    (initial : invariant start) : budget last + events.countP charged ≤ budget start := by
  induction run with
  | done state => simp
  | @next state middle last event rest admitted stepped tail inductionHypothesis =>
    have cost := costs state event middle initial admitted stepped
    have spent := inductionHypothesis (kept state event middle initial admitted stepped)
    rw [List.countP_cons]
    omega

section Checked

/-- A completed execution whose last state passes a check is a run. -/
theorem exists_run {check : σ → Prop} [DecidablePred check] {start : σ} {events : List ε}
    (ran : (exec step start events).any (fun last => decide (check last)) = true) :
    ∃ last, Runs step unguarded start events last ∧ check last := by
  obtain ⟨last, executed, checked⟩ := (Option.any_eq_true _ _).mp ran
  exact ⟨last, (runs_iff_exec start last events).mpr executed, of_decide_eq_true checked⟩

/-- A completed guarded execution whose last state passes a check is a guarded run. -/
theorem exists_guarded_run [∀ state event, Decidable (guard state event)] {check : σ → Prop}
    [DecidablePred check] {start : σ} {events : List ε}
    (ran : (execGuarded step guard start events).any (fun last => decide (check last)) = true) :
    ∃ last, Runs step guard start events last ∧ check last := by
  obtain ⟨last, executed, checked⟩ := (Option.any_eq_true _ _).mp ran
  exact ⟨last, runs_of_execGuarded executed, of_decide_eq_true checked⟩

/-- A step after a completed execution is the last transition of a run. -/
theorem exists_transition {check : σ → σ → Prop} [∀ before after, Decidable (check before after)]
    {start : σ} {events : List ε} {event : ε}
    (ran : (exec step start events).any (fun before =>
      (step before event).any (fun after => decide (check before after))) = true) :
    ∃ before after, Runs step unguarded start (events ++ [event]) after ∧
      (before, event, after) ∈ transitions step start (events ++ [event]) ∧ check before after := by
  obtain ⟨before, executed, rest⟩ := (Option.any_eq_true _ _).mp ran
  obtain ⟨after, stepped, checked⟩ := (Option.any_eq_true _ _).mp rest
  exact ⟨before, after, (runs_iff_exec _ _ _).mpr (exec_snoc executed stepped),
    transition_after executed stepped, of_decide_eq_true checked⟩

end Checked

section Observer

variable {ν : Type*} {observed : σ → ε → Option label} {follow : ν → label → Option ν}
  {related : σ → ν → Prop}

/-- An observer machine that follows every observable step, and that no
unobservable step disturbs, follows a whole guarded run by its labels alone. -/
theorem Runs.followed
    (visible : ∀ state event next view seen, guard state event →
      step state event = some next → related state view → observed state event = some seen →
      ∃ after, follow view seen = some after ∧ related next after)
    (silent : ∀ state event next view, guard state event →
      step state event = some next → related state view → observed state event = none →
      related next view)
    {start last : σ} {events : List ε} (run : Runs step guard start events last)
    {view : ν} (initial : related start view) :
    ∃ after, exec follow view (trace step observed start events) = some after ∧
      related last after := by
  induction run generalizing view with
  | done state => exact ⟨view, rfl, initial⟩
  | @next state middle last event rest admitted stepped tail inductionHypothesis =>
    cases seen : observed state event with
    | none =>
      have kept := silent state event middle view admitted stepped initial seen
      simpa only [trace, seen, stepped, Option.toList_none, List.nil_append, Option.map_some,
        Option.getD_some] using inductionHypothesis kept
    | some shown =>
      obtain ⟨after, followed, kept⟩ :=
        visible state event middle view shown admitted stepped initial seen
      simpa only [trace, seen, stepped, Option.toList_some, List.singleton_append,
        Option.map_some, Option.getD_some, exec, followed, Option.bind_some]
        using inductionHypothesis kept

/-- Two guarded runs that show an observer the same labels leave it in one and
the same state, related to both final states. -/
theorem Runs.indistinguishable
    (visible : ∀ state event next view seen, guard state event →
      step state event = some next → related state view → observed state event = some seen →
      ∃ after, follow view seen = some after ∧ related next after)
    (silent : ∀ state event next view, guard state event →
      step state event = some next → related state view → observed state event = none →
      related next view)
    {start first second : σ} {firstEvents secondEvents : List ε}
    (firstRun : Runs step guard start firstEvents first)
    (secondRun : Runs step guard start secondEvents second)
    (same : trace step observed start firstEvents = trace step observed start secondEvents)
    {view : ν} (initial : related start view) :
    ∃ after, related first after ∧ related second after := by
  obtain ⟨after, followed, firstRelated⟩ := firstRun.followed visible silent initial
  obtain ⟨other, otherFollowed, secondRelated⟩ := secondRun.followed visible silent initial
  have one : after = other := by
    rw [same] at followed
    exact Option.some.inj (followed.symm.trans otherFollowed)
  exact ⟨after, firstRelated, one ▸ secondRelated⟩

end Observer

end GuardedRuns
