import Mathlib.Data.List.Perm.Basic
import Mathlib.Data.List.Infix
import Mathlib.Logic.Relation
import Mathlib.Logic.Function.Basic

/-!
# Outboxes

What a client with queued writes is for, told without numbers, pipelines or streams. It
keeps an outbox for each user. A call of the app is an order, carried out in its turn
under the user signed in by then; a write goes to the end of the outbox of its user;
a wait hangs on the last entry. The server commits entries of the current user in order,
on one stream at a time, and answers in that order; the first entry leaves with its
answer, and with it its callback and whoever hangs on it are told. When a stream is
given up, the entries it has committed without an answer stay and are sent again.
-/

namespace Outbox

/-- The statuses of what went well and of what was given up. -/
structure Verdicts (Status : Type) where
  done : Status
  cancelled : Status
  apart : cancelled ≠ done

/-- What the app can ask. -/
inductive Order (M : Type) where
  | write (mutations : List M)
  | wait
  | other
deriving DecidableEq

/-- A call of the app under the user signed in when it was made. -/
structure Call (User M : Type) where
  user : User
  order : Order M
deriving DecidableEq

/-- What is to be carried out. -/
inductive Task (User M : Type) where
  | call (callback : Nat) (order : Order M)
  | change (user : User)
deriving DecidableEq

/-- An entry of an outbox, with the callback of its write and those that wait for it. -/
structure Entry (M : Type) where
  mutations : List M
  callback : Option Nat
  waiters : List Nat
deriving DecidableEq

/-- A write the server has committed. -/
structure Commit (User M : Type) where
  stream : Nat
  user : User
  mutations : List M
deriving DecidableEq

/-- The outboxes of all users, what the app has been told, and what is committed. -/
structure State (User M Status : Type) where
  signedIn : User
  user : User
  tasks : List (Task User M)
  calls : List (Call User M)
  queue : User → List (Entry M)
  told : List (Nat × Status)
  stream : Nat
  answered : Nat
  committed : List (Commit User M)

variable {User M Status : Type} [DecidableEq User]

/-- Those that wait in a queue. -/
def waiting (queue : List (Entry M)) : List Nat := queue.flatMap Entry.waiters

/-- An order that is done at once. -/
def Prompt (queue : List (Entry M)) : Order M → Prop
  | .write mutations => mutations = []
  | .wait => queue = []
  | .other => True

/-- An entry for which no one waits any more. -/
def Entry.release (entry : Entry M) : Entry M := { entry with waiters := [] }

/-- What a settled entry tells. -/
def Entry.news (verdicts : Verdicts Status) (status : Status) (entry : Entry M) :
    List (Nat × Status) :=
  entry.callback.toList.map (fun callback => (callback, status)) ++
    entry.waiters.map (fun callback => (callback, verdicts.done))

/-- One step. -/
inductive Step (verdicts : Verdicts Status) : State User M Status → State User M Status → Prop
  | calls (state : State User M Status) (order : Order M) :
      Step verdicts state { state with
        calls := state.calls ++ [⟨state.signedIn, order⟩]
        tasks := state.tasks ++ [.call state.calls.length order] }
  | signsIn (state : State User M Status) (user : User) :
      Step verdicts state { state with
        signedIn := user
        tasks := state.tasks ++ [.change user] }
  | writes {state : State User M Status} {callback : Nat} {mutations : List M}
      {rest : List (Task User M)} (next : state.tasks = .call callback (.write mutations) :: rest)
      (some : mutations ≠ []) :
      Step verdicts state { state with
        tasks := rest
        queue := Function.update state.queue state.user
          (state.queue state.user ++ [⟨mutations, .some callback, []⟩]) }
  | done {state : State User M Status} {callback : Nat} {order : Order M}
      {rest : List (Task User M)} (next : state.tasks = .call callback order :: rest)
      (prompt : Prompt (state.queue state.user) order) :
      Step verdicts state { state with
        tasks := rest
        told := state.told ++ [(callback, verdicts.done)] }
  | waits {state : State User M Status} {callback : Nat} {rest : List (Task User M)}
      {front : List (Entry M)} {last : Entry M}
      (next : state.tasks = .call callback .wait :: rest)
      (split : state.queue state.user = front ++ [last]) :
      Step verdicts state { state with
        tasks := rest
        queue := Function.update state.queue state.user
          (front ++ [{ last with waiters := last.waiters ++ [callback] }]) }
  | stays {state : State User M Status} {rest : List (Task User M)}
      (next : state.tasks = .change state.user :: rest) :
      Step verdicts state { state with tasks := rest }
  | changes {state : State User M Status} {user : User} {rest : List (Task User M)}
      {cancelled : List Nat} (next : state.tasks = .change user :: rest)
      (other : user ≠ state.user) (order : cancelled.Perm (waiting (state.queue state.user)))
      (idle : ∀ commit ∈ state.committed, commit.stream < state.stream)
      (unanswered : state.answered = 0) :
      Step verdicts state { state with
        user
        tasks := rest
        told := state.told ++ cancelled.map (fun callback => (callback, verdicts.cancelled))
        queue := Function.update state.queue state.user
          ((state.queue state.user).map Entry.release) }
  | closes (state : State User M Status) :
      Step verdicts state { state with stream := state.stream + 1, answered := 0 }
  | commits {state : State User M Status} {entry : Entry M}
      (next : (state.queue state.user)[state.answered]? = some entry) :
      Step verdicts state { state with
        answered := state.answered + 1
        committed := state.committed ++ [⟨state.stream, state.user, entry.mutations⟩] }
  | acknowledges {state : State User M Status} {entry : Entry M} {rest : List (Entry M)}
      (first : state.queue state.user = entry :: rest) (answered : 0 < state.answered) :
      Step verdicts state { state with
        queue := Function.update state.queue state.user rest
        told := state.told ++ entry.news verdicts verdicts.done
        answered := state.answered - 1 }
  | refuses {state : State User M Status} {entry : Entry M} {rest : List (Entry M)}
      {status : Status} (first : state.queue state.user = entry :: rest)
      (fails : status ≠ verdicts.done) :
      Step verdicts state { state with
        queue := Function.update state.queue state.user rest
        told := state.told ++ entry.news verdicts status
        stream := state.stream + 1
        answered := 0 }

/-- Any number of steps. -/
abbrev Steps (verdicts : Verdicts Status) :
    State User M Status → State User M Status → Prop := Relation.ReflTransGen (Step verdicts)

/-- A start with what an earlier session has left. -/
structure Starts (state : State User M Status) : Prop where
  user : state.signedIn = state.user
  tasks : state.tasks = []
  calls : state.calls = []
  told : state.told = []
  answered : state.answered = 0
  committed : state.committed = []
  restored : ∀ user, ∀ entry ∈ state.queue user, entry.callback = none ∧ entry.waiters = []

end Outbox
