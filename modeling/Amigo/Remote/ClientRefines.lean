import Amigo.Remote.EngineBooks

/-!
# The writing client is an outbox

Numbers, pipelines, tokens and retries are forgotten: what is left of a state of the
system is a state of an outbox, and every event takes it through steps of outboxes. An
event fails an assertion only where the call ends with the status of a success while
batches are in the pipeline.
-/

namespace Amigo.Firestore

open LawfulMutationQueue

variable {Store User M : Type}

/-- What a request orders. -/
def ApiRequest.order : ApiRequest M → Outbox.Order M
  | .write mutations => .write mutations
  | .waitForPendingWrites => .wait
  | .enableNetwork | .disableNetwork => .other

/-- The call as the outbox has it. -/
def ApiCall.ordered (call : ApiCall User M) : Outbox.Call User M :=
  ⟨call.user, call.request.order⟩

/-- What a task is to an outbox; a token is nothing. -/
def Task.ordered : Task User M → Option (Outbox.Task User M)
  | .request callback asked => some (.call callback asked.order)
  | .credentialChange user => some (.change user)
  | .token _ _ => none

/-- The commit as the outbox has it. -/
def Commit.plain (commit : Commit User M) : Outbox.Commit User M :=
  ⟨commit.stream, commit.user, commit.mutations⟩

/-- Whether a task brings the token of a stream. -/
def Task.brings (stream : Nat) : Task User M → Bool
  | .token closeCount _ => decide (closeCount = stream)
  | _ => false

/-- The tokens that wait as tasks, by their streams. -/
def awaited (tasks : List (Task User M)) (stream : Nat) : Nat := tasks.countP (Task.brings stream)

/-- A token is that of the user the client will have when it takes it. -/
def Owned (signedIn : User) : User → List (Task User M) → Prop
  | user, [] => user = signedIn
  | user, .request _ _ :: rest => Owned signedIn user rest
  | user, .token _ token :: rest =>
    (∀ owner, token = .ok owner → owner = user) ∧ Owned signedIn user rest
  | _, .credentialChange user :: rest => Owned signedIn user rest

namespace Owned

variable {signedIn user : User} {tasks : List (Task User M)}

/-- A further request is owned by who is signed in. -/
theorem request (owned : Owned signedIn user tasks) (callback : Nat) (asked : ApiRequest M) :
    Owned signedIn user (tasks ++ [.request callback asked]) := by
  induction tasks generalizing user with
  | nil => exact owned
  | cons task rest inductionHypothesis =>
    cases task with
    | request earlier other => exact inductionHypothesis owned
    | credentialChange next => exact inductionHypothesis owned
    | token closeCount token => exact ⟨owned.1, inductionHypothesis owned.2⟩

/-- So is what follows when another user signs in. -/
theorem signsIn (owned : Owned signedIn user tasks) (next : User) :
    Owned next user (tasks ++ [.credentialChange next]) := by
  induction tasks generalizing user with
  | nil => exact rfl
  | cons task rest inductionHypothesis =>
    cases task with
    | request earlier other => exact inductionHypothesis owned
    | credentialChange later => exact inductionHypothesis owned
    | token closeCount token => exact ⟨owned.1, inductionHypothesis owned.2⟩

/-- A new token is that of the user signed in. -/
theorem token (owned : Owned signedIn user tasks) (closeCount : Nat) {token : Except Failure User}
    (current : ∀ owner, token = .ok owner → owner = signedIn) :
    Owned signedIn user (tasks ++ [.token closeCount token]) := by
  induction tasks generalizing user with
  | nil =>
    have same : user = signedIn := owned
    exact ⟨fun owner isOwner => (current owner isOwner).trans same.symm, same⟩
  | cons task rest inductionHypothesis =>
    cases task with
    | request earlier other => exact inductionHypothesis owned
    | credentialChange later => exact inductionHypothesis owned
    | token earlier other => exact ⟨owned.1, inductionHypothesis owned.2⟩

end Owned

variable [DecidableEq User] [MutationQueue Store User M] [LawfulMutationQueue Store User M]

namespace System

/-- What an outbox sees of the system. -/
def outbox (system : System Store User M) : Outbox.State User M Error where
  signedIn := system.client.remote.credentials
  user := system.client.engine.currentUser
  tasks := system.tasks.filterMap Task.ordered
  calls := system.calls.map ApiCall.ordered
  queue := system.client.engine.queue
  told := system.client.engine.told
  stream := system.client.remote.closeCount
  answered := system.client.remote.answered.length
  committed := system.committed.map Commit.plain

/-- Commits come from the streams up to the current one, and from that only once it is
open. -/
def Past (remote : RemoteStore User M) (committed : List (Commit User M)) : Prop :=
  ∀ commit ∈ committed, commit.stream ≤ remote.closeCount ∧
    (remote.state ≠ .opened → commit.stream < remote.closeCount)

/-- What holds between two events. -/
structure Sound (system : System Store User M) : Prop where
  client : system.client.Settled (awaited system.tasks)
  tidy : system.client.engine.Tidy
  owned : Owned system.client.remote.credentials system.client.engine.currentUser system.tasks
  past : Past system.client.remote system.committed

/-- The system comes to a state that is sound, through steps of its outbox. -/
def Advances (before : System Store User M) (result : Option (System Store User M)) : Prop :=
  ∃ after, result = some after ∧ after.Sound ∧ Outbox.Steps verdicts before.outbox after.outbox

end System

section Past

variable {before after : RemoteStore User M} {committed : List (Commit User M)}

omit [DecidableEq User] in
/-- The same stream is open if it was. -/
theorem System.Past.same (past : System.Past before committed)
    (stream : after.closeCount = before.closeCount)
    (opens : before.state = .opened → after.state = .opened) : System.Past after committed := by
  intro commit member
  obtain ⟨upTo, shut⟩ := past commit member
  rw [stream]
  exact ⟨upTo, fun closed => shut fun opened => closed (opens opened)⟩

omit [DecidableEq User] in
/-- Nothing is committed on a stream that is new. -/
theorem System.Past.next (past : System.Past before committed)
    (stream : after.closeCount = before.closeCount + 1) : System.Past after committed := by
  intro commit member
  obtain ⟨upTo, _⟩ := past commit member
  rw [stream]
  exact ⟨by omega, fun _ => by omega⟩

end Past

namespace System

open FirestoreClient

variable {system : System Store User M}

/-- An event an outbox does not see. -/
theorem Advances.still {after : System Store User M} (sound : after.Sound)
    (same : after.outbox = system.outbox) : system.Advances (some after) :=
  ⟨after, rfl, sound, same ▸ .refl⟩

/-- An event that cannot occur. -/
theorem Sound.unchanged (sound : system.Sound) {result : Option (System Store User M)}
    (same : result = some system) : system.Advances result := same ▸ .still sound rfl

/-- An event that is one step of the outbox. -/
theorem Advances.one {after : System Store User M} (sound : after.Sound)
    (step : Outbox.Step verdicts system.outbox after.outbox) : system.Advances (some after) :=
  ⟨after, rfl, sound, .single step⟩

omit [DecidableEq User] [MutationQueue Store User M] [LawfulMutationQueue Store User M] in
/-- A further task is awaited where it brings something. -/
theorem awaited_append (tasks : List (Task User M)) (task : Task User M) (stream : Nat) :
    awaited (tasks ++ [task]) stream =
      awaited tasks stream + if task.brings stream then 1 else 0 := by
  rw [awaited, List.countP_append, List.countP_singleton, awaited]

/-- The app calls. -/
theorem Sound.api (sound : system.Sound) (request : ApiRequest M) :
    system.Advances (system.step (.api request)) := by
  refine .one ⟨sound.client.congr fun stream _ => ?_, sound.tidy, sound.owned.request _ _,
    sound.past⟩ ?_
  · simp [awaited_append, Task.brings]
  · have step : Outbox.Step verdicts system.outbox _ := .calls system.outbox request.order
    simpa [outbox, Task.ordered, ApiCall.ordered] using step

/-- A user signs in. -/
theorem Sound.signIn (sound : system.Sound) (user : User) :
    system.Advances (system.step (.signIn user)) := by
  refine .one ⟨(sound.client.signsIn _ _).congr fun stream _ => ?_, sound.tidy,
    sound.owned.signsIn user, sound.past⟩ ?_
  · simp [awaited_append, Task.brings]
  · have step : Outbox.Step verdicts system.outbox _ := .signsIn system.outbox user
    simpa [outbox, Task.ordered, RemoteStore.answered] using step

/-- A token request is answered with the token of the user signed in, or with a failure. -/
theorem Sound.tokenAnswered (sound : system.Sound) (index : Nat) (failure : Option Failure) :
    system.Advances (system.step (.tokenAnswered index failure)) := by
  cases found : system.client.remote.tokenRequests[index]? with
  | none =>
    have same : system.step (.tokenAnswered index failure) = some system := by
      simp only [step, System.tokenAnswered, found]
    exact same ▸ .still sound rfl
  | some request =>
    simp only [step, System.tokenAnswered, found]
    have brought (token : Except Failure User) (stream : Nat) :
        awaited (system.tasks ++ [.token request.closeCount token]) stream =
          awaited system.tasks stream + if request.closeCount = stream then 1 else 0 := by
      simp [awaited_append, Task.brings]
    refine .still ⟨sound.client.answered found (brought _), sound.tidy,
      sound.owned.token _ ?_, sound.past⟩ ?_
    · intro owner isOwner
      split at isOwner
      · cases isOwner
      · cases failure with
        | none => exact (Except.ok.inj isOwner).symm
        | some failure => cases isOwner
    · simp [outbox, Task.ordered, RemoteStore.answered]

/-- After its pause the stream asks for a token. -/
theorem Sound.backoffElapsed (sound : system.Sound) :
    system.Advances (system.step .backoffElapsed) := by
  simp only [step]
  split
  · rename_i paused
    obtain ⟨remote, elapses, settled, steady, stream, answered⟩ :=
      sound.client.backoffElapsed paused
    have shut : system.client.remote.state ≠ .opened := by
      rw [sound.client.shape.paused.mp paused]
      nofun
    rw [elapses]
    refine .still ⟨settled, sound.tidy, ?_, ?_⟩ ?_
    · show Owned remote.credentials _ _
      rw [steady.credentials]
      exact sound.owned
    · exact sound.past.same stream fun opened => absurd opened shut
    · simp [outbox, withClient, steady.credentials, stream, answered]
  · exact .still sound rfl

/-- The server reads a handshake. -/
theorem Sound.shakes (sound : system.Sound) {call : Call User M}
    (isCall : system.client.remote.call = some call) {rest : List (Request M)}
    (next : call.requests = .handshake :: rest) (streamToken : ByteString) :
    system.Advances (some (system.withCall { call with
      requests := rest
      responses := call.responses ++ [⟨0, streamToken⟩] })) := by
  have carried := (sound.client.carried call isCall).2
  have shaking : system.client.remote.handshakeComplete = false := by
    by_contra shaken
    rw [if_pos (Bool.of_not_eq_false shaken)] at carried
    have unread := carried.unread
    rw [next] at unread
    obtain ⟨_, _, ⟨_, same⟩, _⟩ := List.forall₂_cons_left_iff.mp unread
    cases same
  rw [if_neg (by simp [shaking])] at carried
  obtain ⟨rfl, silent⟩ : rest = [] ∧ call.responses = [] := by
    obtain ⟨asks, silent⟩ | ⟨empty, _⟩ := carried
    · exact ⟨(List.cons.inj (next.symm.trans asks)).2, silent⟩
    · simp [next] at empty
  refine .still ⟨sound.client.recall isCall rfl ?_, sound.tidy, sound.owned,
    sound.past.same rfl id⟩ ?_
  · rw [if_neg (by simp [shaking])]
    exact .inr ⟨rfl, by simp [silent]⟩
  · simp [outbox, withCall, RemoteStore.answered, isCall, shaking]

/-- The server reads a write and commits it. -/
theorem Sound.commits (sound : system.Sound) {call : Call User M}
    (isCall : system.client.remote.call = some call) {mutations : List M} {token : ByteString}
    {rest : List (Request M)} (next : call.requests = .write mutations token :: rest)
    (streamToken : ByteString) :
    system.Advances (some { system.withCall { call with
        requests := rest
        responses := call.responses ++ [⟨mutations.length, streamToken⟩] } with
      committed := system.committed ++
        [⟨system.client.remote.closeCount, call.user, mutations⟩] }) := by
  obtain ⟨same, carried⟩ := sound.client.carried call isCall
  have opened : system.client.remote.state = .opened :=
    sound.client.shape.called.mp (by simp [isCall])
  have shaken : system.client.remote.handshakeComplete = true := by
    by_contra shaking
    rw [if_neg shaking] at carried
    obtain ⟨asks, _⟩ | ⟨empty, _⟩ := carried
    · simp [next] at asks
    · simp [next] at empty
  rw [if_pos shaken] at carried
  obtain ⟨answers, batch, found, isBatch⟩ := carried.answer next streamToken
  have few : call.responses.length < system.client.remote.writePipeline.length :=
    (List.getElem?_eq_some_iff.mp found).1
  have before : system.client.remote.answered.length = call.responses.length := by
    simp only [RemoteStore.answered, isCall, shaken, ↓reduceIte, List.length_take]
    omega
  refine .one ⟨sound.client.recall isCall rfl ?_, sound.tidy, sound.owned, ?_⟩ ?_
  · rwa [if_pos shaken]
  · intro commit member
    obtain earlier | new := List.mem_append.mp member
    · exact sound.past.same rfl id commit earlier
    · cases List.mem_singleton.mp new
      exact ⟨le_rfl, fun closed => absurd opened closed⟩
  · obtain ⟨back, whole⟩ := sound.client.front
    have waits : system.client.engine.waiting[call.responses.length]? = some batch := by
      rw [← whole, List.getElem?_append_left few, found]
    have isNext : (system.outbox.queue system.outbox.user)[system.outbox.answered]? =
        some (system.client.engine.entry system.client.engine.currentUser batch) := by
      show (system.client.engine.waiting.map (system.client.engine.entry _))[
        system.client.remote.answered.length]? = _
      rw [before, List.getElem?_map, waits]
      rfl
    have step : Outbox.Step verdicts system.outbox _ := .commits isNext
    have after : (system.client.remote.writePipeline.take (call.responses.length + 1)).length =
        call.responses.length + 1 := by
      rw [List.length_take]
      omega
    simpa [outbox, withCall, RemoteStore.answered, isCall, shaken, min_eq_left few.le, after, same,
      SyncEngine.entry, isBatch, Commit.plain] using step

/-- The server reads. -/
theorem Sound.serverReads (sound : system.Sound) (streamToken : ByteString) :
    system.Advances (system.step (.serverReads streamToken)) := by
  cases isCall : system.client.remote.call with
  | none => exact sound.unchanged (by simp only [step, System.serverReads, isCall])
  | some call =>
    cases requests : call.requests with
    | nil => exact sound.unchanged (by simp only [step, System.serverReads, isCall, requests])
    | cons request rest =>
      cases finished : call.finished with
      | some status =>
        exact sound.unchanged (by
          cases request <;> simp only [step, System.serverReads, isCall, requests, finished])
      | none =>
        simp only [step, System.serverReads, isCall, requests, finished]
        cases request with
        | handshake =>
          have shakes := sound.shakes isCall requests streamToken
          simpa only [finished] using shakes
        | write mutations token =>
          have commits := sound.commits isCall requests streamToken
          simpa only [finished] using commits

/-- The server ends the call. -/
theorem Sound.serverFinishes (sound : system.Sound) (status : Error) :
    system.Advances (system.step (.serverFinishes status)) := by
  cases isCall : system.client.remote.call with
  | none => exact sound.unchanged (by simp only [step, System.serverFinishes, isCall])
  | some call =>
    cases finished : call.finished with
    | some earlier =>
      exact sound.unchanged (by simp only [step, System.serverFinishes, isCall, finished])
    | none =>
      simp only [step, System.serverFinishes, isCall, finished]
      refine .still ⟨sound.client.recall isCall rfl ?_, sound.tidy, sound.owned,
        sound.past.same rfl id⟩ ?_
      · have carried := (sound.client.carried call isCall).2
        split at carried
        · rename_i shaken
          rw [if_pos shaken]
          exact ⟨carried.answered, carried.unread⟩
        · rename_i shaking
          rw [if_neg shaking]
          exact carried
      · simp only [outbox, withCall, RemoteStore.answered, isCall]
        rfl

section Closing

variable {client : FirestoreClient Store User M} {tasks : List (Task User M)}

/-- A stream is given up, and no batch is settled. -/
theorem Sound.closes (sound : system.Sound) (settled : client.Settled (awaited tasks))
    (closed : Closed system.client.remote client.remote)
    (kept : system.client.engine.Kept client.engine)
    (owned : Owned system.client.remote.credentials system.client.engine.currentUser tasks)
    (ordered : tasks.filterMap Task.ordered = system.tasks.filterMap Task.ordered) :
    system.Advances (some { system with client, tasks }) := by
  refine .one ⟨settled, kept.tidy sound.tidy, ?_, sound.past.next closed.stream⟩ ?_
  · show Owned client.remote.credentials client.engine.currentUser tasks
    rw [closed.credentials, kept.currentUser]
    exact owned
  · have step : Outbox.Step verdicts system.outbox _ := .closes system.outbox
    simpa [outbox, RemoteStore.answered, closed.call, closed.stream, closed.credentials,
      kept.currentUser, kept.queue, kept.told, ordered] using step

/-- A stream is given up with an error that refuses the first batch. -/
theorem Sound.refuses (sound : system.Sound) (settled : client.Settled (awaited tasks))
    (closed : Closed system.client.remote client.remote) {batch : MutationBatch M} {error : Error}
    (fails : error ≠ .ok) (settles : system.client.engine.Settles batch error client.engine)
    (owned : Owned system.client.remote.credentials system.client.engine.currentUser tasks)
    (ordered : tasks.filterMap Task.ordered = system.tasks.filterMap Task.ordered) :
    system.Advances (some { system with client, tasks }) := by
  obtain ⟨rest, first, after⟩ := settles.queue sound.client.valid
  refine .one ⟨settled, settles.tidy sound.tidy, ?_, sound.past.next closed.stream⟩ ?_
  · show Owned client.remote.credentials client.engine.currentUser tasks
    rw [closed.credentials, settles.currentUser]
    exact owned
  · have step : Outbox.Step verdicts system.outbox _ := .refuses first fails
    simpa [outbox, RemoteStore.answered, closed.call, closed.stream, closed.credentials,
      settles.currentUser, after, settles.told, ordered] using step

/-- Closing the stream: with success only where there is no work. -/
theorem Sound.close (sound : system.Sound) (started : system.client.remote.isStarted = true)
    {status : Error} (spare : status = .ok → system.client.remote.writePipeline = []) :
    ∃ client, system.client.close status = some client ∧
      system.Advances (some (system.withClient client)) := by
  by_cases success : status = .ok
  · subst success
    have empty := spare rfl
    refine ⟨_, ?_, sound.closes (sound.client.ended empty) ⟨rfl, rfl, rfl, rfl, rfl⟩
      (.rfl sound.client.valid sound.client.owner) sound.owned rfl⟩
    rw [close_ok _ started, if_neg (by simp [empty])]
  · obtain ⟨client, closes, settled, closed, moves⟩ := sound.client.failed started success
    refine ⟨client, closes, ?_⟩
    obtain kept | ⟨batch, rest, _, _, _, settles⟩ := moves
    · exact sound.closes settled closed kept sound.owned rfl
    · exact sound.refuses settled closed success settles sound.owned rfl

/-- A graceful end of a call that is needed fails the assertion. -/
theorem Sound.close_none (sound : system.Sound)
    (started : system.client.remote.isStarted = true)
    (work : system.client.remote.writePipeline ≠ []) : system.client.close .ok = none := by
  have online : system.client.remote.isNetworkEnabled = true := by
    by_contra offline
    exact work (sound.client.offline (by simpa using offline)).2
  rw [close_ok _ started, if_pos ⟨online, work⟩]

end Closing

/-- An open stream without work is closed after a while. -/
theorem Sound.idleTimeout (sound : system.Sound) :
    system.Advances (system.step .idleTimeout) := by
  simp only [step]
  split
  · rename_i timer
    obtain ⟨opened, _, empty⟩ := sound.client.idle timer
    have spare : Error.ok = .ok → system.client.remote.writePipeline = [] := fun _ => empty
    obtain ⟨client, closes, advances⟩ := sound.close
      ((RemoteStore.isStarted_iff _).mpr (.inr (.inr opened))) spare
    rw [closes]
    exact advances
  · exact .still sound rfl

/-- An open call has a started stream. -/
theorem Sound.started (sound : system.Sound) {call : Call User M}
    (isCall : system.client.remote.call = some call) : system.client.remote.isStarted = true :=
  (RemoteStore.isStarted_iff _).mpr (.inr (.inr (sound.client.shape.called.mp (by simp [isCall]))))

/-- The client reads a response. -/
theorem Sound.responds (sound : system.Sound) {call : Call User M}
    (isCall : system.client.remote.call = some call) {response : Response} {rest : List Response}
    (next : call.responses = response :: rest) :
    ∃ client, onStreamRead response (system.client.withResponses call rest) = some client ∧
      system.Advances (some (system.withClient client)) := by
  have opened : system.client.remote.state = .opened :=
    sound.client.shape.called.mp (by simp [isCall])
  cases shaken : system.client.remote.handshakeComplete with
  | false =>
    have shakes := (sound.client.carried call isCall).2
    rw [if_neg (by simp [shaken])] at shakes
    obtain rfl : rest = [] := by
      obtain ⟨_, silent⟩ | ⟨_, _, only⟩ := shakes
      · exact absurd (next.symm.trans silent) (by simp)
      · exact (List.cons.inj (next.symm.trans only)).2
    obtain ⟨client, reads, settled, steady, stream, answered, opens, kept, _⟩ :=
      sound.client.handshake isCall next shaken
    refine ⟨client, reads, .still ⟨settled, kept.tidy sound.tidy, ?_,
      sound.past.same stream fun _ => opens⟩ ?_⟩
    · show Owned client.remote.credentials client.engine.currentUser system.tasks
      rw [steady.credentials, kept.currentUser]
      exact sound.owned
    · have before : system.client.remote.answered = [] := by
        simp [RemoteStore.answered, isCall, shaken]
      simp [outbox, withClient, steady.credentials, kept.currentUser, kept.queue, kept.told, stream,
        answered, before]
  | true =>
    obtain ⟨client, batch, remaining, reads, settled, split, settles, steady, stream, answered,
      opens, _⟩ := sound.client.result isCall next shaken
    obtain ⟨others, first, after⟩ := settles.queue sound.client.valid
    have some : 0 < system.client.remote.answered.length := by
      simp [RemoteStore.answered, isCall, shaken, next, split]
    refine ⟨client, reads, .one ⟨settled, settles.tidy sound.tidy, ?_,
      sound.past.same stream fun _ => opens⟩ ?_⟩
    · show Owned client.remote.credentials client.engine.currentUser system.tasks
      rw [steady.credentials, settles.currentUser]
      exact sound.owned
    · have step : Outbox.Step verdicts system.outbox _ := .acknowledges first some
      simpa [outbox, withClient, steady.credentials, settles.currentUser, after, settles.told,
        stream, answered, List.length_tail] using step

/-- An event that ends a call well while there is work. -/
def EndsWithWork (system : System Store User M) : Event User M → Prop
  | .deliver => system.client.remote.writePipeline ≠ [] ∧
    ∃ call, system.client.remote.call = some call ∧ call.responses = [] ∧
      call.finished = some .ok
  | .breakOff status => system.client.remote.writePipeline ≠ [] ∧ status = .ok ∧
    system.client.remote.call.isSome = true
  | _ => False

/-- The client reads the next response, or that the call has ended. -/
theorem Sound.deliver (sound : system.Sound) (fine : ¬ system.EndsWithWork .deliver) :
    system.Advances (system.step .deliver) := by
  cases isCall : system.client.remote.call with
  | none => exact sound.unchanged (by simp [step, FirestoreClient.deliver, isCall, withClient])
  | some call =>
    cases responses : call.responses with
    | cons response rest =>
      obtain ⟨client, reads, advances⟩ := sound.responds isCall responses
      simpa [step, FirestoreClient.deliver, isCall, responses, reads] using advances
    | nil =>
      cases finished : call.finished with
      | none =>
        exact sound.unchanged (by
          simp [step, FirestoreClient.deliver, isCall, responses, finished, withClient])
      | some status =>
        have spare : status = .ok → system.client.remote.writePipeline = [] := by
          rintro rfl
          by_contra work
          exact fine ⟨work, call, isCall, responses, finished⟩
        obtain ⟨client, closes, advances⟩ := sound.close (sound.started isCall) spare
        simpa [step, FirestoreClient.deliver, isCall, responses, finished, closes] using advances

/-- The call breaks off. -/
theorem Sound.breakOff (sound : system.Sound) {status : Error}
    (fine : ¬ system.EndsWithWork (.breakOff status)) :
    system.Advances (system.step (.breakOff status)) := by
  cases isCall : system.client.remote.call with
  | none => exact sound.unchanged (by simp [step, isCall])
  | some call =>
    have spare : status = .ok → system.client.remote.writePipeline = [] := by
      intro success
      by_contra work
      exact fine ⟨work, success, by simp [isCall]⟩
    obtain ⟨client, closes, advances⟩ := sound.close (sound.started isCall) spare
    simpa [step, isCall, closes] using advances

/-- An event that ends a call well while there is work fails an assertion. -/
theorem Sound.step_none (sound : system.Sound) {event : Event User M}
    (ends : system.EndsWithWork event) : system.step event = none := by
  cases event with
  | deliver =>
    obtain ⟨work, call, isCall, responses, finished⟩ := ends
    have closes := sound.close_none (sound.started isCall) work
    simp [step, FirestoreClient.deliver, isCall, responses, finished, closes]
  | breakOff status =>
    obtain ⟨work, rfl, called⟩ := ends
    obtain ⟨call, isCall⟩ := Option.isSome_iff_exists.mp called
    have closes := sound.close_none (sound.started isCall) work
    simp [step, isCall, closes]
  | _ => exact ends.elim

section Tasks

variable {client : FirestoreClient Store User M} {task : Task User M} {rest : List (Task User M)}

/-- The client runs the next task. -/
theorem Sound.runs (next : system.tasks = task :: rest) (runs : system.client.run task = some client)
    (advances : system.Advances (some { system with client, tasks := rest })) :
    system.Advances (system.step .runTask) := by
  simpa [step, next, runs] using advances

/-- A task that brings no token leaves the tokens that wait. -/
theorem Sound.awaits (sound : system.Sound) (next : system.tasks = task :: rest)
    (plain : ∀ stream, task.brings stream = false) : system.client.Settled (awaited rest) := by
  refine sound.client.congr fun stream _ => ?_
  simp [next, awaited, plain]

/-- A write of nothing is done at once. -/
theorem Sound.writesNothing (sound : system.Sound) {callback : Nat}
    (next : system.tasks = .request callback (.write []) :: rest) :
    system.Advances (system.step .runTask) := by
  have settled := sound.awaits next fun _ => rfl
  have owned := sound.owned
  rw [next] at owned
  have runs : system.client.run (.request callback (.write [])) =
      some (system.client.tell callback .ok) := rfl
  refine Sound.runs next runs (.one ⟨settled.told _ _, ⟨sound.tidy.callbacks, sound.tidy.keys,
    sound.tidy.waits⟩, owned, sound.past⟩ ?_)
  have first : system.outbox.tasks = .call callback (.write []) :: rest.filterMap Task.ordered := by
    simp [outbox, next, Task.ordered, ApiRequest.order]
  exact .done first rfl

/-- A write is queued, and sent if there is room for it. -/
theorem Sound.writes (sound : system.Sound) {callback : Nat} {mutations : List M}
    (next : system.tasks = .request callback (.write mutations) :: rest) (some : mutations ≠ []) :
    system.Advances (system.step .runTask) := by
  have settled := sound.awaits next fun _ => rfl
  have owned := sound.owned
  rw [next] at owned
  obtain ⟨after, batchId, writes, kept, adds, frame⟩ := settled.writeMutations some callback
  refine Sound.runs next writes (.one ⟨kept, adds.tidy sound.tidy, ?_,
    sound.past.same frame.stream frame.opens.mpr⟩ ?_)
  · show Owned after.remote.credentials after.engine.currentUser rest
    rw [frame.credentials, adds.currentUser]
    exact owned
  · have first : system.outbox.tasks =
        .call callback (.write mutations) :: rest.filterMap Task.ordered := by
      simp [outbox, next, Task.ordered, ApiRequest.order]
    have step : Outbox.Step verdicts system.outbox _ := .writes first some
    simpa [outbox, frame.credentials, adds.currentUser, adds.queue sound.tidy,
      adds.told sound.tidy, frame.stream, frame.answered] using step

/-- A wait is over at once, or hangs on the last pending batch. -/
theorem Sound.waits (sound : system.Sound) {callback : Nat}
    (next : system.tasks = .request callback .waitForPendingWrites :: rest) :
    system.Advances (system.step .runTask) := by
  have settled := sound.awaits next fun _ => rfl
  have owned := sound.owned
  rw [next] at owned
  have first : system.outbox.tasks = .call callback .wait :: rest.filterMap Task.ordered := by
    simp [outbox, next, Task.ordered, ApiRequest.order]
  have registers : system.client.run (.request callback .waitForPendingWrites) =
      some { system.client with
        engine := system.client.engine.registerPendingWritesCallback callback } := rfl
  obtain none | ⟨front, last, split⟩ := List.eq_nil_or_concat' system.client.engine.waiting
  · rw [SyncEngine.register_nil settled.valid settled.owner none] at registers
    refine Sound.runs next registers (.one ⟨settled.told _ _, ⟨sound.tidy.callbacks,
      sound.tidy.keys, sound.tidy.waits⟩, owned, sound.past⟩ ?_)
    have empty : system.outbox.queue system.outbox.user = [] := by
      show system.client.engine.waiting.map _ = []
      rw [none, List.map_nil]
    exact .done first empty
  · rw [SyncEngine.register_concat settled.valid settled.owner split] at registers
    refine Sound.runs next registers (.one ⟨settled.told _ _,
      SyncEngine.tidy_push sound.tidy split callback, owned, sound.past⟩ ?_)
    have held : system.outbox.queue system.outbox.user =
        front.map (system.client.engine.entry system.client.engine.currentUser) ++
          [system.client.engine.entry system.client.engine.currentUser last] := by
      show system.client.engine.waiting.map _ = _
      rw [split, List.map_append]
      rfl
    have step : Outbox.Step verdicts system.outbox _ := .waits first held
    simpa [outbox, SyncEngine.queue_push settled.valid split callback] using step

/-- The network is switched on. -/
theorem Sound.enables (sound : system.Sound) {callback : Nat}
    (next : system.tasks = .request callback .enableNetwork :: rest) :
    system.Advances (system.step .runTask) := by
  have settled := sound.awaits next fun _ => rfl
  have owned := sound.owned
  rw [next] at owned
  obtain ⟨remote, enables, kept, _, stream, credentials, _, answered, opens⟩ :=
    settled.toSound.enable settled.shaken
  have runs : system.client.run (.request callback .enableNetwork) =
      some (FirestoreClient.tell callback .ok ⟨system.client.engine, remote⟩) := by
    simp [FirestoreClient.run, enables]
  refine Sound.runs next runs (.one ⟨kept.told _ _, ⟨sound.tidy.callbacks, sound.tidy.keys,
    sound.tidy.waits⟩, ?_, sound.past.same stream opens.mpr⟩ ?_)
  · show Owned remote.credentials system.client.engine.currentUser rest
    rw [credentials]
    exact owned
  · have first : system.outbox.tasks = .call callback .other :: rest.filterMap Task.ordered := by
      simp [outbox, next, Task.ordered, ApiRequest.order]
    have step : Outbox.Step verdicts system.outbox _ := .done first trivial
    simpa [outbox, FirestoreClient.tell, credentials, stream, answered] using step

/-- Giving up the stream is a step where there was a call, and none where there was not. -/
theorem moves_steps {before after : RemoteStore User M} (moves : Moves before after)
    {state : Outbox.State User M Error} (stream : state.stream = before.closeCount)
    (answered : state.answered = before.answered.length) :
    Outbox.Steps verdicts state { state with stream := after.closeCount, answered := 0 } := by
  obtain ⟨same, none⟩ | later := moves
  · have unanswered : state.answered = 0 := by simp [answered, RemoteStore.answered, none]
    rw [same, ← stream, ← unanswered]
  · rw [later, ← stream]
    exact .single (.closes state)

omit [DecidableEq User] in
/-- Moves of the remote store keep what has been committed in the past. -/
theorem Past.moves {before after : RemoteStore User M} {committed : List (Commit User M)}
    (past : Past before committed) (closed : before.call = none → before.state ≠ .opened)
    (moves : Moves before after) : Past after committed := by
  obtain ⟨same, none⟩ | later := moves
  · exact past.same same fun opened => absurd opened (closed none)
  · exact past.next later

/-- Without a call the stream is not open. -/
theorem Sound.shut (sound : system.Sound) (none : system.client.remote.call = none) :
    system.client.remote.state ≠ .opened := by
  intro opened
  have called := sound.client.shape.called.mpr opened
  simp [none] at called

/-- The network is switched off. -/
theorem Sound.disables (sound : system.Sound) {callback : Nat}
    (next : system.tasks = .request callback .disableNetwork :: rest) :
    system.Advances (system.step .runTask) := by
  have settled := sound.awaits next fun _ => rfl
  have owned := sound.owned
  rw [next] at owned
  obtain ⟨remote, disables, kept, moves, none, credentials, _⟩ := settled.disableNetwork
  have runs : system.client.run (.request callback .disableNetwork) =
      some (FirestoreClient.tell callback .ok ⟨system.client.engine, remote⟩) := by
    simp [FirestoreClient.run, disables]
  refine Sound.runs next runs ⟨_, rfl, ⟨kept.told _ _, ⟨sound.tidy.callbacks, sound.tidy.keys,
    sound.tidy.waits⟩, ?_, sound.past.moves sound.shut moves⟩, ?_⟩
  · show Owned remote.credentials system.client.engine.currentUser rest
    rw [credentials]
    exact owned
  · have first : system.outbox.tasks = .call callback .other :: rest.filterMap Task.ordered := by
      simp [outbox, next, Task.ordered, ApiRequest.order]
    have step : Outbox.Step verdicts system.outbox _ := .done first trivial
    refine .head step ?_
    have closes : Outbox.Steps verdicts { system.outbox with
        tasks := rest.filterMap Task.ordered
        told := system.outbox.told ++ [(callback, verdicts.done)] } _ := moves_steps moves rfl rfl
    have unanswered : remote.answered = [] := by simp [RemoteStore.answered, none]
    simpa [outbox, FirestoreClient.tell, credentials, unanswered] using closes

/-- The user of the client changes. -/
theorem Sound.changes (sound : system.Sound) {user : User}
    (next : system.tasks = .credentialChange user :: rest) :
    system.Advances (system.step .runTask) := by
  have settled := sound.awaits next fun _ => rfl
  have owned := sound.owned
  rw [next] at owned
  obtain ⟨remote, changes, kept, steady, moves, none⟩ := settled.handleCredentialChange user
  obtain ⟨_, _, current, _⟩ := changeUser_spec settled.valid settled.owner user
  have past := sound.past.moves sound.shut moves
  have shut : remote.state ≠ .opened := by
    intro opened
    have called := kept.shape.called.mpr opened
    simp [none] at called
  have unanswered : remote.answered = [] := by simp [RemoteStore.answered, none]
  refine Sound.runs next changes ⟨_, rfl, ⟨kept,
    SyncEngine.changeUser_tidy settled.valid sound.tidy user, ?_, past⟩, ?_⟩
  · show Owned remote.credentials (system.client.engine.changeUser user).currentUser rest
    rw [steady.credentials, current]
    exact owned
  -- the stream is given up under the user before, whose waits are given up after it
  have closes : Outbox.Steps verdicts system.outbox _ := moves_steps moves rfl rfl
  refine closes.tail ?_
  have first : system.outbox.tasks = .change user :: rest.filterMap Task.ordered := by
    simp [outbox, next, Task.ordered]
  by_cases same : user = system.client.engine.currentUser
  · subst same
    have still : system.client.engine.changeUser system.client.engine.currentUser =
        system.client.engine := by simp [SyncEngine.changeUser]
    have step : Outbox.Step verdicts { system.outbox with
        stream := remote.closeCount
        answered := 0 } _ := .stays first
    simpa [outbox, still, steady.credentials, unanswered] using step
  · have idle : ∀ commit ∈ system.outbox.committed, commit.stream < remote.closeCount := by
      intro commit member
      obtain ⟨earlier, isCommit, rfl⟩ := List.mem_map.mp member
      exact (past earlier isCommit).2 shut
    have step : Outbox.Step verdicts { system.outbox with
        stream := remote.closeCount
        answered := 0 } _ :=
      .changes first same (SyncEngine.waiting_perm settled.valid sound.tidy) idle rfl
    simpa [outbox, current, SyncEngine.changeUser_told _ same,
      SyncEngine.changeUser_queue settled.valid same, steady.credentials, unanswered] using step

/-- A token comes: of an earlier stream it is dropped, of this one it opens the call, and
without a token the stream fails. -/
theorem Sound.takesToken (sound : system.Sound) {closeCount : Nat} {token : Except Failure User}
    (next : system.tasks = .token closeCount token :: rest) :
    system.Advances (system.step .runTask) := by
  have owned := sound.owned
  rw [next] at owned
  obtain ⟨isOwner, owned⟩ := owned
  have taken (stream : Nat) : awaited system.tasks stream =
      awaited rest stream + if closeCount = stream then 1 else 0 := by
    rw [awaited, next, List.countP_cons]
    simp [awaited, Task.brings]
  have ordered : rest.filterMap Task.ordered = system.tasks.filterMap Task.ordered := by
    rw [next, List.filterMap_cons_none rfl]
  by_cases current : system.client.remote.closeCount = closeCount
  · subst current
    have counted := sound.client.shape.asked
    rw [taken, if_pos rfl] at counted
    have starting : system.client.remote.state = .starting := by
      by_contra other
      rw [if_neg other] at counted
      omega
    cases token with
    | ok owner =>
      obtain rfl := isOwner owner rfl
      have left (stream : Nat) : awaited system.tasks stream =
          awaited rest stream + if stream = system.client.remote.closeCount then 1 else 0 := by
        simp only [taken, eq_comm]
      obtain ⟨remote, opens, settled, steady, stream, unanswered⟩ :=
        sound.client.opened starting left
      have runs : system.client.run (.token system.client.remote.closeCount
          (.ok system.client.engine.currentUser)) = some ⟨system.client.engine, remote⟩ := by
        simpa [FirestoreClient.run, Except.mapError] using opens
      refine Sound.runs next runs (.still ⟨settled, sound.tidy, ?_, ?_⟩ ?_)
      · show Owned remote.credentials system.client.engine.currentUser rest
        rw [steady.credentials]
        exact owned
      · refine sound.past.same stream fun opened => ?_
        rw [starting] at opened
        cases opened
      · have none : system.client.remote.call = none := by
          by_contra some
          have opened := sound.client.shape.called.mp (Option.isSome_iff_ne_none.mpr some)
          rw [starting] at opened
          cases opened
        have before : system.client.remote.answered = [] := by simp [RemoteStore.answered, none]
        simp [outbox, steady.credentials, stream, unanswered, before, ordered]
    | error failure =>
      obtain ⟨client, refuses, settled, closed, kept⟩ := sound.client.refused starting failure
        fun stream later => by rw [taken, if_neg later.ne, Nat.add_zero]
      have runs : system.client.run (.token system.client.remote.closeCount (.error failure)) =
          some client := by
        simpa [FirestoreClient.run, Except.mapError] using refuses
      exact Sound.runs next runs (sound.closes settled closed kept owned ordered)
  · have runs : system.client.run (.token closeCount token) = some system.client := by
      simp [FirestoreClient.run, current]
    have early : closeCount < system.client.remote.closeCount := by
      by_contra late
      have none := sound.client.shape.future closeCount (by omega)
      rw [taken, if_pos rfl] at none
      omega
    refine Sound.runs next runs (.still ⟨sound.client.congr fun stream later => ?_, sound.tidy,
      owned, sound.past⟩ ?_)
    · rw [taken, if_neg (by omega), Nat.add_zero]
    · simp [outbox, ordered]

end Tasks

/-- The client runs its next task. -/
theorem Sound.runTask (sound : system.Sound) : system.Advances (system.step .runTask) := by
  cases next : system.tasks with
  | nil => exact sound.unchanged (by simp [step, next])
  | cons task rest =>
    cases task with
    | request callback asked =>
      cases asked with
      | write mutations =>
        cases mutations with
        | nil => exact sound.writesNothing next
        | cons first others => exact sound.writes next (List.cons_ne_nil first others)
      | waitForPendingWrites => exact sound.waits next
      | enableNetwork => exact sound.enables next
      | disableNetwork => exact sound.disables next
    | credentialChange user => exact sound.changes next
    | token closeCount token => exact sound.takesToken next

/-- Every event but a graceful end of a call that is needed takes the outbox through its
steps. -/
theorem Sound.step (sound : system.Sound) {event : Event User M}
    (fine : ¬ system.EndsWithWork event) : system.Advances (system.step event) := by
  cases event with
  | api request => exact sound.api request
  | signIn user => exact sound.signIn user
  | tokenAnswered index failure => exact sound.tokenAnswered index failure
  | runTask => exact sound.runTask
  | backoffElapsed => exact sound.backoffElapsed
  | idleTimeout => exact sound.idleTimeout
  | serverReads streamToken => exact sound.serverReads streamToken
  | serverFinishes status => exact sound.serverFinishes status
  | deliver => exact sound.deliver fine
  | breakOff status => exact sound.breakOff fine

end System

end Amigo.Firestore
