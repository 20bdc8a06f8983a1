import Amigo.Remote.ClientRefines

/-!
# Pending writes can always be sent

No run leads the client into a state it cannot leave: with the network switched on, the
timers and the server left to do their work, its tasks run out and then every pending
write of the user signed in is committed and answered. Each round gives up the call
there may be, waits, opens a new one, shakes hands, and has the first batch answered;
the rounds are counted by the batches that wait.
-/

namespace Amigo.Firestore

open LawfulMutationQueue

variable {Store User M : Type}

/-- An event that needs no one but the network and the server, beside a wish to be online. -/
def Event.helps : Event User M → Bool
  | .api .enableNetwork => true
  | .api _ | .signIn _ => false
  | _ => true

variable [DecidableEq User] [MutationQueue Store User M]

namespace System

/-- Events that help lead from one state to another. -/
def Leads (before after : System Store User M) : Prop :=
  ∃ events : List (Event User M), (∀ event ∈ events, event.helps = true) ∧
    events.foldlM step before = some after

namespace Leads

variable {first second third : System Store User M}

/-- A system leads to itself. -/
theorem rfl : Leads first first := ⟨[], nofun, Eq.refl _⟩

/-- It leads to where one helping event leads. -/
theorem one {event : Event User M} (helps : event.helps = true)
    (happens : first.step event = some second) : Leads first second :=
  ⟨[event], by simpa using helps, by simpa using happens⟩

/-- And on from there. -/
theorem trans (before : Leads first second) (after : Leads second third) : Leads first third := by
  obtain ⟨events, helpful, leads⟩ := before
  obtain ⟨others, alike, goesOn⟩ := after
  refine ⟨events ++ others, ?_, ?_⟩
  · intro event member
    obtain early | late := List.mem_append.mp member
    · exact helpful event early
    · exact alike event late
  · rw [List.foldlM_append, leads]
    exact goesOn

end Leads

variable [LawfulMutationQueue Store User M] {system : System Store User M}

open FirestoreClient

/-- Where an event happens, the state after it is sound. -/
theorem Sound.after (sound : system.Sound) {event : Event User M} {after : System Store User M}
    (happens : system.step event = some after) : after.Sound := by
  have fine : ¬ system.EndsWithWork event := by
    intro ends
    rw [sound.step_none ends] at happens
    cases happens
  obtain ⟨reached, isReached, kept, _⟩ := sound.step fine
  obtain rfl := Option.some.inj (isReached.symm.trans happens)
  exact kept

section Tasks

variable {task : Task User M} {rest : List (Task User M)}

/-- No task changes who is signed in. -/
theorem Sound.run_credentials (sound : system.Sound) (next : system.tasks = task :: rest)
    {client : FirestoreClient Store User M} (runs : system.client.run task = some client) :
    client.remote.credentials = system.client.remote.credentials := by
  cases task with
  | request callback asked =>
    cases asked with
    | write mutations =>
      cases mutations with
      | nil =>
        obtain rfl := Option.some.inj runs
        rfl
      | cons mutation others =>
        obtain ⟨after, _, writes, _, _, frame⟩ :=
          sound.client.writeMutations (List.cons_ne_nil mutation others) callback
        obtain rfl := Option.some.inj (writes.symm.trans runs)
        exact frame.credentials
    | waitForPendingWrites =>
      obtain rfl := Option.some.inj runs
      rfl
    | enableNetwork =>
      obtain ⟨remote, enables, _, _, _, credentials, _⟩ :=
        sound.client.toSound.enable sound.client.shaken
      simp only [FirestoreClient.run, enables, Option.map_some, Option.some.injEq] at runs
      exact runs ▸ credentials
    | disableNetwork =>
      obtain ⟨remote, disables, _, _, _, credentials, _⟩ := sound.client.disableNetwork
      simp only [FirestoreClient.run, disables, Option.map_some, Option.some.injEq] at runs
      exact runs ▸ credentials
  | credentialChange user =>
    obtain ⟨remote, changes, _, steady, _⟩ := sound.client.handleCredentialChange user
    obtain rfl := Option.some.inj (changes.symm.trans runs)
    exact steady.credentials
  | token closeCount token =>
    by_cases current : system.client.remote.closeCount = closeCount
    · have resumes : system.client.resumeStartWithCredentials (token.mapError Subtype.val) =
          some client := by simpa [FirestoreClient.run, current] using runs
      rw [resumeStartWithCredentials.eq_def] at resumes
      by_cases starting : system.client.remote.state = .starting
      · cases token with
        | ok user =>
          cases unshaken : system.client.remote.handshakeComplete with
          | false =>
            simp only [starting, guard, ↓reduceIte, Except.mapError, RemoteStore.onStreamStart,
              RemoteStore.writeHandshake, unshaken, RemoteStore.write] at resumes
            obtain rfl := Option.some.inj resumes
            rfl
          | true =>
            simp [starting, Except.mapError, RemoteStore.onStreamStart,
              RemoteStore.writeHandshake, unshaken] at resumes
        | error failure =>
          have started := (RemoteStore.isStarted_iff _).mpr (.inl starting)
          obtain ⟨after, closes, _, closed, _⟩ := sound.client.failed started failure.property
          have same : system.client.close failure.val = some client := by
            simpa [starting, Except.mapError] using resumes
          obtain rfl := Option.some.inj (closes.symm.trans same)
          exact closed.credentials
      · simp [starting] at resumes
    · have still : some system.client = some client := by
        simpa [FirestoreClient.run, current] using runs
      obtain rfl := Option.some.inj still
      rfl

/-- The tasks before some are run, and nothing else. -/
theorem Sound.runsFront (sound : system.Sound) (front : List (Task User M))
    (split : system.tasks = front ++ rest) :
    ∃ after, system.Leads after ∧ after.Sound ∧ after.tasks = rest ∧
      after.client.remote.credentials = system.client.remote.credentials := by
  induction front generalizing system with
  | nil => exact ⟨system, .rfl, sound, split, rfl⟩
  | cons task others inductionHypothesis =>
    have next : system.tasks = task :: (others ++ rest) := split
    obtain ⟨reached, happens, kept, _⟩ := sound.runTask
    obtain ⟨client, runs, isReached⟩ : ∃ client, system.client.run task = some client ∧
        some { system with client, tasks := others ++ rest } = some reached := by
      simpa [System.step, next, Option.bind_eq_some_iff] using happens
    obtain rfl := Option.some.inj isReached
    obtain ⟨after, leads, later, done, same⟩ := inductionHypothesis kept rfl
    exact ⟨after, (Leads.one rfl happens).trans leads, later, done,
      same.trans (sound.run_credentials next runs)⟩

end Tasks

/-- What holds of a state that is idle and online, of a user with batches that wait. -/
structure Ready (user : User) (waiting : List (MutationBatch M)) (system : System Store User M) :
    Prop where
  sound : system.Sound
  credentials : system.client.remote.credentials = user
  tasks : system.tasks = []
  online : system.client.remote.isNetworkEnabled = true
  waiting : system.client.engine.waiting = waiting

/-- A wish to be online is met once every task has run. -/
theorem Sound.readies (sound : system.Sound) :
    ∃ after waiting, system.Leads after ∧
      Ready system.client.remote.credentials waiting after := by
  have wishes : system.step (.api .enableNetwork) = some { system with
      calls := system.calls ++ [⟨system.client.remote.credentials, .enableNetwork⟩]
      tasks := system.tasks ++ [.request system.calls.length .enableNetwork] } := rfl
  obtain ⟨last, leads, kept, next, same⟩ := (sound.after wishes).runsFront system.tasks rfl
  obtain ⟨remote, enables, _, online, _, credentials, _⟩ :=
    kept.client.toSound.enable kept.client.shaken
  have happens : last.step .runTask = some { last with
      client := FirestoreClient.tell system.calls.length .ok ⟨last.client.engine, remote⟩
      tasks := [] } := by
    simp [System.step, next, FirestoreClient.run, enables]
  exact ⟨_, _, (Leads.one rfl wishes).trans (leads.trans (.one rfl happens)),
    kept.after happens, credentials.trans same, rfl, online, rfl⟩

variable {user : User} {waiting : List (MutationBatch M)}

/-- With batches that wait, the pipeline has work and the stream is started. -/
theorem Ready.works (ready : Ready user waiting system) (waits : waiting ≠ []) :
    system.client.remote.writePipeline ≠ [] ∧ system.client.remote.isStarted = true := by
  have work : system.client.remote.writePipeline ≠ [] := by
    rw [ready.sound.client.full, ready.waiting, if_pos ready.online]
    simp [kMaxPendingWrites, waits]
  exact ⟨work, ready.sound.client.needed ready.online work⟩

end System

namespace FirestoreClient

variable [LawfulMutationQueue Store User M] {queued : Nat → Nat} {client : FirestoreClient Store User M}

/-- A stream with work that fails for now pauses. -/
theorem Settled.pauses (settled : client.Settled queued) (started : client.remote.isStarted = true)
    (online : client.remote.isNetworkEnabled = true) (work : client.remote.writePipeline ≠ [])
    {error : Error} (fails : error ≠ .ok)
    (passing : client.remote.handshakeComplete = true →
      isPermanentWriteError error = some false) :
    ∃ after, client.close error = some after ∧ after.remote.state = .backoff ∧
      after.remote.isNetworkEnabled = true ∧
      after.remote.credentials = client.remote.credentials ∧
      after.engine.waiting = client.engine.waiting := by
  obtain ⟨permanent, isPermanent⟩ : ∃ permanent, isPermanentError error = some permanent := by
    cases error <;> first | exact ⟨_, rfl⟩ | exact absurd rfl fails
  obtain ⟨engine, lastStreamToken, handles⟩ : ∃ engine lastStreamToken,
      FirestoreClient.handleStreamError error ⟨client.engine, client.remote.shut .error⟩ =
        some ⟨engine, { client.remote.shut .error with lastStreamToken }⟩ := by
    cases shaken : client.remote.handshakeComplete with
    | true =>
      exact ⟨client.engine, client.remote.lastStreamToken, by
        simp [FirestoreClient.handleStreamError, RemoteStore.shut, work, shaken, fails,
          handleWriteError, passing shaken]⟩
    | false =>
      cases permanent with
      | false =>
        exact ⟨client.engine, client.remote.lastStreamToken, by
          simp [FirestoreClient.handleStreamError, RemoteStore.shut, work, shaken, fails,
            handleHandshakeError, isPermanent]⟩
      | true =>
        exact ⟨{ client.engine with
            store := MutationQueue.setLastStreamToken [] client.engine.store }, [], by
          simp [FirestoreClient.handleStreamError, RemoteStore.shut, work, shaken, fails,
            handleHandshakeError, isPermanent]⟩
  have starts : FirestoreClient.startIfNeeded
      ⟨engine, { client.remote.shut .error with lastStreamToken }⟩ = some ⟨engine,
        { client.remote.shut .error with lastStreamToken, state := .backoff, backoff := true }⟩ := by
    simp [FirestoreClient.startIfNeeded, RemoteStore.shouldStartWriteStream,
      RemoteStore.canUseNetwork, RemoteStore.isStarted, RemoteStore.startWriteStream,
      RemoteStore.start, RemoteStore.backoffAndTryRestarting, RemoteStore.shut, online, work]
  obtain ⟨after, closes, _, closed, kept | ⟨_, _, _, shaken, permanently, _⟩⟩ :=
    settled.failed started fails
  · refine ⟨after, closes, ?_, closed.enabled.trans online, closed.credentials, kept.waiting⟩
    rw [close_error started fails, handles, Option.bind_some, starts, Option.map_some] at closes
    obtain rfl := Option.some.inj closes
    rfl
  · rw [passing shaken] at permanently
    cases permanently

end FirestoreClient

namespace System

variable [LawfulMutationQueue Store User M] {system : System Store User M}
  {user : User} {waiting : List (MutationBatch M)}

/-- An open call is given up. -/
theorem Ready.breaksOff (ready : Ready user waiting system) (waits : waiting ≠ [])
    (opened : system.client.remote.state = .opened) :
    ∃ after, system.Leads after ∧ Ready user waiting after ∧
      after.client.remote.state = .backoff := by
  obtain ⟨work, started⟩ := ready.works waits
  have fails : Error.unavailable ≠ .ok := by decide
  obtain ⟨client, closes, pauses, online, credentials, same⟩ :=
    ready.sound.client.pauses started ready.online work fails fun _ => rfl
  have called := ready.sound.client.shape.called.mpr opened
  have happens : system.step (.breakOff .unavailable) = some (system.withClient client) := by
    simp [System.step, called, closes]
  exact ⟨_, .one rfl happens, ⟨ready.sound.after happens, credentials.trans ready.credentials,
    ready.tasks, online, same.trans ready.waiting⟩, pauses⟩

/-- A stream that waits for its token is refused. -/
theorem Ready.refused (ready : Ready user waiting system) (waits : waiting ≠ [])
    (starting : system.client.remote.state = .starting) :
    ∃ after, system.Leads after ∧ Ready user waiting after ∧
      after.client.remote.state = .backoff := by
  have counted := ready.sound.client.shape.asked
  rw [ready.tasks, if_pos starting] at counted
  obtain ⟨request, member, current⟩ : ∃ request ∈ system.client.remote.tokenRequests,
      decide (request.closeCount = system.client.remote.closeCount) = true := by
    refine List.countP_pos_iff.mp ?_
    simp only [RemoteStore.asking, awaited, List.countP_nil] at counted
    omega
  obtain ⟨index, found⟩ := List.mem_iff_getElem?.mp member
  have unshaken : system.client.remote.handshakeComplete ≠ true := by
    intro shaken
    have opened := ready.sound.client.shaken shaken
    rw [starting] at opened
    cases opened
  let answered (failure : Failure) : System Store User M := { system with
    client := { system.client with remote := { system.client.remote with
      tokenRequests := system.client.remote.tokenRequests.eraseIdx index } }
    tasks := [.token system.client.remote.closeCount (.error failure)] }
  obtain ⟨failure, asks⟩ : ∃ failure, system.step (.tokenAnswered index
      (some ⟨.unavailable, by decide⟩)) = some (answered failure) := by
    simp only [System.step, tokenAnswered, found, ready.tasks, List.nil_append,
      of_decide_eq_true current]
    split
    · exact ⟨_, rfl⟩
    · exact ⟨_, rfl⟩
  have asked := ready.sound.after asks
  have begun : (answered failure).client.remote.state = .starting := starting
  obtain ⟨client, closes, pauses, online, credentials, same⟩ := asked.client.pauses
    ((RemoteStore.isStarted_iff _).mpr (.inl begun)) ready.online (ready.works waits).1
    failure.property fun shaken => absurd shaken unshaken
  have resumes : (answered failure).client.run (.token (answered failure).client.remote.closeCount
      (.error failure)) = some client := by
    simpa [FirestoreClient.run, Except.mapError, FirestoreClient.resumeStartWithCredentials, begun]
      using closes
  have happens : (answered failure).step .runTask =
      some { answered failure with client, tasks := [] } :=
    congrArg (fun result : Option (FirestoreClient Store User M) => result.bind fun client =>
      some (System.mk client [] system.calls system.committed)) resumes
  exact ⟨_, (Leads.one rfl asks).trans (.one rfl happens), ⟨asked.after happens,
    credentials.trans ready.credentials, rfl, online, same.trans ready.waiting⟩, pauses⟩

/-- The pause ends, a token comes, and a call opens and shakes hands. -/
theorem Ready.reopens (ready : Ready user waiting system)
    (paused : system.client.remote.state = .backoff) :
    ∃ after, system.Leads after ∧ Ready user waiting after ∧
      ∃ call, after.client.remote.call = some call ∧ call.responses = [⟨0, []⟩] ∧
        call.finished = none ∧ after.client.remote.handshakeComplete = false := by
  have backoff := ready.sound.client.shape.paused.mpr paused
  have unshaken : system.client.remote.handshakeComplete = false := by
    by_contra shaken
    have opened := ready.sound.client.shaken (by simpa using shaken)
    rw [paused] at opened
    cases opened
  let remote := system.client.remote
  let asking : RemoteStore User M := { remote with
    state := .starting
    backoff := false
    tokenRequests := remote.tokenRequests ++ [⟨remote.tokenCounter, remote.closeCount⟩] }
  have elapses : system.step .backoffElapsed =
      some (system.withClient { system.client with remote := asking }) := by
    simp [System.step, backoff, RemoteStore.backoffElapsed, paused, RemoteStore.start,
      RemoteStore.requestCredentials, RemoteStore.isStarted, asking, remote]
  let answered : System Store User M := { system with
    client := { system.client with remote := { asking with
      tokenRequests := remote.tokenRequests } }
    tasks := [.token remote.closeCount (.ok remote.credentials)] }
  have answers : System.step (system.withClient { system.client with remote := asking })
      (.tokenAnswered remote.tokenRequests.length none) = some answered := by
    simp [System.step, System.tokenAnswered, withClient, asking, answered, ready.tasks, remote,
      List.eraseIdx_append_of_length_le]
  let opened : System Store User M := { answered with
    client := { answered.client with remote := { answered.client.remote with
      state := .opened
      idlenessTimer := false
      call := some ⟨remote.credentials, [.handshake], [], none⟩ } }
    tasks := [] }
  have opens : answered.step .runTask = some opened := by
    simp [System.step, answered, FirestoreClient.run, Except.mapError, opened, asking, remote,
      FirestoreClient.resumeStartWithCredentials, RemoteStore.onStreamStart,
      RemoteStore.writeHandshake, RemoteStore.write, unshaken]
  have reads : opened.step (.serverReads []) =
      some (opened.withCall ⟨remote.credentials, [], [⟨0, []⟩], none⟩) := rfl
  exact ⟨_, (Leads.one rfl elapses).trans ((Leads.one rfl answers).trans
      ((Leads.one rfl opens).trans (.one rfl reads))),
    ⟨(((ready.sound.after elapses).after answers).after opens).after reads, ready.credentials, rfl,
      ready.online, ready.waiting⟩, _, rfl, rfl, rfl, unshaken⟩

/-- Hands are shaken: the pipeline is under way. -/
theorem Ready.shakes (ready : Ready user waiting system) {call : Call User M}
    (isCall : system.client.remote.call = some call) (next : call.responses = [⟨0, []⟩])
    (lasting : call.finished = none)
    (shaking : system.client.remote.handshakeComplete = false) :
    ∃ after, system.Leads after ∧ Ready user waiting after ∧
      after.client.remote.handshakeComplete = true ∧ ∃ sent,
        after.client.remote.call = some sent ∧ sent.responses = [] ∧ sent.finished = none := by
  obtain ⟨client, reads, _, steady, _, _, _, kept, shaken, online, sent, isSent, silent, same⟩ :=
    ready.sound.client.handshake isCall next shaking
  have happens : system.step .deliver = some (system.withClient client) := by
    simp [System.step, FirestoreClient.deliver, isCall, next, reads]
  exact ⟨_, .one rfl happens, ⟨ready.sound.after happens,
    steady.credentials.trans ready.credentials, ready.tasks, online.trans ready.online,
    kept.waiting.trans ready.waiting⟩, shaken, sent, isSent, silent, same.trans lasting⟩

/-- The server commits the first batch, and the client learns of it. -/
theorem Ready.settles (ready : Ready user waiting system) (waits : waiting ≠ [])
    (shaken : system.client.remote.handshakeComplete = true) {call : Call User M}
    (isCall : system.client.remote.call = some call) (silent : call.responses = [])
    (lasting : call.finished = none) :
    ∃ after, system.Leads after ∧ Ready user waiting.tail after := by
  have carries := (ready.sound.client.carried call isCall).2
  rw [if_pos shaken] at carries
  obtain ⟨batch, rest, split⟩ := List.exists_cons_of_ne_nil (ready.works waits).1
  have unread := carries.unread
  rw [silent, split] at unread
  obtain ⟨_, requests, ⟨token, rfl⟩, _, asks⟩ := List.forall₂_cons_right_iff.mp unread
  let answer : Response := ⟨batch.mutations.length, []⟩
  let committed : System Store User M :=
    { system.withCall { call with requests, responses := [answer] } with
      committed := system.committed ++
        [⟨system.client.remote.closeCount, call.user, batch.mutations⟩] }
  have commits : system.step (.serverReads []) = some committed := by
    simp [System.step, serverReads, isCall, asks, lasting, silent, committed, answer]
  have read := ready.sound.after commits
  have isAnswered : committed.client.remote.call =
      some { call with requests, responses := [answer] } := rfl
  obtain ⟨client, _, _, reads, _, _, settles, steady, _, _, _, online⟩ :=
    read.client.result isAnswered rfl shaken
  have happens : committed.step .deliver = some (committed.withClient client) :=
    congrArg (fun result : Option (FirestoreClient Store User M) => result.bind fun client =>
      some (committed.withClient client)) reads
  exact ⟨_, (Leads.one rfl commits).trans (.one rfl happens), ⟨read.after happens,
    steady.credentials.trans ready.credentials, ready.tasks, online.trans ready.online,
    settles.waiting.trans (congrArg List.tail ready.waiting)⟩⟩

/-- One round: the first batch that waits is answered, whatever the stream was doing. -/
theorem Ready.round (ready : Ready user waiting system) (waits : waiting ≠ []) :
    ∃ after, system.Leads after ∧ Ready user waiting.tail after := by
  have pauses : ∃ after, system.Leads after ∧ Ready user waiting after ∧
      after.client.remote.state = .backoff := by
    obtain starting | paused | opened := (RemoteStore.isStarted_iff _).mp (ready.works waits).2
    · exact ready.refused waits starting
    · exact ⟨system, .rfl, ready, paused⟩
    · exact ready.breaksOff waits opened
  obtain ⟨first, toFirst, ready, paused⟩ := pauses
  obtain ⟨second, toSecond, ready, call, isCall, next, lasting, shaking⟩ := ready.reopens paused
  obtain ⟨third, toThird, ready, shaken, sent, isSent, silent, lasting⟩ :=
    ready.shakes isCall next lasting shaking
  obtain ⟨last, toLast, ready⟩ := ready.settles waits shaken isSent silent lasting
  exact ⟨last, toFirst.trans (toSecond.trans (toThird.trans toLast)), ready⟩

/-- Round by round the queue runs empty. -/
theorem Ready.drains (ready : Ready user waiting system) :
    ∃ after, system.Leads after ∧ Ready user [] after := by
  induction waiting generalizing system with
  | nil => exact ⟨system, .rfl, ready⟩
  | cons batch rest inductionHypothesis =>
    obtain ⟨reached, leads, later⟩ := ready.round (List.cons_ne_nil batch rest)
    obtain ⟨after, goesOn, drained⟩ := inductionHypothesis later
    exact ⟨after, leads.trans goesOn, drained⟩

/-- From every state the tasks and the queue of the user signed in can run empty. -/
theorem Sound.drains (sound : system.Sound) :
    ∃ after, system.Leads after ∧ Ready system.client.remote.credentials [] after := by
  obtain ⟨reached, _, leads, ready⟩ := sound.readies
  obtain ⟨after, goesOn, drained⟩ := ready.drains
  exact ⟨after, leads.trans goesOn, drained⟩

/-- An idle client works for the user signed in. -/
theorem Ready.current (ready : Ready user waiting system) :
    system.client.engine.currentUser = user := by
  have owned := ready.sound.owned
  rw [ready.tasks, ready.credentials] at owned
  exact owned

end System

end Amigo.Firestore
