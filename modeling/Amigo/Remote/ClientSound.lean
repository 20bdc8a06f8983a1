import Amigo.Remote.PipelineSound

/-!
# What a task changes

A task of the client either leaves the books alone, or takes the first batch of the
current user out of the queue and tells the callbacks it concerns, or adds a write, or
changes the user. Every task finds and leaves the pipeline filled, and fails no
assertion, but for one: a call the server ends with the status of a success while
batches are in the pipeline.
-/

namespace Amigo.Firestore

open LawfulMutationQueue

variable {Store User M : Type}

namespace RemoteStore

/-- The stream without its call and its timers. -/
def shut (state : StreamState) (remote : RemoteStore User M) : RemoteStore User M :=
  { remote with
    idlenessTimer := false
    backoff := false
    closeCount := remote.closeCount + 1
    call := none
    state }

/-- A shut stream has the shape of one at rest. -/
theorem Shape.shut {queued : Nat → Nat} {remote : RemoteStore User M}
    (shape : remote.Shape queued) {state : StreamState} (rests : state = .initial ∨ state = .error) :
    (remote.shut state).Shape queued := by
  have none : (remote.shut state).asking = 0 := by
    rw [asking, List.countP_eq_zero]
    intro request member same
    have earlier := shape.past request member
    have later : request.closeCount = remote.closeCount + 1 := of_decide_eq_true same
    omega
  have quiet : queued (remote.closeCount + 1) = 0 := shape.future _ (Nat.lt_succ_self _)
  refine ⟨?_, ?_, ?_, ?_, ?_⟩
  · obtain rfl | rfl := rests <;> simp [RemoteStore.shut]
  · obtain rfl | rfl := rests <;> simp [RemoteStore.shut]
  · rw [none, show queued (remote.shut state).closeCount = 0 from quiet]
    obtain rfl | rfl := rests <;> rfl
  · intro request member
    exact (shape.past request member).trans (Nat.le_succ _)
  · intro stream later
    exact shape.future stream ((Nat.lt_succ_self _).trans later)

end RemoteStore

variable [DecidableEq User]

namespace SyncEngine

/-- Tell the callbacks that a batch concerns. -/
def conclude (batchId : Int) (status : Error) (engine : SyncEngine Store User) :
    SyncEngine Store User :=
  (engine.notifyUser batchId status).triggerPendingWriteCallbacks batchId

/-- Concluding a batch keeps the user. -/
@[simp] theorem conclude_currentUser (batchId : Int) (status : Error)
    (engine : SyncEngine Store User) :
    (conclude batchId status engine).currentUser = engine.currentUser := by
  simp only [conclude, notifyUser, triggerPendingWriteCallbacks]
  cases engine.mutationCallbacks engine.currentUser batchId <;>
    cases engine.pendingWritesCallbacks.find? (fun entry => entry.1 = batchId) <;> rfl

/-- It keeps the store. -/
@[simp] theorem store_conclude (batchId : Int) (status : Error)
    (engine : SyncEngine Store User) : (conclude batchId status engine).store = engine.store := by
  simp only [conclude, notifyUser, triggerPendingWriteCallbacks]
  cases engine.mutationCallbacks engine.currentUser batchId <;>
    cases engine.pendingWritesCallbacks.find? (fun entry => entry.1 = batchId) <;> rfl

/-- It does not depend on the store. -/
theorem conclude_store (batchId : Int) (status : Error) (engine : SyncEngine Store User)
    (store : Store) :
    conclude batchId status { engine with store } =
      { conclude batchId status engine with store } := by
  simp only [conclude, notifyUser, triggerPendingWriteCallbacks]
  cases engine.mutationCallbacks engine.currentUser batchId <;>
    cases engine.pendingWritesCallbacks.find? (fun entry => entry.1 = batchId) <;> rfl

end SyncEngine

variable [MutationQueue Store User M] [LawfulMutationQueue Store User M]

namespace SyncEngine

/-- The books are left alone, but for the stored stream token. -/
structure Kept (before after : SyncEngine Store User) : Prop where
  ledger : { before with store := after.store } = after
  valid : Valid after.store
  owner : user after.store = after.currentUser
  pending : pending after.store = pending before.store

/-- The first batch of the current user is settled with a status. -/
structure Settles (batch : MutationBatch M) (status : Error) (before after : SyncEngine Store User) :
    Prop where
  first : ∃ rest, before.waiting = batch :: rest
  ledger : { before.conclude batch.batchId status with store := after.store } = after
  valid : Valid after.store
  owner : user after.store = after.currentUser
  pending : pending after.store =
    Function.update (pending before.store) before.currentUser before.waiting.tail

/-- What keeps the books keeps what waits. -/
theorem Kept.waiting {before after : SyncEngine Store User} (kept : before.Kept after) :
    after.waiting = before.waiting := by
  rw [SyncEngine.waiting, kept.pending, SyncEngine.waiting, ← kept.ledger]

/-- Settling a batch takes the first that waits. -/
theorem Settles.waiting {batch : MutationBatch M} {status : Error}
    {before after : SyncEngine Store User} (settles : before.Settles batch status after) :
    after.waiting = before.waiting.tail := by
  have same : after.currentUser = before.currentUser := by
    rw [← settles.ledger]
    exact conclude_currentUser batch.batchId status before
  rw [SyncEngine.waiting, settles.pending, same, Function.update_self]

variable {engine : SyncEngine Store User} {batch : MutationBatch M} {rest : List (MutationBatch M)}

/-- An acknowledged batch that is the first of its queue is settled. -/
theorem handleSuccessfulWrite_spec (valid : Valid engine.store)
    (owner : user engine.store = engine.currentUser) (first : engine.waiting = batch :: rest)
    (token : ByteString) :
    ∃ after, engine.handleSuccessfulWrite batch token = some after ∧
      engine.Settles batch .ok after := by
  have front : pending engine.store (user engine.store) = batch :: rest := by rw [owner]; exact first
  obtain ⟨acknowledged, acknowledges, valid, owned, same⟩ := acknowledge_spec valid front token
  have still : pending acknowledged (user acknowledged) = batch :: rest := by rw [same, owned, front]
  obtain ⟨removed, removes, kept, stays, shorter⟩ := remove_spec valid still
  refine ⟨{ engine.conclude batch.batchId .ok with store := removed }, ?_,
    ⟨rest, first⟩, rfl, kept, ?_, ?_⟩
  · have stored : ((engine.notifyUser batch.batchId .ok).triggerPendingWriteCallbacks
        batch.batchId).store = engine.store := store_conclude batch.batchId .ok engine
    simp [handleSuccessfulWrite, acknowledgeBatch, stored, acknowledges, removes, check_spec kept,
      conclude]
  · rw [stays, owned, owner, conclude_currentUser]
  · rw [shorter, same, owned, owner, first, List.tail_cons]

/-- A refused batch that is the first of its queue is settled. -/
theorem handleRejectedWrite_spec (valid : Valid engine.store)
    (owner : user engine.store = engine.currentUser) (first : engine.waiting = batch :: rest)
    (status : Error) :
    ∃ after, engine.handleRejectedWrite batch.batchId status = some after ∧
      engine.Settles batch status after := by
  have front : pending engine.store (user engine.store) = batch :: rest := by rw [owner]; exact first
  obtain ⟨removed, removes, kept, stays, shorter⟩ := remove_spec valid front
  have found := lookup_spec valid batch.batchId
  rw [front, List.find?_cons_of_pos (by simp)] at found
  refine ⟨{ engine.conclude batch.batchId status with store := removed }, ?_,
    ⟨rest, first⟩, rfl, kept, ?_, ?_⟩
  · simp only [handleRejectedWrite, rejectBatch, found, removes, check_spec kept, Option.bind_eq_bind,
      Option.bind_some]
    exact congrArg some (conclude_store batch.batchId status engine removed)
  · rw [stays, owner, conclude_currentUser]
  · rw [shorter, owner, first, List.tail_cons]

/-- What keeps the books keeps the user. -/
theorem Kept.currentUser {before after : SyncEngine Store User} (kept : before.Kept after) :
    after.currentUser = before.currentUser := by rw [← kept.ledger]

/-- So does settling a batch. -/
theorem Settles.currentUser {status : Error} {before after : SyncEngine Store User}
    (settles : before.Settles batch status after) : after.currentUser = before.currentUser := by
  rw [← settles.ledger]
  exact conclude_currentUser batch.batchId status before

/-- Doing nothing keeps the books. -/
theorem Kept.rfl (valid : Valid engine.store) (owner : user engine.store = engine.currentUser) :
    engine.Kept engine := ⟨Eq.refl _, valid, owner, Eq.refl _⟩

/-- Storing a stream token leaves the books alone. -/
theorem Kept.token (valid : Valid engine.store) (owner : user engine.store = engine.currentUser)
    (token : ByteString) :
    engine.Kept { engine with store := MutationQueue.setLastStreamToken token engine.store } := by
  obtain ⟨kept, owned, same⟩ := token_spec valid token
  exact ⟨Eq.refl _, kept, owned.trans owner, same⟩

end SyncEngine

namespace FirestoreClient

variable {queued : Nat → Nat} {client : FirestoreClient Store User M}

/-- A stream that is not started has no call. -/
theorem Sound.isCall (sound : client.Sound queued) (stopped : client.remote.isStarted = false) :
    client.remote.call = none := by
  by_contra some
  have opened := sound.shape.called.mp (Option.isSome_iff_ne_none.mpr some)
  simp [RemoteStore.isStarted, opened] at stopped

/-- A stream that is closed leaves the pipeline as it is. -/
theorem Sound.shut (sound : client.Sound queued) {state : StreamState}
    (rests : state = .initial ∨ state = .error) :
    Sound queued ⟨client.engine, client.remote.shut state⟩ := by
  have stopped : (client.remote.shut state).isStarted = false := by
    obtain rfl | rfl := rests <;> rfl
  exact ⟨sound.shape.shut rests, sound.valid, sound.owner, sound.front, sound.bounded,
    fun offline => ⟨stopped, (sound.offline offline).2⟩, nofun,
    fun started => absurd (stopped ▸ started) (by simp), nofun⟩

/-- The first batch leaves the pipeline of a stopped stream as it leaves the queue. -/
theorem Sound.settle (sound : client.Sound queued) (stopped : client.remote.isStarted = false)
    {batch : MutationBatch M} {rest : List (MutationBatch M)} {status : Error}
    (split : client.remote.writePipeline = batch :: rest) {engine : SyncEngine Store User}
    (settles : client.engine.Settles batch status engine) :
    Sound queued ⟨engine, { client.remote with writePipeline := rest }⟩ := by
  have shorter : rest <+: client.engine.waiting.tail := by
    obtain ⟨back, whole⟩ := sound.front
    rw [split] at whole
    exact ⟨back, by rw [← whole]; rfl⟩
  have bounded := sound.bounded
  rw [split, List.length_cons] at bounded
  refine ⟨⟨sound.shape.paused, sound.shape.called, sound.shape.asked, sound.shape.past,
    sound.shape.future⟩, settles.valid, settles.owner, settles.waiting ▸ shorter,
    (Nat.le_succ _).trans bounded, ?_, ?_, ?_, ?_⟩
  · intro offline
    have empty := (sound.offline offline).2
    rw [split] at empty
    exact absurd empty (by simp)
  · intro timer
    have empty := (sound.idle timer).2.2
    rw [split] at empty
    exact absurd empty (by simp)
  · exact fun started => absurd (stopped ▸ started) (by simp)
  · intro call (isCall : client.remote.call = some call)
    rw [sound.isCall stopped] at isCall
    cases isCall

/-- A stream token concerns no batch. -/
theorem Sound.kept (sound : client.Sound queued) {engine : SyncEngine Store User}
    (kept : client.engine.Kept engine) (lastStreamToken : ByteString) :
    Sound queued ⟨engine, { client.remote with lastStreamToken }⟩ := by
  refine ⟨⟨sound.shape.paused, sound.shape.called, sound.shape.asked, sound.shape.past,
    sound.shape.future⟩, kept.valid, kept.owner, kept.waiting ▸ sound.front, sound.bounded,
    sound.offline, sound.idle, sound.busy, fun call isCall => ?_⟩
  rw [kept.currentUser]
  exact sound.carried call isCall

/-- A stream that is not open forgets the handshake. -/
theorem Filled.reset (filled : client.Filled queued) (closed : client.remote.state ≠ .opened) :
    Settled queued ⟨client.engine, { client.remote with handshakeComplete := false }⟩ := by
  refine ⟨⟨⟨⟨filled.shape.paused, filled.shape.called, filled.shape.asked, filled.shape.past,
    filled.shape.future⟩, filled.valid, filled.owner, filled.front, filled.bounded, filled.offline,
    ?_, ?_, ?_⟩, filled.full, filled.needed⟩, nofun⟩
  · exact fun timer => absurd (filled.idle timer).1 closed
  · exact fun started _ => filled.busy started (fun opens => closed opens.1)
  · intro call (isCall : client.remote.call = some call)
    exact absurd (filled.shape.called.mp (by simp [isCall])) closed

/-- What a close leaves of the remote store. -/
structure Closed (before after : RemoteStore User M) : Prop where
  enabled : after.isNetworkEnabled = before.isNetworkEnabled
  stream : after.closeCount = before.closeCount + 1
  credentials : after.credentials = before.credentials
  counter : after.tokenCounter = before.tokenCounter
  call : after.call = none

/-- An error leaves the pipeline full, and settles its first batch or nothing. -/
theorem Settled.handleStreamError (settled : client.Settled queued)
    {error : Error} (fails : error ≠ .ok) :
    ∃ after, handleStreamError error ⟨client.engine, client.remote.shut .error⟩ = some after ∧
      after.Sound queued ∧ after.remote.writePipeline = after.engine.waiting.take
        (if after.remote.isNetworkEnabled then kMaxPendingWrites else 0) ∧
      (client.remote.shut .error).Frame after.remote ∧ after.remote.state ≠ .opened ∧
      (client.engine.Kept after.engine ∨
        ∃ batch rest, client.remote.writePipeline = batch :: rest ∧
          client.remote.handshakeComplete = true ∧ isPermanentWriteError error = some true ∧
          client.engine.Settles batch error after.engine) := by
  have sound := settled.toSound.shut (.inr rfl)
  have kept := SyncEngine.Kept.rfl settled.valid settled.owner
  obtain ⟨permanent, isPermanent⟩ : ∃ permanent, isPermanentError error = some permanent := by
    cases error <;> first | exact ⟨_, rfl⟩ | exact absurd rfl fails
  cases split : client.remote.writePipeline with
  | nil =>
    exact ⟨_, by simp [FirestoreClient.handleStreamError, RemoteStore.shut, split], sound,
      settled.full, .rfl, nofun, .inl kept⟩
  | cons batch rest =>
    cases shaken : client.remote.handshakeComplete with
    | false =>
      cases permanent with
      | false =>
        exact ⟨_, by simp [FirestoreClient.handleStreamError, RemoteStore.shut, split, shaken, fails,
          handleHandshakeError, isPermanent], sound, settled.full, .rfl, nofun, .inl kept⟩
      | true =>
        have tokens := SyncEngine.Kept.token settled.valid settled.owner []
        have left := sound.kept tokens []
        refine ⟨_, by simp [FirestoreClient.handleStreamError, RemoteStore.shut, split, shaken, fails,
          handleHandshakeError, isPermanent], left, ?_, ⟨rfl, rfl, rfl, rfl, rfl, rfl, .rfl⟩, nofun,
          .inl tokens⟩
        rw [tokens.waiting]
        exact settled.full
    | true =>
      cases written : isPermanentWriteError error with
      | none => simp [isPermanentWriteError, isPermanent] at written
      | some permanent =>
        cases permanent with
        | false =>
          exact ⟨_, by simp [FirestoreClient.handleStreamError, RemoteStore.shut, split, shaken,
            fails, handleWriteError, written], sound, settled.full, .rfl, nofun, .inl kept⟩
        | true =>
          obtain ⟨back, whole⟩ := settled.front
          rw [split] at whole
          obtain ⟨engine, rejects, settles⟩ := SyncEngine.handleRejectedWrite_spec settled.valid
            settled.owner whole.symm error
          have left := (settled.toSound.shut (.inl rfl)).settle rfl split settles
          obtain ⟨remote, fills, filled, frame⟩ := left.fillWritePipeline
          have shut : remote.state ≠ .opened := fun opened => absurd (frame.opens.mp opened) nofun
          refine ⟨⟨engine, remote⟩, ?_, filled.toSound, filled.full, ⟨frame.enabled, frame.handshake,
            frame.stream, frame.credentials, frame.counter, frame.answered,
            ⟨fun opened => absurd opened shut, nofun⟩⟩, shut,
            .inr ⟨batch, rest, rfl, rfl, rfl, settles⟩⟩
          simpa [FirestoreClient.handleStreamError, RemoteStore.shut, split, shaken, fails,
            handleWriteError, written, RemoteStore.inhibitBackoff, RemoteStore.isStarted, rejects]
            using fills

omit [LawfulMutationQueue Store User M] in
/-- An error closes a started stream, is handled, and the stream starts again if it must. -/
theorem close_error (started : client.remote.isStarted = true) {error : Error}
    (fails : error ≠ .ok) :
    client.close error =
      ((FirestoreClient.handleStreamError error ⟨client.engine, client.remote.shut .error⟩).bind
        FirestoreClient.startIfNeeded).map fun closed =>
          ⟨closed.engine, { closed.remote with handshakeComplete := false }⟩ := by
  have plain : ¬ (error = .ok ∧ client.remote.isStarted = false) := fun both => fails both.1
  rw [close, if_neg plain, Option.map_eq_bind]
  simp only [started, guard, ↓reduceIte, fails, onWriteStreamClose, false_implies]
  rfl

omit [LawfulMutationQueue Store User M] in
/-- A graceful close is refused where there is work, as an assertion. -/
theorem close_ok (client : FirestoreClient Store User M)
    (started : client.remote.isStarted = true) :
    client.close .ok =
      if client.remote.isNetworkEnabled = true ∧ client.remote.writePipeline ≠ [] then none
      else some ⟨client.engine, { client.remote.shut .initial with handshakeComplete := false }⟩ := by
  have plain : ¬ (Error.ok = .ok ∧ client.remote.isStarted = false) := by simp [started]
  rw [close, if_neg plain]
  by_cases work : client.remote.isNetworkEnabled = true ∧ client.remote.writePipeline ≠ []
  · simp [onWriteStreamClose, RemoteStore.shouldStartWriteStream, RemoteStore.canUseNetwork,
      RemoteStore.isStarted, work]
  · have spare : (client.remote.shut .initial).shouldStartWriteStream = false := by
      simpa [RemoteStore.shouldStartWriteStream, RemoteStore.canUseNetwork, RemoteStore.isStarted,
        RemoteStore.shut] using work
    have closes : onWriteStreamClose .ok ⟨client.engine, client.remote.shut .initial⟩ =
        some ⟨client.engine, client.remote.shut .initial⟩ := by
      simp [onWriteStreamClose, FirestoreClient.handleStreamError, FirestoreClient.startIfNeeded,
        spare]
    rw [if_neg work]
    simp only [started, guard, ↓reduceIte]
    exact congrArg (fun result : Option (FirestoreClient Store User M) => result.bind fun closed =>
      some { closed with remote := { closed.remote with handshakeComplete := false } }) closes

/-- A stream that fails is started again when there is work; a permanent error after the
handshake settles the first batch of the pipeline. -/
theorem Settled.failed (settled : client.Settled queued)
    (started : client.remote.isStarted = true) {error : Error} (fails : error ≠ .ok) :
    ∃ after, client.close error = some after ∧ after.Settled queued ∧
      Closed client.remote after.remote ∧
      (client.engine.Kept after.engine ∨
        ∃ batch rest, client.remote.writePipeline = batch :: rest ∧
          client.remote.handshakeComplete = true ∧ isPermanentWriteError error = some true ∧
          client.engine.Settles batch error after.engine) := by
  obtain ⟨handled, handles, sound, full, frame, closed, moves⟩ := settled.handleStreamError fails
  obtain ⟨remote, starts, filled, framed⟩ := sound.startIfNeeded full
  have shut : remote.state ≠ .opened := fun opened => closed (framed.opens.mp opened)
  refine ⟨⟨handled.engine, { remote with handshakeComplete := false }⟩, ?_, filled.reset shut,
    ⟨framed.enabled.trans frame.enabled, framed.stream.trans frame.stream,
      framed.credentials.trans frame.credentials, framed.counter.trans frame.counter, ?_⟩, moves⟩
  · rw [close_error started fails, handles, Option.bind_some, starts, Option.map_some]
  · by_contra some
    exact shut (filled.shape.called.mp (Option.isSome_iff_ne_none.mpr some))

/-- A stream that ends well is closed where there is no work. -/
theorem Settled.ended (settled : client.Settled queued)
    (spare : client.remote.writePipeline = []) :
    Settled queued ⟨client.engine,
      { client.remote.shut .initial with handshakeComplete := false }⟩ := by
  have sound := settled.toSound.shut (.inl rfl)
  have filled : Filled queued ⟨client.engine, client.remote.shut .initial⟩ :=
    ⟨sound, settled.full, fun _ work => absurd spare work⟩
  exact filled.reset nofun

/-- The stream is given up, if there was a call. -/
def Moves (before after : RemoteStore User M) : Prop :=
  after.closeCount = before.closeCount ∧ before.call = none ∨
    after.closeCount = before.closeCount + 1

/-- A remote store whose stream is stopped and whose pipeline is empty. -/
structure Quiet (queued : Nat → Nat) (remote : RemoteStore User M) : Prop where
  shape : remote.Shape queued
  stopped : remote.isStarted = false
  empty : remote.writePipeline = []
  timer : remote.idlenessTimer = false
  shaken : remote.handshakeComplete = false
  call : remote.call = none

/-- A quiet remote store makes a sound client with any store. -/
theorem Quiet.sound {remote : RemoteStore User M} (quiet : Quiet queued remote)
    {engine : SyncEngine Store User} (valid : Valid engine.store)
    (owner : user engine.store = engine.currentUser) (isNetworkEnabled : Bool)
    (lastStreamToken : ByteString) :
    Sound queued ⟨engine, { remote with isNetworkEnabled, lastStreamToken }⟩ := by
  refine ⟨⟨quiet.shape.paused, quiet.shape.called, quiet.shape.asked, quiet.shape.past,
    quiet.shape.future⟩, valid, owner, ?_, ?_, fun _ => ⟨quiet.stopped, quiet.empty⟩, ?_, ?_, ?_⟩
  · exact quiet.empty ▸ List.nil_prefix
  · exact quiet.empty ▸ Nat.zero_le _
  · exact fun timer => absurd (quiet.timer ▸ timer) (by simp)
  · exact fun started => absurd (quiet.stopped ▸ started) (by simp)
  · exact fun call isCall => absurd (quiet.call ▸ isCall) (by simp)

/-- Switching the network off stops the stream and empties the pipeline. -/
theorem Settled.disable (settled : client.Settled queued) (engine : SyncEngine Store User) :
    ∃ remote, disableNetworkInternal
        ⟨engine, { client.remote with isNetworkEnabled := false }⟩ = some ⟨engine, remote⟩ ∧
      Quiet queued remote ∧ remote.isNetworkEnabled = false ∧ Moves client.remote remote ∧
      remote.credentials = client.remote.credentials ∧
      remote.tokenCounter = client.remote.tokenCounter := by
  cases started : client.remote.isStarted with
  | true =>
    refine ⟨{ client.remote.shut .initial with
        isNetworkEnabled := false
        handshakeComplete := false
        writePipeline := [] }, ?_, ⟨?_, rfl, rfl, rfl, rfl, rfl⟩, rfl, .inr rfl, rfl, rfl⟩
    · have closes := close_ok ⟨engine, { client.remote with isNetworkEnabled := false }⟩ started
      simp only [Bool.false_eq_true, false_and, ↓reduceIte] at closes
      rw [disableNetworkInternal, closes]
      rfl
    · have shape := settled.shape.shut (.inl rfl)
      exact ⟨shape.paused, shape.called, shape.asked, shape.past, shape.future⟩
  | false =>
    have shut : client.remote.state ≠ .opened := by
      intro opened
      simp [RemoteStore.isStarted, opened] at started
    refine ⟨{ client.remote with isNetworkEnabled := false, writePipeline := [] }, ?_,
      ⟨⟨settled.shape.paused, settled.shape.called, settled.shape.asked, settled.shape.past,
        settled.shape.future⟩, started, rfl, ?_, ?_, settled.toSound.isCall started⟩, rfl,
      .inl ⟨rfl, settled.toSound.isCall started⟩, rfl, rfl⟩
    · have plain : RemoteStore.isStarted { client.remote with isNetworkEnabled := false } = false :=
        started
      rw [disableNetworkInternal, close, if_pos ⟨rfl, plain⟩]
      rfl
    · by_contra timer
      exact shut (settled.idle (by simpa using timer)).1
    · by_contra shaken
      exact shut (settled.shaken (by simpa using shaken))

/-- Switching the network off leaves the queue alone. -/
theorem Settled.disableNetwork (settled : client.Settled queued) :
    ∃ remote, client.disableNetwork = some ⟨client.engine, remote⟩ ∧
      Settled queued ⟨client.engine, remote⟩ ∧ Moves client.remote remote ∧ remote.call = none ∧
      remote.credentials = client.remote.credentials ∧
      remote.tokenCounter = client.remote.tokenCounter := by
  obtain ⟨remote, disables, quiet, off, moves, credentials, counter⟩ :=
    settled.disable client.engine
  have sound := quiet.sound settled.valid settled.owner remote.isNetworkEnabled
    remote.lastStreamToken
  refine ⟨remote, disables, ⟨⟨sound, ?_, ?_⟩, ?_⟩, moves, quiet.call, credentials, counter⟩
  · simp [quiet.empty, off]
  · exact fun online => absurd (off ▸ online) (by simp)
  · exact fun shaken => absurd (quiet.shaken ▸ shaken) (by simp)

/-- Switching the network on fills the pipeline. -/
theorem Sound.enable (sound : client.Sound queued)
    (shaken : client.remote.handshakeComplete = true → client.remote.state = .opened) :
    ∃ remote, client.enableNetwork = some ⟨client.engine, remote⟩ ∧
      Settled queued ⟨client.engine, remote⟩ ∧ remote.isNetworkEnabled = true ∧
      remote.closeCount = client.remote.closeCount ∧
      remote.credentials = client.remote.credentials ∧
      remote.tokenCounter = client.remote.tokenCounter ∧
      remote.answered = client.remote.answered ∧
      (remote.state = .opened ↔ client.remote.state = .opened) := by
  have enabled : Sound queued ⟨client.engine, { client.remote with
      isNetworkEnabled := true
      lastStreamToken := MutationQueue.getLastStreamToken client.engine.store }⟩ :=
    ⟨⟨sound.shape.paused, sound.shape.called, sound.shape.asked, sound.shape.past,
      sound.shape.future⟩, sound.valid, sound.owner, sound.front, sound.bounded, nofun, sound.idle,
      sound.busy, sound.carried⟩
  obtain ⟨remote, fills, filled, frame⟩ := enabled.fillWritePipeline
  refine ⟨remote, fills, ⟨filled, fun isShaken => ?_⟩, frame.enabled, frame.stream,
    frame.credentials, frame.counter, frame.answered, frame.opens⟩
  exact frame.opens.mpr (shaken (frame.handshake ▸ isShaken))

end FirestoreClient

end Amigo.Firestore
