import Mathlib.Data.List.Perm.Basic
import Amigo.Remote.ClientSound

/-!
# No task fails

Each task of the worker queue, each response of the server and each timer finds the
client settled and leaves it so.
-/

namespace Amigo.Firestore

open LawfulMutationQueue

variable {Store User M : Type} [DecidableEq User]

namespace SyncEngine

/-- Keeping a callback touches no store. -/
@[simp] theorem insertCallback_store (batchId : Int) (callback : Nat)
    (engine : SyncEngine Store User) :
    (engine.insertCallback batchId callback).store = engine.store := by
  unfold insertCallback
  split <;> rfl

/-- Nor does it change the user. -/
@[simp] theorem insertCallback_currentUser (batchId : Int) (callback : Nat)
    (engine : SyncEngine Store User) :
    (engine.insertCallback batchId callback).currentUser = engine.currentUser := by
  unfold insertCallback
  split <;> rfl

variable [MutationQueue Store User M] [LawfulMutationQueue Store User M]

/-- A write is added to the queue of the current user. -/
structure Adds (batch : MutationBatch M) (callback : Nat) (before after : SyncEngine Store User) :
    Prop where
  ledger : { before with store := after.store }.insertCallback batch.batchId callback = after
  valid : Valid after.store
  owner : user after.store = after.currentUser
  pending : pending after.store = Function.update (pending before.store) before.currentUser
    (before.waiting ++ [batch])

/-- Adding a batch keeps the user. -/
theorem Adds.currentUser {batch : MutationBatch M} {callback : Nat}
    {before after : SyncEngine Store User} (adds : before.Adds batch callback after) :
    after.currentUser = before.currentUser := by
  rw [← adds.ledger, insertCallback_currentUser]

/-- The batch waits behind the others. -/
theorem Adds.waiting {batch : MutationBatch M} {callback : Nat}
    {before after : SyncEngine Store User} (adds : before.Adds batch callback after) :
    after.waiting = before.waiting ++ [batch] := by
  rw [SyncEngine.waiting, adds.pending, adds.currentUser, Function.update_self]

end SyncEngine

variable [MutationQueue Store User M] [LawfulMutationQueue Store User M]

namespace FirestoreClient

variable {queued : Nat → Nat} {client : FirestoreClient Store User M}

/-- What the client says of its stream to the outside. -/
structure Steady (before after : RemoteStore User M) : Prop where
  credentials : after.credentials = before.credentials
  counter : after.tokenCounter = before.tokenCounter

/-- A write is added and taken into the pipeline if there is room. -/
theorem Settled.writeMutations (settled : client.Settled queued) {mutations : List M}
    (some : mutations ≠ []) (callback : Nat) :
    ∃ after batchId, client.writeMutations mutations callback = .some after ∧
      after.Settled queued ∧ client.engine.Adds ⟨batchId, mutations⟩ callback after.engine ∧
      client.remote.Frame after.remote := by
  obtain ⟨batchId, store, adds, valid, owned, grown⟩ := add_spec settled.valid some
  have recorded : client.engine.Adds ⟨batchId, mutations⟩ callback
      ({ client.engine with store }.insertCallback batchId callback) := by
    refine ⟨?_, ?_, ?_, ?_⟩
    · rw [SyncEngine.insertCallback_store]
    · rwa [SyncEngine.insertCallback_store]
    · rw [SyncEngine.insertCallback_store, SyncEngine.insertCallback_currentUser, owned,
        settled.owner]
    · rw [SyncEngine.insertCallback_store, grown, settled.owner]
      rfl
  have sound : Sound queued ⟨{ client.engine with store }.insertCallback batchId callback,
      client.remote⟩ := by
    refine ⟨settled.shape, recorded.valid, recorded.owner, ?_, settled.bounded, settled.offline,
      settled.idle, settled.busy, fun call isCall => ?_⟩
    · rw [recorded.waiting]
      exact settled.front.trans (List.prefix_append _ _)
    · rw [recorded.currentUser]
      exact settled.carried call isCall
  obtain ⟨remote, fills, filled, frame⟩ := sound.fillWritePipeline
  refine ⟨⟨_, remote⟩, batchId, ?_, ⟨filled, fun isShaken => ?_⟩, recorded, frame⟩
  · simp [FirestoreClient.writeMutations, some, adds, fills]
  · exact frame.opens.mpr (settled.shaken (frame.handshake ▸ isShaken))

/-- The books that concern no batch may change freely. -/
theorem Settled.told (settled : client.Settled queued) (pendingWritesCallbacks : List (Int × List Nat))
    (told : List (Nat × Error)) :
    Settled queued ⟨{ client.engine with pendingWritesCallbacks, told }, client.remote⟩ :=
  ⟨⟨⟨settled.shape, settled.valid, settled.owner, settled.front, settled.bounded, settled.offline,
    settled.idle, settled.busy, settled.carried⟩, settled.full, settled.needed⟩, settled.shaken⟩

/-- Tokens of streams that are closed do not matter. -/
theorem Settled.congr (settled : client.Settled queued) {other : Nat → Nat}
    (same : ∀ stream, client.remote.closeCount ≤ stream → other stream = queued stream) :
    client.Settled other := by
  refine ⟨⟨⟨⟨settled.shape.paused, settled.shape.called, ?_, settled.shape.past, ?_⟩, settled.valid,
    settled.owner, settled.front, settled.bounded, settled.offline, settled.idle, settled.busy,
    settled.carried⟩, settled.full, settled.needed⟩, settled.shaken⟩
  · rw [same _ le_rfl]
    exact settled.shape.asked
  · intro stream later
    rw [same stream later.le]
    exact settled.shape.future stream later

/-- Who is signed in concerns no batch. -/
theorem Settled.signsIn (settled : client.Settled queued) (credentials : User)
    (tokenCounter : Nat) :
    Settled queued ⟨client.engine, { client.remote with credentials, tokenCounter }⟩ :=
  ⟨⟨⟨⟨settled.shape.paused, settled.shape.called, settled.shape.asked, settled.shape.past,
    settled.shape.future⟩, settled.valid, settled.owner, settled.front, settled.bounded,
    settled.offline, settled.idle, settled.busy, settled.carried⟩, settled.full, settled.needed⟩,
    settled.shaken⟩

/-- The server moves the call on. -/
theorem Settled.recall (settled : client.Settled queued) {call next : Call User M}
    (isCall : client.remote.call = some call) (same : next.user = call.user)
    (carries : if client.remote.handshakeComplete = true
      then next.Carries client.remote.writePipeline else next.Shakes) :
    Settled queued ⟨client.engine, { client.remote with call := some next }⟩ := by
  have opened : client.remote.state = .opened := settled.shape.called.mp (by simp [isCall])
  refine ⟨⟨⟨⟨settled.shape.paused, by simp [opened], settled.shape.asked, settled.shape.past,
    settled.shape.future⟩, settled.valid, settled.owner, settled.front, settled.bounded,
    settled.offline, settled.idle, settled.busy, ?_⟩, settled.full, settled.needed⟩, settled.shaken⟩
  rintro _ ⟨⟩
  exact ⟨same.trans (settled.carried call isCall).1, carries⟩

/-- A token request is answered: the token waits as a task. -/
theorem Settled.answered (settled : client.Settled queued) {index : Nat} {request : TokenRequest}
    (found : client.remote.tokenRequests[index]? = some request) {other : Nat → Nat}
    (brought : ∀ stream, other stream =
      queued stream + if request.closeCount = stream then 1 else 0) :
    Settled other ⟨client.engine, { client.remote with
      tokenRequests := client.remote.tokenRequests.eraseIdx index }⟩ := by
  obtain ⟨inside, isRequest⟩ := List.getElem?_eq_some_iff.mp found
  have split := (List.getElem_cons_eraseIdx_perm inside).countP_eq
    (fun request => decide (request.closeCount = client.remote.closeCount))
  have earlier := settled.shape.past request (List.mem_of_getElem? found)
  rw [isRequest, List.countP_cons] at split
  refine ⟨⟨⟨⟨settled.shape.paused, settled.shape.called, ?_, ?_, ?_⟩, settled.valid, settled.owner,
    settled.front, settled.bounded, settled.offline, settled.idle, settled.busy, settled.carried⟩,
    settled.full, settled.needed⟩, settled.shaken⟩
  · have counted := settled.shape.asked
    simp only [RemoteStore.asking, brought] at counted ⊢
    simp only [decide_eq_true_eq] at split
    omega
  · exact fun other member => settled.shape.past other (List.mem_of_mem_eraseIdx member)
  · intro stream later
    have before := settled.shape.future stream later
    have apart : request.closeCount ≠ stream := fun same => by
      simp only at later
      omega
    rw [brought, if_neg apart, before]

/-- Another user's queue is in use. -/
theorem changeUser_spec {engine : SyncEngine Store User} (valid : Valid engine.store)
    (owner : user engine.store = engine.currentUser) (next : User) :
    Valid (engine.changeUser next).store ∧
      user (engine.changeUser next).store = (engine.changeUser next).currentUser ∧
      (engine.changeUser next).currentUser = next ∧
      pending (engine.changeUser next).store = pending engine.store := by
  unfold SyncEngine.changeUser
  split
  · rename_i same
    exact ⟨valid, owner, same, rfl⟩
  · exact start_spec valid next |>.imp id fun later => ⟨later.1, rfl, later.2⟩

/-- A change of user swaps the queue; with the network on, the stream is made anew. -/
theorem Settled.handleCredentialChange (settled : client.Settled queued) (next : User) :
    ∃ remote, client.handleCredentialChange next = some ⟨client.engine.changeUser next, remote⟩ ∧
      Settled queued ⟨client.engine.changeUser next, remote⟩ ∧ Steady client.remote remote ∧
      Moves client.remote remote ∧ remote.call = none := by
  obtain ⟨valid, owner, _, _⟩ := changeUser_spec settled.valid settled.owner next
  cases online : client.remote.isNetworkEnabled with
  | false =>
    obtain ⟨stopped, empty⟩ := settled.offline online
    have isCall := settled.toSound.isCall stopped
    refine ⟨client.remote, by simp [FirestoreClient.handleCredentialChange, restartStreams,
      RemoteStore.canUseNetwork, online], ?_, ⟨rfl, rfl⟩, .inl ⟨rfl, isCall⟩, isCall⟩
    refine ⟨⟨⟨settled.shape, valid, owner, ?_, settled.bounded, settled.offline, settled.idle,
      settled.busy, fun call found => ?_⟩, ?_, settled.needed⟩, settled.shaken⟩
    · exact empty ▸ List.nil_prefix
    · exact absurd (isCall ▸ found) (by simp)
    · simp [empty, online]
  | true =>
    obtain ⟨disabled, disables, quiet, off, moves, credentials, counter⟩ :=
      settled.disable (client.engine.changeUser next)
    have sound := quiet.sound valid owner disabled.isNetworkEnabled disabled.lastStreamToken
    obtain ⟨remote, enables, after, _, stream, signed, counted, _, opens⟩ := sound.enable
      (fun shaken => absurd (quiet.shaken ▸ shaken) (by simp))
    have same : remote.closeCount = disabled.closeCount := stream
    refine ⟨remote, ?_, after, ⟨signed.trans credentials, counted.trans counter⟩,
      by rwa [Moves, same], ?_⟩
    · simp only [FirestoreClient.handleCredentialChange, restartStreams,
        RemoteStore.canUseNetwork, online, ↓reduceIte, disables]
      exact enables
    · by_contra some
      have opened := opens.mp (after.shape.called.mp (Option.isSome_iff_ne_none.mpr some))
      exact absurd (quiet.shape.called.mpr opened) (by simp [quiet.call])

/-- A token opens the call for its user, who is the current one. -/
theorem Settled.opened (settled : client.Settled queued)
    (starting : client.remote.state = .starting) {other : Nat → Nat}
    (taken : ∀ stream, queued stream =
      other stream + if stream = client.remote.closeCount then 1 else 0) :
    ∃ remote, client.resumeStartWithCredentials (.ok client.engine.currentUser) =
        some ⟨client.engine, remote⟩ ∧ Settled other ⟨client.engine, remote⟩ ∧
      Steady client.remote remote ∧ remote.closeCount = client.remote.closeCount ∧
      remote.answered = [] := by
  have unshaken : client.remote.handshakeComplete = false := by
    by_contra shaken
    have opened := settled.shaken (by simpa using shaken)
    rw [starting] at opened
    cases opened
  have counted := settled.shape.asked
  rw [taken, if_pos rfl, if_pos starting] at counted
  have work : client.remote.writePipeline ≠ [] := by
    refine settled.busy ((RemoteStore.isStarted_iff _).mpr (.inl starting)) ?_
    simp [starting]
  have paused : client.remote.backoff = false := by
    by_contra paused
    have backoff := settled.shape.paused.mp (by simpa using paused)
    rw [starting] at backoff
    cases backoff
  refine ⟨{ client.remote with
      call := some ⟨client.engine.currentUser, [.handshake], [], none⟩
      state := .opened
      idlenessTimer := false }, ?_, ?_, ⟨rfl, rfl⟩, rfl, by simp [RemoteStore.answered, unshaken]⟩
  · simp [resumeStartWithCredentials, starting, RemoteStore.onStreamStart,
      RemoteStore.writeHandshake, unshaken, RemoteStore.write]
  · refine ⟨⟨⟨⟨by simp [paused], by simp, ?_, settled.shape.past, ?_⟩, settled.valid, settled.owner,
      settled.front, settled.bounded, ?_, (absurd · Bool.false_ne_true), fun _ _ => work, ?_⟩,
      settled.full, fun _ _ => rfl⟩, fun _ => rfl⟩
    · simp only [reduceCtorEq, ↓reduceIte, RemoteStore.asking] at counted ⊢
      omega
    · intro stream later
      have before := settled.shape.future stream later
      rw [taken] at before
      omega
    · intro offline
      exact absurd (settled.offline offline).2 work
    · rintro _ ⟨⟩
      exact ⟨rfl, by simp [unshaken, Call.Shakes]⟩

/-- Without a token the stream fails. -/
theorem Settled.refused (settled : client.Settled queued)
    (starting : client.remote.state = .starting) (failure : Failure) {other : Nat → Nat}
    (taken : ∀ stream, client.remote.closeCount < stream → other stream = queued stream) :
    ∃ after, client.resumeStartWithCredentials (.error failure.val) = some after ∧
      after.Settled other ∧ Closed client.remote after.remote ∧
      client.engine.Kept after.engine := by
  have started : client.remote.isStarted = true :=
    (RemoteStore.isStarted_iff _).mpr (.inl starting)
  obtain ⟨after, closes, left, closed, kept | ⟨_, _, _, shaken, _⟩⟩ :=
    settled.failed started failure.property
  · refine ⟨after, by simpa [resumeStartWithCredentials, starting] using closes,
      left.congr fun stream later => taken stream ?_, closed, kept⟩
    rw [closed.stream] at later
    omega
  · have opened := settled.shaken shaken
    rw [starting] at opened
    cases opened

omit [DecidableEq User] in
/-- The pipeline is written into a call after the handshake. -/
theorem foldlM_writeMutations (batches : List (MutationBatch M)) (remote : RemoteStore User M)
    {call : Call User M} (isCall : remote.call = some call) (opened : remote.state = .opened)
    (shaken : remote.handshakeComplete = true) :
    batches.foldlM (fun remote batch => remote.writeMutations batch.mutations) remote =
      some { remote with
        idlenessTimer := remote.idlenessTimer && batches.isEmpty
        call := some { call with
          requests := call.requests ++
            batches.map fun batch => .write batch.mutations remote.lastStreamToken } } := by
  induction batches generalizing remote call with
  | nil => simp [← isCall]
  | cons batch rest inductionHypothesis =>
    have written : remote.writeMutations batch.mutations = some { remote with
        idlenessTimer := false
        call := some { call with requests :=
          call.requests ++ [.write batch.mutations remote.lastStreamToken] } } := by
      simp [RemoteStore.writeMutations, RemoteStore.write, opened, shaken, isCall]
    have others := inductionHypothesis { remote with
      idlenessTimer := false
      call := some { call with
        requests := call.requests ++ [.write batch.mutations remote.lastStreamToken] } }
      rfl opened shaken
    rw [List.foldlM_cons, written, Option.bind_eq_bind, Option.bind_some, others]
    simp

omit [LawfulMutationQueue Store User M] in
/-- The first response of a call ends the handshake. -/
theorem onStreamRead_shaking (client : FirestoreClient Store User M)
    (started : client.remote.isStarted = true)
    (shaking : client.remote.handshakeComplete = false) (response : Response) :
    client.onStreamRead response = onWriteStreamHandshakeComplete ⟨client.engine,
      { client.remote with
        lastStreamToken := response.streamToken
        handshakeComplete := true }⟩ := by
  simp [onStreamRead, started, shaking]

omit [LawfulMutationQueue Store User M] in
/-- Every later one is a result. -/
theorem onStreamRead_shaken (client : FirestoreClient Store User M)
    (started : client.remote.isStarted = true)
    (shaken : client.remote.handshakeComplete = true) (response : Response) :
    client.onStreamRead response = onWriteStreamMutationResult response.results ⟨client.engine,
      { client.remote with lastStreamToken := response.streamToken }⟩ := by
  simp [onStreamRead, started, shaken]

/-- The first response of a call ends the handshake: the pipeline is sent. -/
theorem Settled.handshake (settled : client.Settled queued) {call : Call User M}
    (isCall : client.remote.call = some call) {response : Response}
    (next : call.responses = [response]) (shaking : client.remote.handshakeComplete = false) :
    ∃ after, onStreamRead response (client.withResponses call []) = some after ∧
      after.Settled queued ∧ Steady client.remote after.remote ∧
      after.remote.closeCount = client.remote.closeCount ∧ after.remote.answered = [] ∧
      after.remote.state = .opened ∧ client.engine.Kept after.engine ∧
      after.remote.handshakeComplete = true ∧
      after.remote.isNetworkEnabled = client.remote.isNetworkEnabled ∧
      ∃ sent, after.remote.call = some sent ∧ sent.responses = [] ∧
        sent.finished = call.finished := by
  have opened : client.remote.state = .opened := settled.shape.called.mp (by simp [isCall])
  have started : client.remote.isStarted = true :=
    (RemoteStore.isStarted_iff _).mpr (.inr (.inr opened))
  have work : client.remote.writePipeline ≠ [] := settled.busy started (by simp [shaking])
  obtain ⟨same, shakes⟩ := settled.carried call isCall
  rw [if_neg (by simp [shaking])] at shakes
  have unread : call.requests = [] := by
    obtain ⟨_, none⟩ | ⟨empty, _⟩ := shakes
    · simp [next] at none
    · exact empty
  have tokens := SyncEngine.Kept.token settled.valid settled.owner response.streamToken
  have sends := foldlM_writeMutations client.remote.writePipeline
    { client.remote with
      lastStreamToken := response.streamToken
      handshakeComplete := true
      call := some { call with responses := [] } } rfl opened rfl
  have quiet : (client.remote.idlenessTimer && client.remote.writePipeline.isEmpty) = false := by
    simp [work]
  rw [quiet] at sends
  refine ⟨⟨{ client.engine with
        store := MutationQueue.setLastStreamToken response.streamToken client.engine.store },
      { client.remote with
        lastStreamToken := response.streamToken
        handshakeComplete := true
        idlenessTimer := false
        call := some { call with
          requests := call.requests ++ client.remote.writePipeline.map fun batch =>
            .write batch.mutations response.streamToken
          responses := [] } }⟩, ?_, ?_, ⟨rfl, rfl⟩, rfl, by simp [RemoteStore.answered], opened,
    tokens, rfl, rfl, _, rfl, rfl, rfl⟩
  · refine (onStreamRead_shaking (client.withResponses call []) started shaking response).trans ?_
    exact congrArg (fun result : Option (RemoteStore User M) => result.bind fun remote =>
      some (FirestoreClient.mk { client.engine with
        store := MutationQueue.setLastStreamToken response.streamToken client.engine.store }
        remote)) sends
  · have sound := settled.toSound.kept tokens response.streamToken
    refine ⟨⟨⟨⟨sound.shape.paused, by simp [opened], sound.shape.asked, sound.shape.past,
      sound.shape.future⟩, sound.valid, sound.owner, sound.front, sound.bounded, sound.offline,
      (absurd · Bool.false_ne_true), fun _ _ => work, ?_⟩, ?_, fun _ _ => started⟩, fun _ => opened⟩
    · rintro _ ⟨⟩
      refine ⟨same.trans tokens.currentUser.symm, ?_⟩
      rw [if_pos rfl]
      exact ⟨by simp, by simp [unread, List.forall₂_map_left_iff, List.forall₂_same]⟩
    · rw [tokens.waiting]
      exact settled.full

/-- A later response answers the first batch of the pipeline: it is settled, and another
takes its place. -/
theorem Settled.result (settled : client.Settled queued) {call : Call User M}
    (isCall : client.remote.call = some call) {response : Response} {rest : List Response}
    (next : call.responses = response :: rest) (shaken : client.remote.handshakeComplete = true) :
    ∃ after batch remaining, onStreamRead response (client.withResponses call rest) = some after ∧
      after.Settled queued ∧ client.remote.writePipeline = batch :: remaining ∧
      client.engine.Settles batch .ok after.engine ∧ Steady client.remote after.remote ∧
      after.remote.closeCount = client.remote.closeCount ∧
      after.remote.answered = client.remote.answered.tail ∧ after.remote.state = .opened ∧
      after.remote.isNetworkEnabled = client.remote.isNetworkEnabled := by
  have opened : client.remote.state = .opened := settled.shape.called.mp (by simp [isCall])
  have started : client.remote.isStarted = true :=
    (RemoteStore.isStarted_iff _).mpr (.inr (.inr opened))
  obtain ⟨same, carries⟩ := settled.carried call isCall
  rw [if_pos shaken] at carries
  obtain ⟨batch, remaining, split, results, carries⟩ := carries.pop next
  obtain ⟨back, whole⟩ := settled.front
  rw [split] at whole
  obtain ⟨engine, succeeds, settles⟩ := SyncEngine.handleSuccessfulWrite_spec settled.valid
    settled.owner whole.symm response.streamToken
  have bounded := settled.bounded
  rw [split, List.length_cons] at bounded
  have sound : Sound queued ⟨engine, { client.remote with
      call := some { call with responses := rest }
      lastStreamToken := response.streamToken
      writePipeline := remaining }⟩ := by
    refine ⟨⟨settled.shape.paused, by simp [opened], settled.shape.asked, settled.shape.past,
      settled.shape.future⟩, settles.valid, settles.owner, ?_, (Nat.le_succ _).trans bounded,
      fun offline => ?_, fun timer => ?_, fun _ still => absurd ⟨opened, shaken⟩ still, ?_⟩
    · rw [settles.waiting, ← whole]
      exact List.prefix_append remaining back
    · exact absurd ((settled.offline offline).2.symm.trans split) (by simp)
    · exact absurd ((settled.idle timer).2.2.symm.trans split) (by simp)
    · rintro _ ⟨⟩
      refine ⟨same.trans settles.currentUser.symm, ?_⟩
      rw [if_pos shaken]
      exact carries
  obtain ⟨remote, fills, filled, frame⟩ := sound.fillWritePipeline
  refine ⟨⟨engine, remote⟩, batch, remaining, ?_, ⟨filled, fun _ => frame.opens.mpr opened⟩, split,
    settles, ⟨frame.credentials, frame.counter⟩, frame.stream, ?_, frame.opens.mpr opened,
    frame.enabled⟩
  · refine (onStreamRead_shaken (client.withResponses call rest) started shaken response).trans ?_
    simp only [onWriteStreamMutationResult, withResponses, split, results, guard, ↓reduceIte,
      succeeds]
    exact fills
  · rw [frame.answered]
    simp [RemoteStore.answered, isCall, shaken, split, next]

/-- After the pause the stream asks for a token. -/
theorem Settled.backoffElapsed (settled : client.Settled queued)
    (paused : client.remote.backoff = true) :
    ∃ remote, client.remote.backoffElapsed = some remote ∧
      Settled queued ⟨client.engine, remote⟩ ∧ Steady client.remote remote ∧
      remote.closeCount = client.remote.closeCount ∧ remote.answered = client.remote.answered := by
  have backoff := settled.shape.paused.mp paused
  have shut : client.remote.state ≠ .opened := by simp [backoff]
  have isCall : client.remote.call = none := by
    by_contra some
    exact shut (settled.shape.called.mp (Option.isSome_iff_ne_none.mpr some))
  have online : client.remote.isNetworkEnabled = true := by
    by_contra offline
    have stopped := (settled.offline (by simpa using offline)).1
    simp [RemoteStore.isStarted, backoff] at stopped
  have counted := settled.shape.asked
  simp only [backoff, reduceCtorEq, ↓reduceIte] at counted
  have shape : RemoteStore.Shape queued { client.remote with state := .initial, backoff := false } :=
    ⟨by simp, by simp [isCall], by simpa [RemoteStore.asking] using counted, settled.shape.past,
      settled.shape.future⟩
  obtain ⟨state, timer, tokenRequests, starts, begun, after⟩ :=
    RemoteStore.start_spec shape rfl
  have work : client.remote.writePipeline ≠ [] :=
    settled.busy ((RemoteStore.isStarted_iff _).mpr (.inr (.inl backoff))) (by simp [backoff])
  have ready : RemoteStore.isStarted
      { client.remote with state, backoff := timer, tokenRequests } = true := by
    obtain rfl | rfl := begun <;> rfl
  refine ⟨{ client.remote with state, backoff := timer, tokenRequests }, ?_,
    ⟨⟨⟨after, settled.valid, settled.owner, settled.front, settled.bounded, ?_, ?_, fun _ _ => work,
    ?_⟩, settled.full, fun _ _ => ready⟩, ?_⟩, ⟨rfl, rfl⟩, rfl, rfl⟩
  · simp only [RemoteStore.backoffElapsed, backoff, guard, ↓reduceIte, starts, Option.bind_eq_bind,
      Option.bind_some, ready, Option.pure_def]
  · exact fun offline => absurd (online ▸ offline) (by simp)
  · exact fun timed => absurd (settled.idle timed).1 shut
  · exact fun call found => absurd (isCall ▸ found) (by simp)
  · exact fun shaken => absurd (settled.shaken shaken) shut

end FirestoreClient

end Amigo.Firestore
