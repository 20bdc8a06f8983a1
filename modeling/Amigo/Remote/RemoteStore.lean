import Amigo.Local.MutationQueue

/-!
# The write pipeline

The client sends the batches of its queue over one stream, up to ten at a time, and
takes a batch off when the answer to it comes. The stream asks for a token, opens a
call, shakes hands, and then carries the batches of the pipeline in order; a call
that fails is made again after a pause, with every batch of the pipeline sent once
more. A batch that is answered, or refused for good, tells the callback of its write.
A change of user fails the callbacks that wait for the pending writes, swaps the
queue, and makes the streams anew.

The definitions follow the sync engine, the remote store, the write stream and the
credentials provider, with what of the local store concerns the queue. A handler
returns nothing where an assertion of the source would stop the program. Views, the
watch stream, the lengths of pauses and log lines are left out.
-/

namespace Amigo.Firestore

/-- The error codes of a call. -/
inductive Error where
  | ok | cancelled | unknown | invalidArgument | deadlineExceeded | notFound | alreadyExists
  | permissionDenied | resourceExhausted | failedPrecondition | aborted | outOfRange
  | unimplemented | internal | unavailable | dataLoss | unauthenticated
deriving DecidableEq

/-- Whether an error will come again when the request is; success is not an error. -/
def isPermanentError : Error → Option Bool
  | .ok => none
  | .cancelled | .unknown | .deadlineExceeded | .resourceExhausted | .internal | .unavailable
  | .unauthenticated => some false
  | .invalidArgument | .notFound | .alreadyExists | .permissionDenied | .failedPrecondition
  | .aborted | .outOfRange | .unimplemented | .dataLoss => some true

/-- `IsPermanentWriteError`: an aborted write is tried again. -/
def isPermanentWriteError (error : Error) : Option Bool := do
  let permanent ← isPermanentError error
  some (permanent && error ≠ .aborted)

/-- What the client writes into a call. -/
inductive Request (M : Type) where
  | handshake
  | write (mutations : List M) (streamToken : ByteString)
deriving DecidableEq

/-- What the server answers: one result for each mutation it has committed. -/
structure Response where
  results : Nat
  streamToken : ByteString
deriving DecidableEq

/-- A call: the user it is made for, what the server has not read, what the client
has not read, and the status the server has ended it with. -/
structure Call (User M : Type) where
  user : User
  requests : List (Request M)
  responses : List Response
  finished : Option Error
deriving DecidableEq

/-- The states of a stream. -/
inductive StreamState where
  | initial | starting | opened | error | backoff
deriving DecidableEq

/-- A request for a token, with the counters it is checked by when it is answered. -/
structure TokenRequest where
  tokenCounter : Nat
  closeCount : Nat
deriving DecidableEq

/-- The remote store, its write stream and the credentials provider. -/
structure RemoteStore (User M : Type) where
  isNetworkEnabled : Bool
  writePipeline : List (MutationBatch M)
  state : StreamState
  handshakeComplete : Bool
  idlenessTimer : Bool
  backoff : Bool
  closeCount : Nat
  lastStreamToken : ByteString
  call : Option (Call User M)
  credentials : User
  tokenCounter : Nat
  tokenRequests : List TokenRequest
deriving DecidableEq

/-- The sync engine with the queues of its local store, and what it has told the app:
callbacks, in the order they ran, each with the status it was given. -/
structure SyncEngine (Store User : Type) where
  currentUser : User
  mutationCallbacks : User → Int → Option Nat
  pendingWritesCallbacks : List (Int × List Nat)
  store : Store
  told : List (Nat × Error)

/-- The parts of the client that write. -/
structure FirestoreClient (Store User M : Type) where
  engine : SyncEngine Store User
  remote : RemoteStore User M

/-- `kMaxPendingWrites`. -/
def kMaxPendingWrites : Nat := 10

namespace RemoteStore

variable {User M : Type}

/-- `IsStarted` of the stream. -/
def isStarted (remote : RemoteStore User M) : Bool :=
  remote.state = .starting || remote.state = .backoff || remote.state = .opened

/-- `CanUseNetwork`. -/
def canUseNetwork (remote : RemoteStore User M) : Bool := remote.isNetworkEnabled

/-- `CanAddToWritePipeline`. -/
def canAddToWritePipeline (remote : RemoteStore User M) : Bool :=
  remote.canUseNetwork && decide (remote.writePipeline.length < kMaxPendingWrites)

/-- `ShouldStartWriteStream`. -/
def shouldStartWriteStream (remote : RemoteStore User M) : Bool :=
  remote.canUseNetwork && !remote.isStarted && !remote.writePipeline.isEmpty

/-- Ask for a token. -/
def requestCredentials (remote : RemoteStore User M) : RemoteStore User M :=
  { remote with tokenRequests :=
      remote.tokenRequests ++ [⟨remote.tokenCounter, remote.closeCount⟩] }

/-- `BackoffAndTryRestarting` of the stream, up to its timer. -/
def backoffAndTryRestarting (remote : RemoteStore User M) : Option (RemoteStore User M) := do
  guard (remote.state = .error)
  some { remote with state := .backoff, backoff := true }

/-- `Start` of the stream. -/
def start (remote : RemoteStore User M) : Option (RemoteStore User M) :=
  if remote.state = .error then remote.backoffAndTryRestarting
  else do
    guard (remote.state = .initial)
    some { remote with state := .starting }.requestCredentials

/-- The pause is over. -/
def backoffElapsed (remote : RemoteStore User M) : Option (RemoteStore User M) := do
  guard (remote.state = .backoff)
  let started ← { remote with state := .initial, backoff := false }.start
  guard (started.isStarted = true)
  some started

/-- `InhibitBackoff` of the stream. -/
def inhibitBackoff (remote : RemoteStore User M) : Option (RemoteStore User M) := do
  guard (remote.isStarted = false)
  some { remote with state := .initial }

/-- An open stream without work is stopped after a while. -/
def markIdle (remote : RemoteStore User M) : RemoteStore User M :=
  if remote.state = .opened ∧ remote.idlenessTimer = false then
    { remote with idlenessTimer := true }
  else remote

/-- Write into the call. -/
def write (request : Request M) (remote : RemoteStore User M) : Option (RemoteStore User M) := do
  guard (remote.state = .opened)
  let call ← remote.call
  some { remote with
    idlenessTimer := false
    call := some { call with requests := call.requests ++ [request] } }

/-- `WriteHandshake`. -/
def writeHandshake (remote : RemoteStore User M) : Option (RemoteStore User M) := do
  guard (remote.state = .opened)
  guard (remote.handshakeComplete = false)
  remote.write .handshake

/-- `WriteMutations`: the batch goes out with the last token. -/
def writeMutations (mutations : List M) (remote : RemoteStore User M) :
    Option (RemoteStore User M) := do
  guard (remote.state = .opened)
  guard (remote.handshakeComplete = true)
  remote.write (.write mutations remote.lastStreamToken)

/-- `StartWriteStream`. -/
def startWriteStream (remote : RemoteStore User M) : Option (RemoteStore User M) := do
  guard (remote.shouldStartWriteStream = true)
  remote.start

/-- `AddToWritePipeline`: the batch is sent at once where the handshake is over. -/
def addToWritePipeline (batch : MutationBatch M) (remote : RemoteStore User M) :
    Option (RemoteStore User M) := do
  guard (remote.canAddToWritePipeline = true)
  let added := { remote with writePipeline := remote.writePipeline ++ [batch] }
  if added.state = .opened ∧ added.handshakeComplete = true then
    added.writeMutations batch.mutations
  else some added

/-- The call is open as soon as its token is there. -/
def onStreamStart (user : User) (remote : RemoteStore User M) : Option (RemoteStore User M) :=
  { remote with call := some ⟨user, [], [], none⟩, state := .opened }.writeHandshake

end RemoteStore

namespace SyncEngine

variable {Store User : Type} [DecidableEq User]

/-- Tell the callback of a write. A write of an earlier session has none. -/
def notifyUser (batchId : Int) (status : Error) (engine : SyncEngine Store User) :
    SyncEngine Store User :=
  match engine.mutationCallbacks engine.currentUser batchId with
  | none => engine
  | some callback =>
    { engine with
      told := engine.told ++ [(callback, status)]
      mutationCallbacks := Function.update engine.mutationCallbacks engine.currentUser
        (Function.update (engine.mutationCallbacks engine.currentUser) batchId none) }

/-- Tell the callbacks that wait for this write as the last pending one. -/
def triggerPendingWriteCallbacks (batchId : Int) (engine : SyncEngine Store User) :
    SyncEngine Store User :=
  match engine.pendingWritesCallbacks.find? (fun entry => entry.1 = batchId) with
  | none => engine
  | some entry =>
    { engine with
      told := engine.told ++ entry.2.map (fun callback => (callback, Error.ok))
      pendingWritesCallbacks :=
        engine.pendingWritesCallbacks.filter (fun other => other.1 ≠ batchId) }

/-- `FailOutstandingPendingWriteCallbacks`. The source goes through an unordered map, so the
order between different numbers is open there; here the lists are told in the order they were
begun, and what is proved of it does not depend on which. -/
def failOutstandingPendingWriteCallbacks (engine : SyncEngine Store User) :
    SyncEngine Store User :=
  { engine with
    told := engine.told ++ engine.pendingWritesCallbacks.flatMap
      (fun entry => entry.2.map (fun callback => (callback, Error.cancelled)))
    pendingWritesCallbacks := [] }

/-- Append to the callbacks under a number. -/
def pushCallback (batchId : Int) (callback : Nat) :
    List (Int × List Nat) → List (Int × List Nat)
  | [] => [(batchId, [callback])]
  | entry :: rest =>
    if entry.1 = batchId then (entry.1, entry.2 ++ [callback]) :: rest
    else entry :: pushCallback batchId callback rest

variable {M : Type} [MutationQueue Store User M]

/-- `RegisterPendingWritesCallback`: a callback waits for the highest batch of the queue, and is
told at once where there is none. -/
def registerPendingWritesCallback (callback : Nat) (engine : SyncEngine Store User) :
    SyncEngine Store User :=
  let largest := MutationQueue.getHighestUnacknowledgedBatchId engine.store
  if largest = kBatchIdUnknown then
    { engine with told := engine.told ++ [(callback, .ok)] }
  else
    { engine with
      pendingWritesCallbacks := pushCallback largest callback engine.pendingWritesCallbacks }

/-- Another user's queue is taken up; whoever waited for this one's writes is told. -/
def changeUser (user : User) (engine : SyncEngine Store User) : SyncEngine Store User :=
  if engine.currentUser = user then engine
  else
    let failed := { engine with currentUser := user }.failOutstandingPendingWriteCallbacks
    { failed with store := MutationQueue.start user failed.store }

/-- A callback is kept under the number of its batch, if the number is free. -/
def insertCallback (batchId : Int) (callback : Nat) (engine : SyncEngine Store User) :
    SyncEngine Store User :=
  if (engine.mutationCallbacks engine.currentUser batchId).isSome then engine
  else
    { engine with
      mutationCallbacks := Function.update engine.mutationCallbacks engine.currentUser
        (Function.update (engine.mutationCallbacks engine.currentUser) batchId (some callback)) }

/-- `AcknowledgeBatch` of the local store: the batch leaves the queue. -/
def acknowledgeBatch (batch : MutationBatch M) (token : ByteString)
    (engine : SyncEngine Store User) : Option (SyncEngine Store User) := do
  let acknowledged ← MutationQueue.acknowledgeBatch batch token engine.store
  let removed ← MutationQueue.removeMutationBatch batch acknowledged
  MutationQueue.performConsistencyCheck removed
  some { engine with store := removed }

/-- `RejectBatch` of the local store. -/
def rejectBatch (batchId : Int) (engine : SyncEngine Store User) :
    Option (SyncEngine Store User) := do
  let found ← MutationQueue.lookupMutationBatch batchId engine.store
  let batch ← found
  let removed ← MutationQueue.removeMutationBatch batch engine.store
  MutationQueue.performConsistencyCheck removed
  some { engine with store := removed }

/-- `HandleSuccessfulWrite`. -/
def handleSuccessfulWrite (batch : MutationBatch M) (token : ByteString)
    (engine : SyncEngine Store User) : Option (SyncEngine Store User) :=
  ((engine.notifyUser batch.batchId .ok).triggerPendingWriteCallbacks
    batch.batchId).acknowledgeBatch batch token

/-- `HandleRejectedWrite`. -/
def handleRejectedWrite (batchId : Int) (status : Error) (engine : SyncEngine Store User) :
    Option (SyncEngine Store User) := do
  let rejected ← engine.rejectBatch batchId
  some ((rejected.notifyUser batchId status).triggerPendingWriteCallbacks batchId)

end SyncEngine

namespace FirestoreClient

variable {Store User M : Type} [DecidableEq User] [MutationQueue Store User M]

/-- The loop that fills the pipeline, with a bound on its rounds. -/
def fillLoop : Nat → Int → FirestoreClient Store User M →
    Option (FirestoreClient Store User M)
  | 0, _, client => some client
  | rounds + 1, lastRetrieved, client =>
    if client.remote.canAddToWritePipeline = true then do
      let found ← MutationQueue.nextMutationBatchAfterBatchId lastRetrieved client.engine.store
      match found with
      | none =>
        if client.remote.writePipeline.isEmpty then
          some { client with remote := client.remote.markIdle }
        else some client
      | some batch =>
        let remote ← client.remote.addToWritePipeline batch
        fillLoop rounds batch.batchId { client with remote }
    else some client

/-- Start the stream if there is work for it. -/
def startIfNeeded (client : FirestoreClient Store User M) :
    Option (FirestoreClient Store User M) :=
  if client.remote.shouldStartWriteStream = true then do
    let remote ← client.remote.startWriteStream
    some { client with remote }
  else some client

/-- Move batches of the queue into the pipeline, and start the stream if it is needed. -/
def fillWritePipeline (client : FirestoreClient Store User M) :
    Option (FirestoreClient Store User M) := do
  let last := (client.remote.writePipeline.getLast?.map MutationBatch.batchId).getD kBatchIdUnknown
  let filled ← client.fillLoop kMaxPendingWrites last
  filled.startIfNeeded

/-- A permanent error is the answer to the first batch of the pipeline. -/
def handleWriteError (error : Error) (client : FirestoreClient Store User M) :
    Option (FirestoreClient Store User M) := do
  guard (error ≠ .ok)
  let permanent ← isPermanentWriteError error
  if permanent = false then some client
  else
    match client.remote.writePipeline with
    | [] => none
    | batch :: rest => do
      let remote ← { client.remote with writePipeline := rest }.inhibitBackoff
      let engine ← client.engine.handleRejectedWrite batch.batchId error
      fillWritePipeline ⟨engine, remote⟩

/-- A permanent error of the handshake makes the stream token void. -/
def handleHandshakeError (error : Error) (client : FirestoreClient Store User M) :
    Option (FirestoreClient Store User M) := do
  guard (error ≠ .ok)
  let permanent ← isPermanentError error
  if permanent = false then some client
  else
    some ⟨{ client.engine with store := MutationQueue.setLastStreamToken [] client.engine.store },
      { client.remote with lastStreamToken := [] }⟩

/-- The part of `OnWriteStreamClose` that handles an error while there are batches. -/
def handleStreamError (error : Error) (client : FirestoreClient Store User M) :
    Option (FirestoreClient Store User M) :=
  if error ≠ .ok ∧ client.remote.writePipeline ≠ [] then
    if client.remote.handshakeComplete = true then client.handleWriteError error
    else client.handleHandshakeError error
  else some client

/-- A graceful close must be desirable; after an error the stream may be needed again. -/
def onWriteStreamClose (error : Error) (client : FirestoreClient Store User M) :
    Option (FirestoreClient Store User M) := do
  guard (error = .ok → client.remote.shouldStartWriteStream = false)
  let handled ← client.handleStreamError error
  handled.startIfNeeded

/-- `Close` of the stream: it forgets its call and its timers, and then says so. -/
def close (error : Error) (client : FirestoreClient Store User M) :
    Option (FirestoreClient Store User M) :=
  if error = .ok ∧ client.remote.isStarted = false then some client
  else do
    guard (client.remote.isStarted = true)
    let closed ← onWriteStreamClose error { client with
      remote := { client.remote with
        idlenessTimer := false
        backoff := false
        closeCount := client.remote.closeCount + 1
        call := none
        state := if error = .ok then .initial else .error } }
    some { closed with remote := { closed.remote with handshakeComplete := false } }

/-- `EnableNetwork` once the network is on: the saved token is loaded, the pipeline filled. -/
def connect (client : FirestoreClient Store User M) : Option (FirestoreClient Store User M) :=
  if client.remote.canUseNetwork = true then
    fillWritePipeline { client with remote := { client.remote with
      lastStreamToken := MutationQueue.getLastStreamToken client.engine.store } }
  else some client

/-- `EnableNetwork`. -/
def enableNetwork (client : FirestoreClient Store User M) :
    Option (FirestoreClient Store User M) :=
  { client with remote := { client.remote with isNetworkEnabled := true } }.connect

/-- `DisableNetworkInternal`: the stream is stopped and the pipeline given up. -/
def disableNetworkInternal (client : FirestoreClient Store User M) :
    Option (FirestoreClient Store User M) := do
  let stopped ← client.close .ok
  some { stopped with remote := { stopped.remote with writePipeline := [] } }

/-- `DisableNetwork`. -/
def disableNetwork (client : FirestoreClient Store User M) :
    Option (FirestoreClient Store User M) :=
  { client with remote := { client.remote with isNetworkEnabled := false } }.disableNetworkInternal

/-- The handshake is over: the pipeline is sent. -/
def onWriteStreamHandshakeComplete (client : FirestoreClient Store User M) :
    Option (FirestoreClient Store User M) := do
  let store := MutationQueue.setLastStreamToken client.remote.lastStreamToken client.engine.store
  let remote ← client.remote.writePipeline.foldlM
    (fun remote batch => remote.writeMutations batch.mutations) client.remote
  some ⟨{ client.engine with store }, remote⟩

/-- A result is the answer to the first batch of the pipeline, one for each mutation. -/
def onWriteStreamMutationResult (results : Nat) (client : FirestoreClient Store User M) :
    Option (FirestoreClient Store User M) :=
  match client.remote.writePipeline with
  | [] => none
  | batch :: rest => do
    guard (batch.mutations.length = results)
    let engine ← client.engine.handleSuccessfulWrite batch client.remote.lastStreamToken
    fillWritePipeline ⟨engine, { client.remote with writePipeline := rest }⟩

/-- `NotifyStreamResponse`: the first response of a call ends the handshake. -/
def onStreamRead (response : Response) (client : FirestoreClient Store User M) :
    Option (FirestoreClient Store User M) := do
  guard (client.remote.isStarted = true)
  let received := { client.remote with lastStreamToken := response.streamToken }
  if received.handshakeComplete = false then
    onWriteStreamHandshakeComplete ⟨client.engine, { received with handshakeComplete := true }⟩
  else
    onWriteStreamMutationResult response.results ⟨client.engine, received⟩

/-- `WriteMutations` of the client and of the sync engine: nothing to write is done at once. -/
def writeMutations (mutations : List M) (callback : Nat)
    (client : FirestoreClient Store User M) : Option (FirestoreClient Store User M) :=
  if mutations.isEmpty then
    some { client with engine := { client.engine with
      told := client.engine.told ++ [(callback, .ok)] } }
  else do
    let (batch, store) ← MutationQueue.addMutationBatch mutations client.engine.store
    fillWritePipeline ⟨{ client.engine with store }.insertCallback batch.batchId callback,
      client.remote⟩

/-- `HandleCredentialChange` of the remote store: the streams are made anew. -/
def restartStreams (client : FirestoreClient Store User M) :
    Option (FirestoreClient Store User M) :=
  if client.remote.canUseNetwork = true then do
    let disabled ← { client with
      remote := { client.remote with isNetworkEnabled := false } }.disableNetworkInternal
    disabled.enableNetwork
  else some client

/-- `HandleCredentialChange` of the sync engine. -/
def handleCredentialChange (user : User) (client : FirestoreClient Store User M) :
    Option (FirestoreClient Store User M) :=
  restartStreams ⟨client.engine.changeUser user, client.remote⟩

/-- The token is there, or there is none. -/
def resumeStartWithCredentials (token : Except Error User)
    (client : FirestoreClient Store User M) : Option (FirestoreClient Store User M) := do
  guard (client.remote.state = .starting)
  match token with
  | .error error => client.close error
  | .ok user =>
    let remote ← client.remote.onStreamStart user
    some { client with remote }

end FirestoreClient

end Amigo.Firestore
