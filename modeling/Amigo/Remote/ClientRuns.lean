import Amigo.GuardedRuns
import Amigo.Remote.RemoteStore

/-!
# Runs of the writing client

The client runs one task of its worker queue at a time. The app calls it at any time,
and its calls become tasks; a change of the signed-in user reaches the credentials
provider at once and the client as a task; an answer to a token request becomes a task
too. The server reads the requests of a call in order, commits the mutations of a
write, and answers; it may end the call with a status, and the call may fail at any
time, when what was under way in it is lost. A call the client has left is read no
further. The order of all these is free.

An event that cannot occur in a state changes nothing there. A step returns nothing
only where an assertion of the client fails.
-/

namespace Amigo.Firestore

/-- A failure is never a success. -/
abbrev Failure := { error : Error // error ≠ .ok }

/-- What the app asks of the client. -/
inductive ApiRequest (M : Type) where
  | write (mutations : List M)
  | waitForPendingWrites
  | enableNetwork
  | disableNetwork
deriving DecidableEq

/-- A call of the app, with the user signed in when it was made. Its callback is known
by its place among the calls. -/
structure ApiCall (User M : Type) where
  user : User
  request : ApiRequest M
deriving DecidableEq

/-- A task of the worker queue. -/
inductive Task (User M : Type) where
  | request (callback : Nat) (request : ApiRequest M)
  | credentialChange (user : User)
  | token (closeCount : Nat) (token : Except Failure User)

/-- A write the server has committed: the stream it came on, by the number of streams
closed before it, and the user of that stream. -/
structure Commit (User M : Type) where
  stream : Nat
  user : User
  mutations : List M
deriving DecidableEq

/-- The client with its worker queue, the calls of the app, and what the server has
committed. -/
structure System (Store User M : Type) where
  client : FirestoreClient Store User M
  tasks : List (Task User M)
  calls : List (ApiCall User M)
  committed : List (Commit User M)

/-- What can happen. -/
inductive Event (User M : Type) where
  | api (request : ApiRequest M)
  | signIn (user : User)
  | tokenAnswered (index : Nat) (failure : Option Failure)
  | runTask
  | backoffElapsed
  | idleTimeout
  | serverReads (streamToken : ByteString)
  | serverFinishes (status : Error)
  | deliver
  | breakOff (status : Error)

namespace FirestoreClient

variable {Store User M : Type} [DecidableEq User] [MutationQueue Store User M]

/-- A client before its start. -/
def fresh (user : User) (store : Store) : FirestoreClient Store User M :=
  ⟨⟨user, fun _ _ => none, [], MutationQueue.start user store, []⟩,
    ⟨false, [], .initial, false, false, false, 0, [], none, user, 0, []⟩⟩

/-- Tell a callback of the app. -/
def tell (callback : Nat) (status : Error) (client : FirestoreClient Store User M) :
    FirestoreClient Store User M :=
  { client with engine := { client.engine with
    told := client.engine.told ++ [(callback, status)] } }

/-- A task of the worker queue runs. -/
def run (task : Task User M) (client : FirestoreClient Store User M) :
    Option (FirestoreClient Store User M) :=
  match task with
  | .request callback (.write mutations) => client.writeMutations mutations callback
  | .request callback .waitForPendingWrites =>
    some { client with engine := client.engine.registerPendingWritesCallback callback }
  | .request callback .enableNetwork => client.enableNetwork.map (tell callback .ok)
  | .request callback .disableNetwork => client.disableNetwork.map (tell callback .ok)
  | .credentialChange user => client.handleCredentialChange user
  | .token closeCount token =>
    if client.remote.closeCount ≠ closeCount then some client
    else client.resumeStartWithCredentials (token.mapError Subtype.val)

/-- The client has responses of its call left to read. -/
def withResponses (call : Call User M) (responses : List Response)
    (client : FirestoreClient Store User M) : FirestoreClient Store User M :=
  ⟨client.engine, { client.remote with call := some { call with responses } }⟩

/-- The client reads the next response, or learns that the call has ended. -/
def deliver (client : FirestoreClient Store User M) : Option (FirestoreClient Store User M) :=
  match client.remote.call with
  | none => some client
  | some call =>
    match call.responses, call.finished with
    | response :: rest, _ => onStreamRead response (client.withResponses call rest)
    | [], some status => client.close status
    | [], none => some client

end FirestoreClient

namespace System

variable {Store User M : Type} [DecidableEq User] [MutationQueue Store User M]

/-- The client starts with the queues an earlier session has left. -/
def initialized (user : User) (store : Store) : Option (System Store User M) := do
  let client ← (FirestoreClient.fresh user store).enableNetwork
  some ⟨client, [], [], []⟩

/-- Put the client in a new state. -/
def withClient (client : FirestoreClient Store User M) (system : System Store User M) :
    System Store User M :=
  { system with client }

/-- Change the call of the stream. -/
def withCall (call : Call User M) (system : System Store User M) : System Store User M :=
  { system with client := { system.client with
    remote := { system.client.remote with call := some call } } }

/-- The server reads the next request of the call, commits what it asks, and answers. -/
def serverReads (streamToken : ByteString) (system : System Store User M) :
    System Store User M :=
  match system.client.remote.call with
  | none => system
  | some call =>
    match call.requests, call.finished with
    | .handshake :: rest, none =>
      system.withCall { call with
        requests := rest
        responses := call.responses ++ [⟨0, streamToken⟩] }
    | .write mutations _ :: rest, none =>
      { system.withCall { call with
          requests := rest
          responses := call.responses ++ [⟨mutations.length, streamToken⟩] } with
        committed := system.committed ++
          [⟨system.client.remote.closeCount, call.user, mutations⟩] }
    | _, _ => system

/-- The server ends the call. -/
def serverFinishes (status : Error) (system : System Store User M) : System Store User M :=
  match system.client.remote.call with
  | none => system
  | some call =>
    match call.finished with
    | none => system.withCall { call with finished := some status }
    | some _ => system

/-- A token request is answered, unless the user has changed since it was made. -/
def tokenAnswered (index : Nat) (failure : Option Failure) (system : System Store User M) :
    System Store User M :=
  let remote := system.client.remote
  match remote.tokenRequests[index]? with
  | none => system
  | some request =>
    let token : Except Failure User :=
      if request.tokenCounter ≠ remote.tokenCounter then .error ⟨.aborted, by decide⟩
      else match failure with
        | none => .ok remote.credentials
        | some failure => .error failure
    { system with
      client := { system.client with
        remote := { remote with tokenRequests := remote.tokenRequests.eraseIdx index } }
      tasks := system.tasks ++ [.token request.closeCount token] }

/-- One event. -/
def step (system : System Store User M) : Event User M → Option (System Store User M)
  | .api request => some { system with
      calls := system.calls ++ [⟨system.client.remote.credentials, request⟩]
      tasks := system.tasks ++ [.request system.calls.length request] }
  | .signIn user => some { system with
      client := { system.client with
        remote := { system.client.remote with
          credentials := user
          tokenCounter := system.client.remote.tokenCounter + 1 } }
      tasks := system.tasks ++ [.credentialChange user] }
  | .tokenAnswered index failure => some (system.tokenAnswered index failure)
  | .runTask =>
    match system.tasks with
    | [] => some system
    | task :: rest => do
      let client ← system.client.run task
      some { system with client, tasks := rest }
  | .backoffElapsed =>
    if system.client.remote.backoff = true then do
      let remote ← system.client.remote.backoffElapsed
      some (system.withClient { system.client with remote })
    else some system
  | .idleTimeout =>
    if system.client.remote.idlenessTimer = true then do
      let client ← system.client.close .ok
      some (system.withClient client)
    else some system
  | .serverReads streamToken => some (system.serverReads streamToken)
  | .serverFinishes status => some (system.serverFinishes status)
  | .deliver => do
    let client ← system.client.deliver
    some (system.withClient client)
  | .breakOff status =>
    if system.client.remote.call.isSome then do
      let client ← system.client.close status
      some (system.withClient client)
    else some system

end System

end Amigo.Firestore
