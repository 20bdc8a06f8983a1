import Mathlib.Data.List.Lex
import Mathlib.Data.Prod.Lex
import Mathlib.Order.Fin.Basic
import Amigo.Immutable.SortedSet
import Amigo.Local.MutationQueue

/-!
# Mutation queues in memory

A queue in memory is the list of its batches, numbered without gaps, beside an index of
which document each batch writes to: a sorted set of pairs of a key and a number. The
index answers which batches concern a document, a set of documents or a collection by
scans that start at a pair below all those sought and break off at the first that is not
sought.

The persistence keeps one queue for each user, and makes it when it is first asked for.
The index of collection parents, the garbage collector, write times and base mutations
are left out.
-/

namespace Amigo.Firestore

/-- A path of segments, compared segment by segment and byte by byte. -/
abbrev ResourcePath := List ByteString

/-- The path of a document has an even number of segments. -/
def isDocumentKey (path : ResourcePath) : Bool := path.length % 2 == 0

/-- `DocumentKey`: a path with an even number of segments. -/
abbrev DocumentKey := { path : ResourcePath // isDocumentKey path = true }

instance : Inhabited DocumentKey := ⟨⟨[], rfl⟩⟩

/-- None is a failed assertion. -/
def DocumentKey.ofPath (path : ResourcePath) : Option DocumentKey :=
  if even : isDocumentKey path = true then some ⟨path, even⟩ else none

/-- References are ordered by their keys, then by their numbers. -/
abbrev DocumentKeyReference := DocumentKey ×ₗ Int

/-- A reference of a document and a number. -/
def DocumentKeyReference.of (key : DocumentKey) (refId : Int) : DocumentKeyReference :=
  toLex (key, refId)

/-- Its document. -/
def DocumentKeyReference.key (reference : DocumentKeyReference) : DocumentKey := (ofLex reference).1

/-- Its number. -/
def DocumentKeyReference.refId (reference : DocumentKeyReference) : Int := (ofLex reference).2

/-- Where a query looks: a path, or all collections of a name. -/
structure Query where
  path : ResourcePath
  collectionGroup : Option ByteString
deriving DecidableEq

/-- `MemoryMutationQueue`, with the index from documents to the numbers of the batches that
write to them. -/
structure MemoryMutationQueue (Change : Type) where
  queue : List (MutationBatch (Mutation DocumentKey Change))
  nextBatchId : Int
  lastStreamToken : ByteString
  batchesByDocumentKey : SortedSet DocumentKeyReference

namespace MemoryMutationQueue

variable {Change : Type}

/-- A new queue. -/
def create : MemoryMutationQueue Change := ⟨[], 1, [], SortedSet.empty⟩

/-- `IsEmpty`. -/
def isEmpty (queue : MemoryMutationQueue Change) : Bool := queue.queue.isEmpty

/-- `Start`: nothing is loaded, the queue lives in memory. -/
def start (queue : MemoryMutationQueue Change) : MemoryMutationQueue Change :=
  if queue.isEmpty then { queue with nextBatchId := 1 } else queue

/-- `AcknowledgeBatch`: the first batch, and no other. -/
def acknowledgeBatch (batch : MutationBatch (Mutation DocumentKey Change))
    (streamToken : ByteString) (queue : MemoryMutationQueue Change) :
    Option (MemoryMutationQueue Change) := do
  let check ← queue.queue.head?
  guard (batch.batchId = check.batchId)
  some { queue with lastStreamToken := streamToken }

/-- Track the documents a batch writes to. -/
def trackReferences (batchId : Int) (mutations : List (Mutation DocumentKey Change))
    (set : SortedSet DocumentKeyReference) : Option (SortedSet DocumentKeyReference) :=
  mutations.foldlM (fun set mutation => SortedSet.insert (.of mutation.key batchId) set) set

/-- `AddMutationBatch`: no batch is empty, and its number is above the last one's. -/
def addMutationBatch (mutations : List (Mutation DocumentKey Change))
    (queue : MemoryMutationQueue Change) :
    Option (MutationBatch (Mutation DocumentKey Change) × MemoryMutationQueue Change) := do
  guard (mutations ≠ [])
  let batchId := queue.nextBatchId
  guard (∀ prior ∈ queue.queue.getLast?, prior.batchId < batchId)
  let batch := ⟨batchId, mutations⟩
  let tracked ← trackReferences batchId mutations queue.batchesByDocumentKey
  some (batch, { queue with
    queue := queue.queue ++ [batch]
    nextBatchId := batchId + 1
    batchesByDocumentKey := tracked })

/-- Forget the documents a batch writes to. -/
def forgetReferences (batchId : Int) (mutations : List (Mutation DocumentKey Change))
    (set : SortedSet DocumentKeyReference) : Option (SortedSet DocumentKeyReference) :=
  mutations.foldlM (fun set mutation => SortedSet.erase (.of mutation.key batchId) set) set

/-- `RemoveMutationBatch`: the first batch, and no other. -/
def removeMutationBatch (batch : MutationBatch (Mutation DocumentKey Change))
    (queue : MemoryMutationQueue Change) : Option (MemoryMutationQueue Change) := do
  let head ← queue.queue.head?
  guard (head.batchId = batch.batchId)
  let left ← forgetReferences batch.batchId batch.mutations queue.batchesByDocumentKey
  some { queue with queue := queue.queue.tail, batchesByDocumentKey := left }

/-- Where a batch would be, counted from the first. -/
def indexOfBatchId (batchId : Int) (queue : MemoryMutationQueue Change) : Int :=
  match queue.queue with
  | [] => 0
  | first :: _ => batchId - first.batchId

/-- `LookupMutationBatch`, by the position its number gives. -/
def lookupMutationBatch (batchId : Int) (queue : MemoryMutationQueue Change) :
    Option (Option (MutationBatch (Mutation DocumentKey Change))) :=
  if queue.queue.isEmpty then some none
  else
    let index := queue.indexOfBatchId batchId
    if index < 0 ∨ (queue.queue.length : Int) ≤ index then some none
    else do
      let batch ← queue.queue[index.toNat]?
      guard (batch.batchId = batchId)
      some (some batch)

/-- `NextMutationBatchAfterBatchId`. -/
def nextMutationBatchAfterBatchId (batchId : Int) (queue : MemoryMutationQueue Change) :
    Option (MutationBatch (Mutation DocumentKey Change)) :=
  let rawIndex := queue.indexOfBatchId (batchId + 1)
  let index := if rawIndex < 0 then 0 else rawIndex.toNat
  if queue.queue.length ≤ index then none else queue.queue[index]?

/-- `GetHighestUnacknowledgedBatchId`. -/
def getHighestUnacknowledgedBatchId (queue : MemoryMutationQueue Change) : Int :=
  if queue.isEmpty then kBatchIdUnknown else queue.nextBatchId - 1

/-- `PerformConsistencyCheck`: an empty queue has an empty index. -/
def performConsistencyCheck (queue : MemoryMutationQueue Change) : Option Unit :=
  if queue.queue.isEmpty then guard (queue.batchesByDocumentKey.isEmpty = true) else some ()

/-- The numbers of a set, each once and in order, with their batches. -/
def allMutationBatchesWithIds (batchIds : List (Int × Unit))
    (queue : MemoryMutationQueue Change) :
    Option (List (MutationBatch (Mutation DocumentKey Change))) :=
  (batchIds.mapM fun entry => queue.lookupMutationBatch entry.1).map (List.filterMap id)

/-- The references of a document: the scan breaks off at the first of another. -/
def referencesOf (key : DocumentKey) (queue : MemoryMutationQueue Change) :
    Option (List DocumentKeyReference) :=
  (queue.batchesByDocumentKey.valuesFrom (.of key 0)).map fun references =>
    references.takeWhile (fun reference => reference.key = key)

/-- `AllMutationBatchesAffectingDocumentKeys`: the numbers of all of them are gathered first. -/
def allMutationBatchesAffectingDocumentKeys (documentKeys : List DocumentKey)
    (queue : MemoryMutationQueue Change) :
    Option (List (MutationBatch (Mutation DocumentKey Change))) := do
  let batchIds ← documentKeys.foldlM (fun batchIds key => do
    let references ← queue.referencesOf key
    some (references.foldl (fun batchIds reference =>
      SortedEntries.put reference.refId () batchIds) batchIds)) []
  queue.allMutationBatchesWithIds batchIds

/-- `AllMutationBatchesAffectingDocumentKey`. -/
def allMutationBatchesAffectingDocumentKey (key : DocumentKey)
    (queue : MemoryMutationQueue Change) :
    Option (List (MutationBatch (Mutation DocumentKey Change))) := do
  let references ← queue.referencesOf key
  references.mapM fun reference => do
    let batch ← queue.lookupMutationBatch reference.refId
    batch

/-- `AllMutationBatchesAffectingQuery`: from the first reference beneath the path on, while they
are beneath it. -/
def allMutationBatchesAffectingQuery (query : Query) (queue : MemoryMutationQueue Change) :
    Option (List (MutationBatch (Mutation DocumentKey Change))) := do
  guard (query.collectionGroup = none)
  let startPath := if isDocumentKey query.path then query.path else query.path ++ [[]]
  let start ← DocumentKey.ofPath startPath
  let references ← queue.batchesByDocumentKey.valuesFrom (.of start 0)
  let rows := references.takeWhile fun reference => query.path.isPrefixOf reference.key.val
  let children := rows.filter fun reference =>
    reference.key.val.length = query.path.length + 1
  queue.allMutationBatchesWithIds (children.foldl (fun batchIds reference =>
    SortedEntries.put reference.refId () batchIds) [])

/-- `ContainsKey`. -/
def containsKey (key : DocumentKey) (queue : MemoryMutationQueue Change) : Option Bool :=
  (queue.batchesByDocumentKey.valuesFrom (.of key 0)).map fun references =>
    references.head?.any (fun reference => reference.key = key)

end MemoryMutationQueue

/-- The queues of all users, of which one is in use. -/
structure MemoryPersistence (User Change : Type) where
  queues : User → MemoryMutationQueue Change
  user : User

namespace MemoryPersistence

variable {User Change : Type} [DecidableEq User]

/-- No one has written yet. -/
def create (user : User) : MemoryPersistence User Change := ⟨fun _ => .create, user⟩

/-- The queue in use. -/
def current (store : MemoryPersistence User Change) : MemoryMutationQueue Change :=
  store.queues store.user

/-- The store with another queue for the user whose queue it uses. -/
def withCurrent (queue : MemoryMutationQueue Change) (store : MemoryPersistence User Change) :
    MemoryPersistence User Change :=
  { store with queues := Function.update store.queues store.user queue }

instance : MutationQueue (MemoryPersistence User Change) User (Mutation DocumentKey Change) where
  start user store := { store with user }.withCurrent (store.queues user).start
  addMutationBatch mutations store :=
    (store.current.addMutationBatch mutations).map fun result =>
      (result.1, store.withCurrent result.2)
  acknowledgeBatch batch token store :=
    (store.current.acknowledgeBatch batch token).map store.withCurrent
  removeMutationBatch batch store := (store.current.removeMutationBatch batch).map store.withCurrent
  lookupMutationBatch batchId store := store.current.lookupMutationBatch batchId
  nextMutationBatchAfterBatchId batchId store :=
    some (store.current.nextMutationBatchAfterBatchId batchId)
  getHighestUnacknowledgedBatchId store := store.current.getHighestUnacknowledgedBatchId
  performConsistencyCheck store := store.current.performConsistencyCheck
  getLastStreamToken store := store.current.lastStreamToken
  setLastStreamToken token store := store.withCurrent { store.current with lastStreamToken := token }

end MemoryPersistence

end Amigo.Firestore
