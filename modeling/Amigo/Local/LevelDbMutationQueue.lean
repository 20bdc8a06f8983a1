import Amigo.Local.LevelDbKey

/-!
# Mutation queues in the local database

A queue in the local database is the rows of its user in two tables: the batches by their
numbers, and for each document a batch writes to a row of an index that has no value. The
index answers which batches concern a set of documents or a collection by scans that
start where the rows sought begin and break off at the first that is not sought.

A queue is started with the number after the highest of any user, which the last row of
each user tells, and with what a third table keeps of it: the token of the stream. A batch
without a write cannot be made: an assertion stops the client.

The database is the sorted list of all its rows, as a transaction sees them; two searches
of the source read the database itself, before any row of their transaction is written.
How a batch is written in its row is left to a serializer, and how the rest of a queue is
to another. The index of collection parents, the garbage collector and write times are left
out, and numbers do not wrap around.
-/

namespace Amigo.Firestore

/-- How batches are written and read back. -/
structure LocalSerializer (Change : Type) where
  encodeMutationBatch : MutationBatch (Mutation DocumentKey Change) → ByteString
  decodeMutationBatch : ByteString → Option (MutationBatch (Mutation DocumentKey Change))

/-- The rows of a database. -/
abbrev LevelDb := List (ByteString × ByteString)

namespace LevelDb

/-- The rows from a key on. -/
def seek (key : ByteString) (db : LevelDb) : LevelDb := db.dropWhile fun row => row.1 < key

/-- Go through rows in order and collect the numbers found in each, until a row breaks the
search off. -/
def scan (visit : ByteString → Option (Option (List Int))) : LevelDb → Option (List Int)
  | [] => some []
  | row :: rest => do
    match ← visit row.1 with
    | none => some []
    | some found => do
      let others ← scan visit rest
      some (found ++ others)

end LevelDb

/-- The queue of the user in use. -/
structure LevelDbMutationQueue where
  db : LevelDb
  userId : ByteString
  nextBatchId : Int

namespace LevelDbMutationQueue

variable {Change : Type}

/-- The index rows of the documents a batch writes to. -/
def indexKeys (userId : ByteString) (batch : MutationBatch (Mutation DocumentKey Change)) :
    Option (List ByteString) :=
  batch.mutations.mapM fun mutation =>
    LevelDbDocumentMutationKey.key userId mutation.key batch.batchId

/-- The user and the number in the row a search has stopped at, if it is of a batch. -/
def decodeRow : Option (ByteString × ByteString) → Option (Option (ByteString × Int))
  | none => some none
  | some row => LevelDbMutationKey.decode row.1

/-- The highest number from a user with rows on, or the one given. The last row of a user
is before the first row after all of the user's; the source goes on while another user
has rows, and here for as many rounds as given. -/
def highestBatchId (db : LevelDb) : Nat → ByteString → Int → Option Int
  | 0, _, _ => none
  | rounds + 1, nextUserId, maxBatchId => do
    let userEnd := ByteString.prefixSuccessor (← LevelDbMutationKey.userPrefix nextUserId)
    let more ← decodeRow (db.seek userEnd).head?
    let last ← (db.takeWhile fun row => row.1 < userEnd).getLast?
    let (_, batchId) ← ← LevelDbMutationKey.decode last.1
    let maxBatchId := if maxBatchId < batchId then batchId else maxBatchId
    match more with
    | none => some maxBatchId
    | some (userId, _) => highestBatchId db rounds userId maxBatchId

/-- The number after the highest of any user. -/
def loadNextBatchIdFromDb (db : LevelDb) : Option Int := do
  match ← decodeRow (db.seek (← LevelDbMutationKey.tablePrefix)).head? with
  | none => some 1
  | some (userId, _) => do
    let maxBatchId ← highestBatchId db db.length userId 0
    some (maxBatchId + 1)

/-- Take up the queue of a user. -/
def start (userId : ByteString) (db : LevelDb) : Option LevelDbMutationQueue :=
  (loadNextBatchIdFromDb db).map fun nextBatchId => ⟨db, userId, nextBatchId⟩

/-- `AddMutationBatch`: the batch, and an index row for each document it writes to. -/
def addMutationBatch (serializer : LocalSerializer Change)
    (mutations : List (Mutation DocumentKey Change)) (queue : LevelDbMutationQueue) :
    Option (MutationBatch (Mutation DocumentKey Change) × LevelDbMutationQueue) := do
  let batchId := queue.nextBatchId
  -- asserted where the batch is made
  guard (mutations ≠ [])
  let batch := ⟨batchId, mutations⟩
  let key ← LevelDbMutationKey.key queue.userId batchId
  let stored := SortedEntries.put key (serializer.encodeMutationBatch batch) queue.db
  let keys ← indexKeys queue.userId batch
  some (batch, { queue with
    db := keys.foldl (fun db key => SortedEntries.put key [] db) stored
    nextBatchId := batchId + 1 })

/-- `RemoveMutationBatch`: the batch's row and its index rows; a missing row is a failed assertion. -/
def removeMutationBatch (batch : MutationBatch (Mutation DocumentKey Change))
    (queue : LevelDbMutationQueue) : Option LevelDbMutationQueue := do
  let key ← LevelDbMutationKey.key queue.userId batch.batchId
  let row ← (queue.db.seek key).head?
  guard (key = row.1)
  let keys ← indexKeys queue.userId batch
  some { queue with
    db := keys.foldl (fun db key => SortedEntries.remove key db)
      (SortedEntries.remove key queue.db) }

/-- `IsEmpty`: the first row from the beginning of the user's rows on is not of the user. -/
def isEmpty (queue : LevelDbMutationQueue) : Option Bool := do
  let userKey ← LevelDbMutationKey.userPrefix queue.userId
  match (queue.db.seek userKey).head? with
  | none => some true
  | some row => some (!userKey.isPrefixOf row.1)

/-- `AllMutationBatches`: the rows from the beginning of the user's rows on, until one is not. -/
def allMutationBatches (serializer : LocalSerializer Change) (queue : LevelDbMutationQueue) :
    Option (List (MutationBatch (Mutation DocumentKey Change))) := do
  let userKey ← LevelDbMutationKey.userPrefix queue.userId
  ((queue.db.seek userKey).takeWhile fun row => userKey.isPrefixOf row.1).mapM fun row =>
    serializer.decodeMutationBatch row.2

/-- `LookupMutationBatch`. -/
def lookupMutationBatch (serializer : LocalSerializer Change) (batchId : Int)
    (queue : LevelDbMutationQueue) :
    Option (Option (MutationBatch (Mutation DocumentKey Change))) := do
  let key ← LevelDbMutationKey.key queue.userId batchId
  match SortedEntries.get key queue.db with
  | none => some none
  | some value => (serializer.decodeMutationBatch value).map some

/-- `NextMutationBatchAfterBatchId`: the first row from the next number on, if it is the user's. -/
def nextMutationBatchAfterBatchId (serializer : LocalSerializer Change) (batchId : Int)
    (queue : LevelDbMutationQueue) :
    Option (Option (MutationBatch (Mutation DocumentKey Change))) := do
  let nextBatchId := batchId + 1
  let key ← LevelDbMutationKey.key queue.userId nextBatchId
  match (queue.db.seek key).head? with
  | none => some none
  | some row =>
    match ← LevelDbMutationKey.decode row.1 with
    | none => some none
    | some (userId, found) =>
      if userId ≠ queue.userId then some none
      else do
        guard (nextBatchId ≤ found)
        (serializer.decodeMutationBatch row.2).map some

/-- `GetHighestUnacknowledgedBatchId`: the row before the end of the user's rows. An iterator
past the last row of all has no way back: a failed assertion. -/
def getHighestUnacknowledgedBatchId (queue : LevelDbMutationQueue) : Option Int := do
  let nextUserKey := ByteString.prefixSuccessor (← LevelDbMutationKey.userPrefix queue.userId)
  let _ ← (queue.db.seek nextUserKey).head?
  match (queue.db.takeWhile fun row => row.1 < nextUserKey).getLast? with
  | none => some kBatchIdUnknown
  | some row =>
    match ← LevelDbMutationKey.decode row.1 with
    | none => some kBatchIdUnknown
    | some (userId, batchId) =>
      some (if userId = queue.userId then batchId else kBatchIdUnknown)

/-- `PerformConsistencyCheck`: an empty queue has no rows in the index. -/
def performConsistencyCheck (queue : LevelDbMutationQueue) : Option Unit := do
  if ← queue.isEmpty then
    let indexPrefix ← LevelDbDocumentMutationKey.userPrefix queue.userId
    let dangling := (queue.db.seek indexPrefix).takeWhile fun row => indexPrefix.isPrefixOf row.1
    guard (dangling.isEmpty = true)
  else some ()

/-- Batches by their numbers, each of which has a row. -/
def allMutationBatchesWithIds (serializer : LocalSerializer Change) (batchIds : List (Int × Unit))
    (queue : LevelDbMutationQueue) :
    Option (List (MutationBatch (Mutation DocumentKey Change))) :=
  batchIds.mapM fun entry => do
    let key ← LevelDbMutationKey.key queue.userId entry.1
    let row ← (queue.db.seek key).head?
    guard (row.1 = key)
    serializer.decodeMutationBatch row.2

/-- A row of the document itself goes on. -/
def visitDocument (indexPrefix : ByteString) (documentKey : DocumentKey) (key : ByteString) :
    Option (Option (List Int)) :=
  if indexPrefix.isPrefixOf key then do
    match ← LevelDbDocumentMutationKey.decode key with
    | none => some none
    | some (_, other, batchId) => if other = documentKey then some (some [batchId]) else some none
  else some none

/-- A row beneath the collection goes on, and counts if it is of one of its documents. -/
def visitCollection (indexPrefix : ByteString) (immediateChildrenPathLength : Nat)
    (key : ByteString) : Option (Option (List Int)) :=
  if indexPrefix.isPrefixOf key then do
    match ← LevelDbDocumentMutationKey.decode key with
    | none => some none
    | some (_, other, batchId) =>
      if other.val.length = immediateChildrenPathLength then some (some [batchId])
      else some (some [])
  else some none

/-- Numbers, put into a set. -/
def collect (found : List Int) (batchIds : List (Int × Unit)) : List (Int × Unit) :=
  found.foldl (fun batchIds batchId => SortedEntries.put batchId () batchIds) batchIds

/-- `AllMutationBatchesAffectingDocumentKeys`: the numbers of all of them are gathered first. -/
def allMutationBatchesAffectingDocumentKeys (serializer : LocalSerializer Change)
    (documentKeys : List DocumentKey) (queue : LevelDbMutationQueue) :
    Option (List (MutationBatch (Mutation DocumentKey Change))) := do
  let batchIds ← documentKeys.foldlM (fun batchIds documentKey => do
    let indexPrefix ← LevelDbDocumentMutationKey.pathPrefix queue.userId documentKey.val
    let found ← (queue.db.seek indexPrefix).scan (visitDocument indexPrefix documentKey)
    some (collect found batchIds)) []
  queue.allMutationBatchesWithIds serializer batchIds

/-- `AllMutationBatchesAffectingDocumentKey`. -/
def allMutationBatchesAffectingDocumentKey (serializer : LocalSerializer Change)
    (key : DocumentKey) (queue : LevelDbMutationQueue) :
    Option (List (MutationBatch (Mutation DocumentKey Change))) :=
  queue.allMutationBatchesAffectingDocumentKeys serializer [key]

/-- A query of one document has a path of a document and no filters. -/
def allMutationBatchesAffectingQuery (serializer : LocalSerializer Change) (query : Query)
    (filtered : Bool) (queue : LevelDbMutationQueue) :
    Option (List (MutationBatch (Mutation DocumentKey Change))) := do
  guard (¬ (isDocumentKey query.path = true ∧ query.collectionGroup = none ∧ filtered = false))
  guard (query.collectionGroup = none)
  let indexPrefix ← LevelDbDocumentMutationKey.pathPrefix queue.userId query.path
  let found ← (queue.db.seek indexPrefix).scan
    (visitCollection indexPrefix (query.path.length + 1))
  queue.allMutationBatchesWithIds serializer (collect found [])

end LevelDbMutationQueue

/-- What is kept of a queue besides its batches. -/
structure MutationQueueMessage where
  lastAcknowledgedBatchId : Int
  lastStreamToken : ByteString

/-- How what is kept of a queue is written and read back. -/
structure MessageCoding where
  makeStdString : MutationQueueMessage → ByteString
  tryParse : ByteString → Option MutationQueueMessage

/-- A queue that has been started holds a copy of what is kept of it. -/
structure StartedMutationQueue extends LevelDbMutationQueue where
  metadata : MutationQueueMessage

namespace StartedMutationQueue

/-- `MetadataForKey` of a user's queue: a missing row is a message of default values. -/
def metadataForKey (coding : MessageCoding) (userId : ByteString) (db : LevelDb) :
    Option MutationQueueMessage := do
  let key ← LevelDbMutationQueueKey.key userId
  match SortedEntries.get key db with
  | none => some ⟨0, []⟩
  | some value => coding.tryParse value

/-- `Start`, of the queue of a user. -/
def start (coding : MessageCoding) (userId : ByteString) (db : LevelDb) :
    Option StartedMutationQueue := do
  let queue ← LevelDbMutationQueue.start userId db
  let metadata ← metadataForKey coding userId db
  some ⟨queue, metadata⟩

/-- `GetLastStreamToken`. -/
def getLastStreamToken (queue : StartedMutationQueue) : ByteString :=
  queue.metadata.lastStreamToken

/-- `SetLastStreamToken`, which is all that `AcknowledgeBatch` does. -/
def setLastStreamToken (coding : MessageCoding) (streamToken : ByteString)
    (queue : StartedMutationQueue) : Option StartedMutationQueue := do
  let metadata := { queue.metadata with lastStreamToken := streamToken }
  let key ← LevelDbMutationQueueKey.key queue.userId
  some { queue with
    db := SortedEntries.put key (coding.makeStdString metadata) queue.db
    metadata }

end StartedMutationQueue

end Amigo.Firestore
