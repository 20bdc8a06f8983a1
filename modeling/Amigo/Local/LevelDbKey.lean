import Amigo.Local.MemoryMutationQueue
import Amigo.Util.NumbersRead
import Amigo.Util.OrderedStrings

/-!
# Keys of the local database

A key of the local database is a table's name and then the components that tell the row
from the others of its table, each behind a label. The labels are ordered so that a path
sorts before the longer paths it begins. A reader goes through the components of a key
in their order; it returns nothing where an assertion fails, and nothing inside once a
component is not the one it expects.

Of the tables these are the three of the mutation queue: the batches by user and number,
the index of the documents they write to, and what else is kept of each user's queue. The
table with the version of the schema is the last of all by its name.
-/

namespace Amigo.Firestore

open OrderedCode

/-- Labels of the components of keys. -/
inductive ComponentLabel
  | Terminator | TableName | BatchId | CanonicalId | TargetId | UserId | CollectionId
  | DocumentId | SnapshotVersion | PathSegment | Unknown
deriving DecidableEq

namespace ComponentLabel

/-- The number a label is written as. -/
def code : ComponentLabel → Int
  | Terminator => 0
  | TableName => 5
  | BatchId => 10
  | CanonicalId => 11
  | TargetId => 12
  | UserId => 13
  | CollectionId => 14
  | DocumentId => 15
  | SnapshotVersion => 16
  | PathSegment => 62
  | Unknown => 63

end ComponentLabel

/-- The characters of a name, which are all ASCII. -/
def asciiBytes (text : String) : ByteString := text.toList.map fun c => Fin.ofNat 256 c.toNat

/-- The name of the table of batches. -/
def kMutationsTable : ByteString := asciiBytes "mutation"

/-- The name of the table of the document index. -/
def kDocumentMutationsTable : ByteString := asciiBytes "document_mutation"

/-- The name of the table of what is kept of queues. -/
def kMutationQueuesTable : ByteString := asciiBytes "mutation_queue"

/-- The name of the table of the schema's version. -/
def kVersionGlobalTable : ByteString := asciiBytes "version"

/-- What is written is put behind what was written before. -/
abbrev Writer := ByteString → Option ByteString

namespace Writer

/-- `WriteComponentLabel`. -/
def writeComponentLabel (label : ComponentLabel) : Writer := fun dest => do
  some (dest ++ (← writeSignedNumIncreasing label.code))

/-- `WriteLabeledInt32`. -/
def writeLabeledInt32 (label : ComponentLabel) (value : Int) : Writer := fun dest => do
  let labeled ← writeComponentLabel label dest
  some (labeled ++ (← writeSignedNumIncreasing value))

/-- `WriteLabeledString`. -/
def writeLabeledString (label : ComponentLabel) (value : ByteString) : Writer := fun dest => do
  let labeled ← writeComponentLabel label dest
  some (labeled ++ (← writeString value))

/-- `WriteTerminator`. -/
def writeTerminator : Writer := writeComponentLabel .Terminator

/-- `WriteTableName`. -/
def writeTableName (tableName : ByteString) : Writer := writeLabeledString .TableName tableName

/-- `WriteBatchId`. -/
def writeBatchId (batchId : Int) : Writer := writeLabeledInt32 .BatchId batchId

/-- `WriteUserId`. -/
def writeUserId (userId : ByteString) : Writer := writeLabeledString .UserId userId

/-- `WriteResourcePath`: one labeled string for each segment. -/
def writeResourcePath (path : ResourcePath) : Writer := fun dest =>
  path.foldlM (fun dest segment => writeLabeledString .PathSegment segment dest) dest

end Writer

/-- A reader of what is left of a key: nothing is a failed assertion, nothing inside a
component that was not expected. -/
abbrev Reader (A : Type) := StateT ByteString (OptionT Option) A

namespace Reader

/-- The reader of one signed number. -/
def readSignedNumIncreasing : Reader Int := OrderedCode.readSignedNumIncreasing

/-- The reader of one string. -/
def readString : Reader ByteString := OrderedCode.readString

/-- `Fail`: from here on the reader is not ok. -/
def fail {A : Type} : Reader A := fun _ => some none

/-- A label that does not match fails the readers of one component. -/
def readComponentLabelMatching (expectedLabel : ComponentLabel) : Reader Unit := do
  let rawResult ← readSignedNumIncreasing
  if rawResult = expectedLabel.code then pure () else fail

/-- `ReadInt32`: a number outside 32 bits fails. -/
def readInt32 : Reader Int := do
  let rawResult ← readSignedNumIncreasing
  if -2 ^ 31 ≤ rawResult ∧ rawResult ≤ 2 ^ 31 - 1 then pure rawResult else fail

/-- `ReadLabeledInt32`. -/
def readLabeledInt32 (expectedLabel : ComponentLabel) : Reader Int := do
  readComponentLabelMatching expectedLabel
  readInt32

/-- `ReadLabeledString`. -/
def readLabeledString (expectedLabel : ComponentLabel) : Reader ByteString := do
  readComponentLabelMatching expectedLabel
  readString

/-- `ReadTableNameMatching`. -/
def readTableNameMatching (expectedTableName : ByteString) : Reader Unit := do
  let value ← readLabeledString .TableName
  if value = expectedTableName then pure () else fail

/-- `ReadBatchId`. -/
def readBatchId : Reader Int := readLabeledInt32 .BatchId

/-- `ReadUserId`. -/
def readUserId : Reader ByteString := readLabeledString .UserId

/-- `ReadTerminator`. -/
def readTerminator : Reader Unit := readComponentLabelMatching .Terminator

/-- Segments up to the first other label, which is left to be read. -/
def readResourcePath (src : ByteString) : Option (Option (ResourcePath × ByteString)) :=
  if src = [] then some (some ([], src))
  else
    match _isLabel : OrderedCode.readSignedNumIncreasing src with
    | none => none
    | some none => some none
    | some (some (label, labeled)) =>
      if label ≠ ComponentLabel.PathSegment.code then some (some ([], src))
      else
        match _isSegment : OrderedCode.readString labeled with
        | none => none
        | some none => some none
        | some (some (segment, rest)) =>
          (readResourcePath rest).map (Option.map fun others => (segment :: others.1, others.2))
termination_by src.length
decreasing_by
  have behindLabel := ((readSignedNumIncreasing_iff src labeled label).mp _isLabel).2
  have behindSegment := (readString_iff labeled segment rest).mp _isSegment
  rw [behindLabel, behindSegment, List.length_append, List.length_append, stringWord,
    List.length_append, List.length_cons]
  omega

/-- `ReadDocumentKey`: a path that is not empty and names a document. -/
def readDocumentKey : Reader DocumentKey := do
  let path ← (readResourcePath : Reader ResourcePath)
  if even : isDocumentKey path = true then
    if path ≠ [] then pure ⟨path, even⟩ else fail
  else fail

end Reader

namespace LevelDbMutationKey

open Writer Reader

/-- What all keys of the table begin with. -/
def tablePrefix : Option ByteString := writeTableName kMutationsTable []

/-- What the keys of a user begin with. -/
def userPrefix (userId : ByteString) : Option ByteString := do
  let dest ← writeTableName kMutationsTable []
  writeUserId userId dest

/-- `LevelDbMutationKey::Key`. -/
def key (userId : ByteString) (batchId : Int) : Option ByteString := do
  let dest ← writeTableName kMutationsTable []
  let dest ← writeUserId userId dest
  let dest ← writeBatchId batchId dest
  writeTerminator dest

/-- `LevelDbMutationKey::Decode`, with the bytes it leaves. -/
def reader : Reader (ByteString × Int) := do
  readTableNameMatching kMutationsTable
  let userId ← readUserId
  let batchId ← readBatchId
  readTerminator
  pure (userId, batchId)

/-- The user and the number of a batch. -/
def decode (key : ByteString) : Option (Option (ByteString × Int)) :=
  (reader key).map (Option.map Prod.fst)

end LevelDbMutationKey

namespace LevelDbDocumentMutationKey

open Writer Reader

/-- `LevelDbDocumentMutationKey::KeyPrefix` of a user. -/
def userPrefix (userId : ByteString) : Option ByteString := do
  let dest ← writeTableName kDocumentMutationsTable []
  writeUserId userId dest

/-- `LevelDbDocumentMutationKey::KeyPrefix` of a user and a path. -/
def pathPrefix (userId : ByteString) (resourcePath : ResourcePath) : Option ByteString := do
  let dest ← writeTableName kDocumentMutationsTable []
  let dest ← writeUserId userId dest
  writeResourcePath resourcePath dest

/-- `LevelDbDocumentMutationKey::Key`. -/
def key (userId : ByteString) (documentKey : DocumentKey) (batchId : Int) :
    Option ByteString := do
  let dest ← writeTableName kDocumentMutationsTable []
  let dest ← writeUserId userId dest
  let dest ← writeResourcePath documentKey.val dest
  let dest ← writeBatchId batchId dest
  writeTerminator dest

/-- `LevelDbDocumentMutationKey::Decode`, with the bytes it leaves. -/
def reader : Reader (ByteString × DocumentKey × Int) := do
  readTableNameMatching kDocumentMutationsTable
  let userId ← readUserId
  let documentKey ← readDocumentKey
  let batchId ← readBatchId
  readTerminator
  pure (userId, documentKey, batchId)

/-- The user, the document and the number of a batch that writes to it. -/
def decode (key : ByteString) : Option (Option (ByteString × DocumentKey × Int)) :=
  (reader key).map (Option.map Prod.fst)

end LevelDbDocumentMutationKey

/-- `LevelDbMutationQueueKey::Key`. -/
def LevelDbMutationQueueKey.key (userId : ByteString) : Option ByteString := do
  let dest ← Writer.writeTableName kMutationQueuesTable []
  let dest ← Writer.writeUserId userId dest
  Writer.writeTerminator dest

/-- `LevelDbVersionKey::Key`. -/
def LevelDbVersionKey.key : Option ByteString := do
  let dest ← Writer.writeTableName kVersionGlobalTable []
  Writer.writeTerminator dest

end Amigo.Firestore
