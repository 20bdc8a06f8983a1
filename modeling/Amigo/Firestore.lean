import Mathlib.Data.List.Sort
import Mathlib.Logic.Function.Basic
import Amigo.KeyedRows

/-!
# The cloud collections

A Firestore collection holds documents under distinct keys. A document is a
list of named fields; a field is a string or a server time, the only kinds this
app stores. A write carries field values in which a placeholder may stand for
the server time; the server replaces it when it commits the write. Setting a
document without merge replaces it whole and creates it when it is missing.

A client lays its own queued writes over every snapshot it reads. The server time
of such a write is still to come: it stands for a time after every committed one,
and among queued writes in the order they were issued.

A read returns one collection. The plain read is in key order. The ordered read
keeps the documents whose `lastUpdate` field exists and is not before the cursor,
in the order of that field and then of the key; times come before strings. Missing
documents, indexes and security rules are not part of this model.
-/

namespace Amigo

/-- Seconds since the epoch and nanoseconds within the second. -/
structure Timestamp where
  seconds : Int
  nanoseconds : Nat
deriving DecidableEq

/-- The first time is not after the second. -/
def Timestamp.notAfter (first second : Timestamp) : Bool :=
  first.seconds < second.seconds ||
    (first.seconds == second.seconds && decide (first.nanoseconds ≤ second.nanoseconds))

/-- A field of a document: a string, a server time, or the time still to come of the
queued write with this number. -/
inductive Value where
  | string (text : String)
  | timestamp (time : Timestamp)
  | pendingTime (number : Nat)
deriving DecidableEq

/-- The order of field values: every time precedes every string, and every committed
time those still to come. -/
def Value.notAfter : Value → Value → Bool
  | .timestamp first, .timestamp second => first.notAfter second
  | .pendingTime first, .pendingTime second => decide (first ≤ second)
  | .timestamp _, .pendingTime _ => true
  | .pendingTime _, .timestamp _ => false
  | .string first, .string second => decide (first ≤ second)
  | .string _, _ => false
  | _, .string _ => true

/-- What is put for the server time of a write: the time of its commit, or its number
in the queue of the client that reads it. -/
inductive Stamp where
  | committed (time : Timestamp)
  | pending (number : Nat)
deriving DecidableEq

/-- The value a server time has under a stamp. -/
def Stamp.value : Stamp → Value
  | .committed time => .timestamp time
  | .pending number => .pendingTime number

/-- A field of a write: a value, or the placeholder for the commit time. -/
inductive FieldValue where
  | value (stored : Value)
  | serverTimestamp
deriving DecidableEq

/-- The fields of a stored document. -/
abbrev Fields := List (String × Value)

/-- The fields of a document as it is written. -/
abbrev Json := List (String × FieldValue)

/-- The field under a name, if the document has it. -/
def Fields.get (fields : Fields) (name : String) : Option Value := fields.lookup name

/-- The conditional cast of a field to a string. A forced cast traps exactly
when this is none. -/
def Fields.string (fields : Fields) (name : String) : Option String :=
  match fields.get name with
  | some (.string text) => some text
  | _ => none

/-- The stored form of a written field. -/
def FieldValue.resolve (stamp : Stamp) : FieldValue → Value
  | .value stored => stored
  | .serverTimestamp => stamp.value

/-- The stored form of a written document. -/
def resolve (stamp : Stamp) (json : Json) : Fields :=
  json.map (fun field => (field.1, field.2.resolve stamp))

/-- A stored document. -/
structure Document where
  documentID : String
  data : Fields
deriving DecidableEq

/-- The collections of the app. -/
inductive CollectionName where
  | posts
  | cities
  | deleter
  | users
deriving DecidableEq

/-- The committed contents of every collection. -/
abbrev Cloud := CollectionName → List Document

/-- Documents are replaced by key. -/
def sameDocument (first second : Document) : Prop := first.documentID = second.documentID

instance : DecidableRel sameDocument := fun first second =>
  inferInstanceAs (Decidable (first.documentID = second.documentID))

/-- The document writes this app issues. Only posts are ever deleted. -/
inductive Write where
  | setData (collection : CollectionName) (document : String) (json : Json)
  | delete (document : String)
deriving DecidableEq

/-- The collection a write changes. -/
def Write.collection : Write → CollectionName
  | .setData collection _ _ => collection
  | .delete _ => .posts

/-- The key of the document a write changes. -/
def Write.key : Write → String
  | .setData _ document _ => document
  | .delete document => document

/-- What one write makes of the collections. -/
def Write.apply (stamp : Stamp) (cloud : Cloud) : Write → Cloud
  | .setData collection document json =>
    Function.update cloud collection
      (KeyedRows.upsert sameDocument ⟨document, resolve stamp json⟩ (cloud collection))
  | .delete document =>
    Function.update cloud .posts
      ((cloud .posts).filter (fun stored => decide (stored.documentID ≠ document)))

/-- Commit one write at a server time. -/
def Write.commit (time : Timestamp) (cloud : Cloud) (write : Write) : Cloud :=
  write.apply (.committed time) cloud

/-- The collections as the client shows them that has queued these writes, the first of
them under this number. -/
def overlay (cloud : Cloud) (number : Nat) : List Write → Cloud
  | [] => cloud
  | write :: rest => overlay (write.apply (.pending number) cloud) (number + 1) rest

/-- The plain read: a whole collection in key order. -/
def getDocuments (documents : List Document) : List Document :=
  documents.insertionSort (fun first second => first.documentID ≤ second.documentID)

/-- The order of the incremental read. -/
def updatedNoLater (first second : Document) : Bool :=
  match first.data.get "lastUpdate", second.data.get "lastUpdate" with
  | some earlier, some later =>
    if earlier = later then decide (first.documentID ≤ second.documentID)
    else earlier.notAfter later
  | _, _ => true

/-- The document has a `lastUpdate` field that is not before the cursor. -/
def updatedSince (since : Int) (document : Document) : Bool :=
  ((document.data.get "lastUpdate").map
    (fun updated => (Value.timestamp ⟨since, 0⟩).notAfter updated)).getD false

/-- The incremental read: ordered by `lastUpdate`, started at a second. -/
def getDocumentsSince (since : Int) (documents : List Document) : List Document :=
  (documents.filter (updatedSince since)).insertionSort
    (fun first second => updatedNoLater first second = true)

/-- A read of a collection returns its documents. -/
@[simp] theorem mem_getDocuments {document : Document} {documents : List Document} :
    document ∈ getDocuments documents ↔ document ∈ documents :=
  List.mem_insertionSort _

/-- A read from a date on returns those updated since. -/
@[simp] theorem mem_getDocumentsSince {document : Document} {since : Int}
    {documents : List Document} :
    document ∈ getDocumentsSince since documents ↔
      document ∈ documents ∧ updatedSince since document = true := by
  simp [getDocumentsSince]

/-- Resolving keeps every string field and adds none. -/
theorem resolve_string (stamp : Stamp) (json : Json) (name text : String) :
    (resolve stamp json).string name = some text ↔
      json.lookup name = some (.value (.string text)) := by
  induction json with
  | nil => simp [resolve, Fields.string, Fields.get]
  | cons field rest inductionHypothesis =>
    obtain ⟨other, written⟩ := field
    by_cases same : name = other
    · subst same
      cases written with
      | value stored => cases stored <;> simp [resolve, Fields.string, Fields.get, FieldValue.resolve]
      | serverTimestamp =>
        cases stamp <;> simp [resolve, Fields.string, Fields.get, FieldValue.resolve, Stamp.value]
    · have different : (name == other) = false := by simpa using same
      simpa [resolve, Fields.string, Fields.get, List.lookup_cons, different]
        using inductionHypothesis

/-! ## One write -/

/-- What a written collection holds. -/
@[simp] theorem mem_apply_setData {stamp : Stamp} {cloud : Cloud} {collection : CollectionName}
    {document : String} {json : Json} {stored : Document} :
    stored ∈ (Write.setData collection document json).apply stamp cloud collection ↔
      (stored ∈ cloud collection ∧ stored.documentID ≠ document) ∨
        stored = ⟨document, resolve stamp json⟩ := by
  simp [Write.apply, sameDocument]

/-- What is left after a delete. -/
@[simp] theorem mem_apply_delete {stamp : Stamp} {cloud : Cloud} {document : String}
    {stored : Document} :
    stored ∈ (Write.delete document).apply stamp cloud .posts ↔
      stored ∈ cloud .posts ∧ stored.documentID ≠ document := by
  simp [Write.apply]

/-- A write leaves the other collections as they were. -/
theorem apply_other {write : Write} {collection : CollectionName} (stamp : Stamp) (cloud : Cloud)
    (distinct : collection ≠ write.collection) :
    write.apply stamp cloud collection = cloud collection := by
  cases write with
  | setData changed document json =>
    have others : collection ≠ changed := distinct
    simp [Write.apply, others]
  | delete document =>
    have others : collection ≠ .posts := distinct
    simp [Write.apply, others]

/-- What a write makes of a collection depends on that collection alone. -/
theorem apply_congr (write : Write) (stamp : Stamp) {cloud other : Cloud}
    {collection : CollectionName} (same : cloud collection = other collection) :
    write.apply stamp cloud collection = write.apply stamp other collection := by
  by_cases changed : collection = write.collection
  · cases write with
    | setData name document json =>
      cases changed
      have here : cloud name = other name := same
      simp only [Write.apply, Write.collection, Function.update_self, here]
    | delete document =>
      cases changed
      have here : cloud .posts = other .posts := same
      simp only [Write.apply, Write.collection, Function.update_self, here]
  · rw [apply_other stamp cloud changed, apply_other stamp other changed, same]

/-- A document after a write was there before and the write does not name it, or is the
one the write set. -/
theorem mem_apply_apart {write : Write} {stamp : Stamp} {cloud : Cloud} {collection : CollectionName}
    {document : Document} (member : document ∈ write.apply stamp cloud collection) :
    (document ∈ cloud collection ∧ (write.collection = collection → write.key ≠ document.documentID)) ∨
      ∃ key json, write = .setData collection key json ∧ document = ⟨key, resolve stamp json⟩ := by
  by_cases same : collection = write.collection
  · subst same
    cases write with
    | setData changed key json =>
      obtain ⟨older, different⟩ | isNew := mem_apply_setData.mp member
      · exact Or.inl ⟨older, fun _ => different.symm⟩
      · exact Or.inr ⟨key, json, rfl, isNew⟩
    | delete key =>
      obtain ⟨older, different⟩ := mem_apply_delete.mp member
      exact Or.inl ⟨older, fun _ => different.symm⟩
  · rw [apply_other stamp cloud same] at member
    exact Or.inl ⟨member, fun other => absurd other.symm same⟩

/-- A document after a write was there before, or is the one the write set. -/
theorem mem_apply {write : Write} {stamp : Stamp} {cloud : Cloud} {collection : CollectionName}
    {document : Document} (member : document ∈ write.apply stamp cloud collection) :
    document ∈ cloud collection ∨ ∃ key json, write = .setData collection key json ∧
      document = ⟨key, resolve stamp json⟩ :=
  (mem_apply_apart member).imp And.left id

/-- A write leaves the documents it does not name. -/
theorem apply_keeps {write : Write} (stamp : Stamp) {cloud : Cloud} {collection : CollectionName}
    {document : Document} (member : document ∈ cloud collection)
    (apart : write.collection = collection → write.key ≠ document.documentID) :
    document ∈ write.apply stamp cloud collection := by
  by_cases same : collection = write.collection
  · subst same
    have different := (apart rfl).symm
    cases write with
    | setData changed key json => exact mem_apply_setData.mpr (Or.inl ⟨member, different⟩)
    | delete key => exact mem_apply_delete.mpr ⟨member, different⟩
  · rw [apply_other stamp cloud same]
    exact member

/-- A write keeps the documents of a collection apart. -/
theorem apply_separate (write : Write) (stamp : Stamp) {cloud : Cloud} {collection : CollectionName}
    (separate : KeyedRows.Separate sameDocument (cloud collection)) :
    KeyedRows.Separate sameDocument (write.apply stamp cloud collection) := by
  by_cases same : collection = write.collection
  · subst same
    cases write with
    | setData changed key json =>
      simp only [Write.apply, Write.collection, Function.update_self]
      exact KeyedRows.upsert_separate separate
    | delete key =>
      simp only [Write.apply, Write.collection, Function.update_self]
      exact separate.filter _
  · rw [apply_other stamp cloud same]
    exact separate

/-! ## A commit -/

/-- A commit leaves the collections it does not name as they were. -/
theorem commit_setData_other (time : Timestamp) (cloud : Cloud) (collection other : CollectionName)
    (document : String) (json : Json) (distinct : other ≠ collection) :
    (Write.setData collection document json).commit time cloud other = cloud other :=
  apply_other _ cloud distinct

/-- What a collection holds once a write is committed. -/
@[simp] theorem mem_commit_setData {time : Timestamp} {cloud : Cloud} {collection : CollectionName}
    {document : String} {json : Json} {stored : Document} :
    stored ∈ (Write.setData collection document json).commit time cloud collection ↔
      (stored ∈ cloud collection ∧ stored.documentID ≠ document) ∨
        stored = ⟨document, resolve (.committed time) json⟩ := mem_apply_setData

/-- What is left once a delete is committed. -/
@[simp] theorem mem_commit_delete {time : Timestamp} {cloud : Cloud} {document : String}
    {stored : Document} :
    stored ∈ (Write.delete document).commit time cloud .posts ↔
      stored ∈ cloud .posts ∧ stored.documentID ≠ document := mem_apply_delete

/-- Deleting a post leaves the other collections as they were. -/
theorem commit_delete_other (time : Timestamp) (cloud : Cloud) (other : CollectionName)
    (document : String) (distinct : other ≠ .posts) :
    (Write.delete document).commit time cloud other = cloud other :=
  apply_other _ cloud distinct

/-- A commit leaves the other collections as they were. -/
theorem commit_other {write : Write} {collection : CollectionName} (time : Timestamp) (cloud : Cloud)
    (distinct : collection ≠ write.collection) :
    write.commit time cloud collection = cloud collection := apply_other _ cloud distinct

/-- What a commit makes of a collection depends on that collection alone. -/
theorem commit_congr (write : Write) (time : Timestamp) {cloud other : Cloud}
    {collection : CollectionName} (same : cloud collection = other collection) :
    write.commit time cloud collection = write.commit time other collection :=
  apply_congr write _ same

/-- A document stored after a commit was stored before, or is the one the write set. -/
theorem mem_commit {write : Write} {time : Timestamp} {cloud : Cloud} {collection : CollectionName}
    {document : Document} (member : document ∈ write.commit time cloud collection) :
    document ∈ cloud collection ∨ ∃ key json, write = .setData collection key json ∧
      document = ⟨key, resolve (.committed time) json⟩ := mem_apply member

/-- A commit keeps the documents of a collection apart. -/
theorem commit_separate (write : Write) (time : Timestamp) {cloud : Cloud} {collection : CollectionName}
    (separate : KeyedRows.Separate sameDocument (cloud collection)) :
    KeyedRows.Separate sameDocument (write.commit time cloud collection) :=
  apply_separate write _ separate

/-! ## Queued writes laid over the collections -/

/-- A document laid over the collections was there and no queued write names it, or the
last queued write to name it sets it. -/
theorem mem_overlay_last {writes : List Write} {cloud : Cloud} {number : Nat}
    {collection : CollectionName} {document : Document}
    (member : document ∈ overlay cloud number writes collection) :
    (document ∈ cloud collection ∧ ∀ write ∈ writes, write.collection = collection →
      write.key ≠ document.documentID) ∨ ∃ (index : Nat) (key : String) (json : Json),
      writes[index]? = some (.setData collection key json) ∧
        document = ⟨key, resolve (.pending (number + index)) json⟩ ∧
        ∀ (later : Nat) write, writes[later]? = some write → index < later →
          write.collection = collection → write.key ≠ key := by
  induction writes generalizing cloud number with
  | nil => exact Or.inl ⟨member, by simp⟩
  | cons write rest inductionHypothesis =>
    obtain ⟨here, apart⟩ | ⟨index, key, json, queued, isSet, last⟩ := inductionHypothesis member
    · obtain ⟨older, different⟩ | ⟨key, json, rfl, isSet⟩ := mem_apply_apart here
      · exact Or.inl ⟨older, List.forall_mem_cons.mpr ⟨different, apart⟩⟩
      · refine Or.inr ⟨0, key, json, rfl, isSet, ?_⟩
        intro later other isOther isLater
        obtain ⟨before, rfl⟩ : ∃ before, later = before + 1 := ⟨later - 1, by omega⟩
        have isKey : document.documentID = key := by rw [isSet]
        exact isKey ▸ apart other (List.mem_of_getElem? isOther)
    · refine Or.inr ⟨index + 1, key, json, queued, ?_, ?_⟩
      · rw [isSet, Nat.add_assoc, Nat.add_comm 1 index]
      · intro later other isOther isLater
        obtain ⟨before, rfl⟩ : ∃ before, later = before + 1 := ⟨later - 1, by omega⟩
        exact last before other isOther (by omega)

/-- A document laid over the collections was there, or a queued write sets it. -/
theorem mem_overlay {writes : List Write} {cloud : Cloud} {number : Nat} {collection : CollectionName}
    {document : Document} (member : document ∈ overlay cloud number writes collection) :
    document ∈ cloud collection ∨ ∃ (index : Nat) (key : String) (json : Json),
      writes[index]? = some (.setData collection key json) ∧
        document = ⟨key, resolve (.pending (number + index)) json⟩ := by
  obtain ⟨older, _⟩ | ⟨index, key, json, queued, isSet, _⟩ := mem_overlay_last member
  · exact Or.inl older
  · exact Or.inr ⟨index, key, json, queued, isSet⟩

/-- Queued writes leave the documents they do not name. -/
theorem overlay_keeps {writes : List Write} {cloud : Cloud} {number : Nat} {collection : CollectionName}
    {document : Document} (member : document ∈ cloud collection)
    (apart : ∀ write ∈ writes, write.collection = collection → write.key ≠ document.documentID) :
    document ∈ overlay cloud number writes collection := by
  induction writes generalizing cloud number with
  | nil => exact member
  | cons write rest inductionHypothesis =>
    obtain ⟨first, later⟩ := List.forall_mem_cons.mp apart
    exact inductionHypothesis (apply_keeps _ member first) later

/-- Queued writes keep the documents of a collection apart. -/
theorem overlay_separate {writes : List Write} {cloud : Cloud} {number : Nat}
    {collection : CollectionName} (separate : KeyedRows.Separate sameDocument (cloud collection)) :
    KeyedRows.Separate sameDocument (overlay cloud number writes collection) := by
  induction writes generalizing cloud number with
  | nil => exact separate
  | cons write rest inductionHypothesis => exact inductionHypothesis (apply_separate write _ separate)

/-- A collection none of the queued writes changes is shown as it is. -/
theorem overlay_other {writes : List Write} {cloud : Cloud} {number : Nat}
    {collection : CollectionName} (others : ∀ write ∈ writes, collection ≠ write.collection) :
    overlay cloud number writes collection = cloud collection := by
  induction writes generalizing cloud number with
  | nil => rfl
  | cons write rest inductionHypothesis =>
    obtain ⟨first, later⟩ := List.forall_mem_cons.mp others
    exact (inductionHypothesis later).trans (apply_other _ cloud first)

/-- What a collection shows depends on that collection and the queue alone. -/
theorem overlay_congr (writes : List Write) (number : Nat) {cloud other : Cloud}
    {collection : CollectionName} (same : cloud collection = other collection) :
    overlay cloud number writes collection = overlay other number writes collection := by
  induction writes generalizing cloud other number with
  | nil => exact same
  | cons write rest inductionHypothesis =>
    exact inductionHypothesis (number + 1) (apply_congr write _ same)

end Amigo
