import Amigo.DataFlow

/-!
# Each generated identifier belongs to one new post

Pressing post takes an identifier from the generator and starts an upload that
will write a document under it. Identifiers are fresh, so no two running uploads
of new posts share one, at one client or at two. An identifier is published once
it is issued and no new post under it is uploading; from then on nothing but
copies of what was written under it can carry it, and it stays published.
-/

namespace Amigo

/-- The identifier a new post's upload will write under. -/
def Upload.newId : Upload → Option String
  | .newPost _ idPost => some idPost
  | .edit _ _ => none

namespace Client

/-- The identifiers of the new posts a client is uploading. -/
def newIds (client : Client) : List String := client.uploads.filterMap Upload.newId

/-- Only a press adds an identifier, and it adds the one it was given. -/
theorem act_newIds {platform : Platform} {cloud : Cloud} {client after : Client} {action : Action}
    (acted : client.act platform cloud action = some after) :
    after.newIds.Sublist client.newIds ∨
      ∃ screen idPost, action = .postBtn screen idPost ∧ after.newIds = client.newIds ++ [idPost] := by
  have fewer {changed : Client} (sublist : changed.uploads.Sublist client.uploads) :
      changed.newIds.Sublist client.newIds := sublist.filterMap _
  cases act_cases acted with
  | quiet quiet => exact Or.inl (fewer quiet.uploads)
  | asks _ _ _ uploads => exact Or.inl (fewer (uploads ▸ List.Sublist.refl _))
  | issues | receives | drains => exact Or.inl (fewer (List.Sublist.refl _))
  | presses screen idPost =>
    exact Or.inr ⟨screen, idPost, rfl, by simp [newIds, Upload.newId]⟩
  | posts index => exact Or.inl (fewer (List.eraseIdx_sublist _ index))
  | delivers index callback answer ready delivered =>
    cases delivered with
    | quiet quiet => exact Or.inl (fewer quiet.uploads)
    | merged => exact Or.inl (fewer merge_uploads)
    | fetched | removed | announced => exact Or.inl (fewer (List.Sublist.refl _))
    | edited => exact Or.inl (by simp [newIds, Upload.newId])

/-- A finished upload is gone from the running ones. -/
theorem act_finished {platform : Platform} {cloud : Cloud} {client after : Client} {index : Nat}
    {url placeText recText : String}
    (acted : client.act platform cloud (.uploaded index url placeText recText) = some after) :
    after.uploads.Sublist (client.uploads.eraseIdx index) := by
  have performed := (Option.ite_none_right_eq_some.mp acted).2
  obtain ⟨upload, _, result⟩ := Option.map_eq_some_iff.mp performed
  have finishes := uploaded_finishes url placeText recText
    { client with uploads := client.uploads.eraseIdx index } upload
  rw [result] at finishes
  cases finishes with
  | silent | posts => exact List.Sublist.refl _
  | unfilled | signedOut => exact List.nil_sublist _

/-- Among distinct identifiers, the finished one is not one of the rest. -/
theorem newId_not_mem_eraseIdx {uploads : List Upload} {index : Nat} {upload : Upload}
    {idPost : String} (distinct : (uploads.filterMap Upload.newId).Nodup)
    (running : uploads[index]? = some upload) (isNew : upload.newId = some idPost) :
    idPost ∉ (uploads.eraseIdx index).filterMap Upload.newId := by
  obtain ⟨inside, same⟩ := List.getElem?_eq_some_iff.mp running
  have split : uploads = uploads.take index ++ upload :: uploads.drop (index + 1) := by
    rw [← same, List.getElem_cons_drop, List.take_append_drop]
  rw [split, List.filterMap_append, List.filterMap_cons_some isNew] at distinct
  rw [List.eraseIdx_eq_take_drop_succ, List.filterMap_append, List.mem_append]
  have apart := List.nodup_append.mp distinct
  rintro (before | after)
  · exact apart.2.2 _ before _ List.mem_cons_self rfl
  · exact (List.nodup_cons.mp apart.2.1).1 after

end Client

namespace World

variable {ι : Type*}

/-- The identifiers of the uploading new posts are issued, and all distinct. -/
structure Distinct (world : World ι) : Prop where
  issued : ∀ client, ∀ id ∈ (world.clients client).newIds, id ∈ world.issued
  once : ∀ client, (world.clients client).newIds.Nodup
  apart : ∀ first second, first ≠ second → ∀ id ∈ (world.clients first).newIds,
    id ∉ (world.clients second).newIds

/-- An identifier is published when it is issued and no new post under it is
uploading. -/
def Published (world : World ι) (id : String) : Prop :=
  id ∈ world.issued ∧ ∀ client, id ∉ (world.clients client).newIds

/-- At the start no identifier is in use. -/
theorem distinct_init : (init ι).Distinct := by
  constructor <;> simp [init, Client.newIds]

variable [DecidableEq ι]

/-- Every uploading identifier after a step was uploading at the same client, or
is the fresh one the step was given. -/
theorem step_newIds {platform : Platform} {world next : World ι} {event : Event ι}
    (stepped : world.step platform event = some next) (client : ι) :
    (next.clients client).newIds.Sublist (world.clients client).newIds ∨
      ∃ id, generates event.2 = some id ∧ id ∉ world.issued ∧ client = event.1 ∧
        (next.clients client).newIds = (world.clients client).newIds ++ [id] := by
  have isFresh := (step_inv stepped).1
  obtain same | ⟨rfl, acted⟩ := client_after stepped client
  · exact Or.inl (same ▸ List.Sublist.refl _)
  · obtain fewer | ⟨screen, idPost, press, added⟩ := Client.act_newIds acted
    · exact Or.inl fewer
    · refine Or.inr ⟨idPost, by rw [press]; rfl, ?_, rfl, added⟩
      simp only [fresh, press, generates, Bool.and_eq_true] at isFresh
      simpa using isFresh.2

/-- Issued identifiers stay issued. -/
theorem step_issued {platform : Platform} {world next : World ι} {event : Event ι}
    (stepped : world.step platform event = some next) {id : String} (isIssued : id ∈ world.issued) :
    id ∈ next.issued := by
  obtain ⟨_, _, _, _, _, issued⟩ := step_inv stepped
  rw [issued]
  exact List.mem_append_right _ isIssued

/-- A fresh identifier is issued by the step that takes it. -/
theorem step_generates {platform : Platform} {world next : World ι} {event : Event ι}
    (stepped : world.step platform event = some next) {id : String}
    (generated : generates event.2 = some id) : id ∈ next.issued := by
  obtain ⟨_, _, _, _, _, issued⟩ := step_inv stepped
  rw [issued, generated]
  exact List.mem_cons_self

/-- One step keeps the uploading identifiers distinct. -/
theorem Distinct.step {platform : Platform} {world next : World ι} {event : Event ι}
    (distinct : world.Distinct) (stepped : world.step platform event = some next) : next.Distinct where
  issued := by
    intro client id member
    obtain fewer | ⟨new, generated, _, _, added⟩ := step_newIds stepped client
    · exact step_issued stepped (distinct.issued client id (fewer.subset member))
    · rw [added, List.mem_append, List.mem_singleton] at member
      obtain older | rfl := member
      · exact step_issued stepped (distinct.issued client id older)
      · exact step_generates stepped generated
  once := by
    intro client
    obtain fewer | ⟨new, _, unissued, _, added⟩ := step_newIds stepped client
    · exact (distinct.once client).sublist fewer
    · rw [added, List.nodup_append]
      refine ⟨distinct.once client, List.nodup_singleton new, ?_⟩
      intro id older other isNew same
      rw [List.mem_singleton.mp isNew] at same
      exact unissued (same ▸ distinct.issued client id older)
  apart := by
    intro first second different id inFirst inSecond
    obtain fewer | ⟨new, _, unissued, isFirst, added⟩ := step_newIds stepped first
    · obtain fewerToo | ⟨other, _, otherUnissued, _, otherAdded⟩ := step_newIds stepped second
      · exact distinct.apart first second different id (fewer.subset inFirst) (fewerToo.subset inSecond)
      · rw [otherAdded, List.mem_append, List.mem_singleton] at inSecond
        obtain older | rfl := inSecond
        · exact distinct.apart first second different id (fewer.subset inFirst) older
        · exact otherUnissued (distinct.issued first id (fewer.subset inFirst))
    · rw [step_other stepped (isFirst ▸ Ne.symm different)] at inSecond
      rw [added, List.mem_append, List.mem_singleton] at inFirst
      obtain older | rfl := inFirst
      · exact distinct.apart first second different id older inSecond
      · exact unissued (distinct.issued second id inSecond)

/-- A published identifier stays published. -/
theorem Published.step {platform : Platform} {world next : World ι} {event : Event ι} {id : String}
    (published : world.Published id) (stepped : world.step platform event = some next) :
    next.Published id := by
  refine ⟨step_issued stepped published.1, ?_⟩
  intro client member
  obtain fewer | ⟨new, _, unissued, _, added⟩ := step_newIds stepped client
  · exact published.2 client (fewer.subset member)
  · rw [added, List.mem_append, List.mem_singleton] at member
    obtain older | rfl := member
    · exact published.2 client older
    · exact unissued published.1

/-- The upload of a new post publishes its identifier when it finishes. -/
theorem finished_published {platform : Platform} {world next : World ι} (distinct : world.Distinct)
    {client : ι} {index : Nat} {url placeText recText : String}
    (stepped : world.step platform (client, .uploaded index url placeText recText) = some next)
    {screen : Nat} {idPost : String}
    (running : (world.clients client).uploads[index]? = some (.newPost screen idPost)) :
    next.Published idPost := by
  have uploading : idPost ∈ (world.clients client).newIds :=
    List.mem_filterMap.mpr ⟨_, List.mem_of_getElem? running, rfl⟩
  refine ⟨step_issued stepped (distinct.issued client idPost uploading), ?_⟩
  intro other
  by_cases same : other = client
  · subst same
    intro member
    apply Client.newId_not_mem_eraseIdx (distinct.once other) running rfl
    exact ((Client.act_finished (step_act stepped)).filterMap _).subset member
  · rw [step_other stepped same]
    exact distinct.apart client other (Ne.symm same) idPost uploading

end World

end Amigo
