import Amigo.ClientSteps

/-!
# What steps leave of the screens

The session, the open post and the pages are changed by few steps. No closure that
waited for a read or an upload signs anybody in or out, or opens a post. A page of a
new post is filled by its own two reads, and a page of an edit by the read of its own
presses; the rest of the app leaves both as they are.
-/

namespace Amigo

namespace Client

/-- The session and the open post are as they were. -/
structure Untouched (before after : Client) : Prop where
  currentUser : after.currentUser = before.currentUser
  postID : after.postID = before.postID
  info : after.info = before.info

/-- A merge asks, stores and lists, and changes no page. -/
theorem untouched_merge (platform : Platform) (data : List Post) (client : Client) :
    Untouched client (client.merge platform data) ∧
      (client.merge platform data).edits = client.edits ∧
      (client.merge platform data).adds = client.adds := by
  obtain ⟨_, result⟩ | ⟨finalData, _, result⟩ := merge_form platform data client
  · rw [result]
    exact ⟨⟨rfl, rfl, rfl⟩, rfl, rfl⟩
  · rw [result]
    exact ⟨⟨rfl, rfl, rfl⟩, rfl, rfl⟩

/-- The loops that only bring fields up to date touch no edit screen. -/
theorem untouched_touches {client after : Client} (touches : Relation.ReflTransGen Touch client after) :
    Untouched client after ∧ after.edits = client.edits := by
  obtain ⟨rows, city, adds, _, rfl | ⟨trap, rfl⟩⟩ := touches_form touches
  · exact ⟨⟨rfl, rfl, rfl⟩, rfl⟩
  · exact ⟨⟨rfl, rfl, rfl⟩, rfl⟩

/-- No closure of a read touches the session or the open post, and one alone a page of
an edit. -/
theorem Answers.untouched {platform : Platform} {client after : Client} {callback : Callback}
    {answer : Answer} (answers : Answers platform client callback answer after) :
    Untouched client after ∧ ((∀ screen, callback ≠ .editRead screen) → after.edits = client.edits) := by
  cases answers with
  | refreshes loop =>
    exact (untouched_touches (touches_answered platform loop answer client)).imp_right
      (fun edits _ => edits)
  | merged snapshot data =>
    obtain ⟨untouched, edits, _⟩ :=
      untouched_merge platform data { client with firebaseCity := client.cityRead answer }
    exact ⟨⟨untouched.currentUser, untouched.postID, untouched.info⟩, fun _ => edits⟩
  | edited screen view documents document title userName asked =>
    exact ⟨⟨rfl, rfl, rfl⟩, fun other => absurd asked (other screen)⟩
  | silent | stops | fetched | uncast | missed | removed | announced =>
    exact ⟨⟨rfl, rfl, rfl⟩, fun _ => rfl⟩

/-- The closure of an upload touches neither session nor pages. -/
theorem Finishes.untouched {url : String} {client after : Client} {upload : Upload}
    (finishes : Finishes url client upload after) :
    Untouched client after ∧ after.edits = client.edits ∧ after.adds = client.adds ∧
      after.delivered = client.delivered := by
  cases finishes with
  | silent | unfilled | signedOut | posts => exact ⟨⟨rfl, rfl, rfl⟩, rfl, rfl, rfl⟩

/-- A page is filled by the reads of its own number. -/
theorem addCityAnswered_other {screen other : Nat} (apart : screen ≠ other) (documents : List Document)
    (client : Client) : (addCityAnswered screen documents client).adds[other]? = client.adds[other]? := by
  induction documents generalizing client with
  | nil => rfl
  | cons document rest inductionHypothesis =>
    rw [addCityAnswered]
    split
    · rfl
    · rw [inductionHypothesis]
      exact List.getElem?_modify_ne _ _ apart

/-- The users read of one add screen leaves the others. -/
theorem addNameAnswered_other {screen other : Nat} (apart : screen ≠ other) (uid : Option String)
    (documents : List Document) (client : Client) :
    (addNameAnswered screen uid documents client).adds[other]? = client.adds[other]? := by
  induction documents generalizing client with
  | nil => rfl
  | cons document rest inductionHypothesis =>
    rw [addNameAnswered]
    split
    · split
      · rfl
      · rw [inductionHypothesis]
        exact List.getElem?_modify_ne _ _ apart
    · exact inductionHypothesis client

/-- The deleter lookup leaves the add screens. -/
theorem deleterAnswered_adds (platform : Platform) (receiver : Post) (documents : List Document)
    (client : Client) : (deleterAnswered platform receiver documents client).adds = client.adds := by
  induction documents generalizing client with
  | nil => rfl
  | cons document rest inductionHypothesis =>
    rw [deleterAnswered]
    split
    · rfl
    · rw [inductionHypothesis]

/-- So does the refresh of the city. -/
theorem cityRefreshed_adds (documents : List Document) (client : Client) :
    (cityRefreshed documents client).adds = client.adds := by
  induction documents generalizing client with
  | nil => rfl
  | cons document rest inductionHypothesis =>
    rw [cityRefreshed]
    split
    · rfl
    · rw [inductionHypothesis]

/-- A closure that is no read of a page leaves the page as it is. -/
theorem Answers.adds {platform : Platform} {client after : Client} {callback : Callback}
    {answer : Answer} (answers : Answers platform client callback answer after) {page : Nat}
    (otherCity : callback ≠ .addCity page) (otherName : ∀ uid, callback ≠ .addName page uid) :
    after.adds[page]? = client.adds[page]? := by
  cases answers with
  | refreshes loop =>
    cases answer with
    | failed => obtain ⟨receiver, rfl⟩ | rfl | ⟨screen, rfl⟩ | ⟨screen, uid, rfl⟩ := loop <;> rfl
    | snapshot documents =>
      obtain ⟨receiver, rfl⟩ | rfl | ⟨screen, rfl⟩ | ⟨screen, uid, rfl⟩ := loop
      · simp only [answered, onSnapshot, deleterAnswered_adds]
      · simp only [answered, onSnapshot, cityRefreshed_adds]
      · exact addCityAnswered_other (fun same => otherCity (by rw [same])) documents client
      · exact addNameAnswered_other (fun same => otherName uid (by rw [same])) uid documents client
  | merged snapshot data =>
    rw [(untouched_merge platform data { client with firebaseCity := client.cityRead answer }).2.2]
  | silent | stops | fetched | uncast | missed | removed | announced | edited => rfl

/-- What opening a post leaves alone. -/
theorem Reloads.frame {client after : Client} (reloads : Reloads client after) :
    after.currentUser = client.currentUser ∧ after.adds = client.adds ∧
      after.edits = client.edits ∧ after.delivered = client.delivered := by
  cases reloads with
  | closed | signedOut | shown => exact ⟨rfl, rfl, rfl, rfl⟩

/-- Nobody is signed in or out but by the two steps that do so. -/
theorem act_session {platform : Platform} {cloud : Cloud} {client after : Client} {action : Action}
    (acted : client.act platform cloud action = some after) (noSignIn : ∀ uid, action ≠ .signIn uid)
    (noSignOut : action ≠ .signOut) : after.currentUser = client.currentUser := by
  cases act_acts acted with
  | signIn uid => exact absurd rfl (noSignIn uid)
  | signOut => exact absurd rfl noSignOut
  | didSelectRowAt => exact (reloadPost_reloads _).frame.1
  | infoAppears => exact (reloadPost_reloads client).frame.1
  | uploaded index url placeText recText upload =>
    exact (uploaded_finishes url placeText recText _ upload).untouched.1.currentUser
  | deliver index callback answer =>
    exact (answered_answers platform _ callback answer).untouched.1.currentUser
  | _ => rfl

/-- A page whose reads are over is as it was, until the app is launched again. -/
theorem act_adds {platform : Platform} {cloud : Cloud} {client after : Client} {action : Action}
    (acted : client.act platform cloud action = some after) {page : Nat} {view : AddScreen}
    (filled : client.adds[page]? = some view)
    (settled : ∀ pending ∈ client.pending, pending.callback ≠ .addCity page ∧
      ∀ uid, pending.callback ≠ .addName page uid)
    (launched : action ≠ .relaunch) : after.adds[page]? = some view := by
  cases act_acts acted with
  | relaunch => exact absurd rfl launched
  | openAdd =>
    obtain ⟨inside, _⟩ := List.getElem?_eq_some_iff.mp filled
    exact (List.getElem?_append_left inside).trans filled
  | didSelectRowAt =>
    rw [(reloadPost_reloads _).frame.2.1]
    exact filled
  | infoAppears =>
    rw [(reloadPost_reloads client).frame.2.1]
    exact filled
  | uploaded index url placeText recText upload =>
    rw [(uploaded_finishes url placeText recText _ upload).untouched.2.2.1]
    exact filled
  | deliver index callback answer ready =>
    obtain ⟨otherCity, otherName⟩ := settled _ (List.mem_of_getElem? ready)
    rw [(answered_answers platform _ callback answer).adds otherCity otherName]
    exact filled
  | _ => exact filled

end Client

end Amigo
