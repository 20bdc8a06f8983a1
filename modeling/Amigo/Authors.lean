import Mathlib.Data.List.InsertIdx
import Amigo.DataFlow
import Amigo.ScreenFrames
import Amigo.TaggedLists

/-!
# Who a stored post says wrote it

A press of Post starts an upload, and only when that has ended is the post put
together: its city and its author's name come from the fields of the page, its
author from the session as it is then. An edit reads the cloud first and puts the
post together after its own upload. Nothing keeps what a press saw.

Here each waiting read is tagged with the user who was signed in when it was asked,
and each running upload with the press that led to it: who was signed in and which
city the page showed. The users collection is fixed; what the other collections
hold may be anything at every step.
-/

namespace Amigo

/-- What a press saw: the user signed in, and the city shown as the page title. -/
structure Press where
  user : Option String
  shown : Option String
deriving DecidableEq

/-- The user is stored under this full name. -/
def IsFullname (users : List Document) (uid name : String) : Prop :=
  ∃ document ∈ users, document.documentID = uid ∧ document.data.string "fullname" = some name

namespace Client

/-- The closures waiting, oldest first. -/
def callbacks (client : Client) : List Callback := client.pending.map Pending.callback

/-- The closures still waiting once an action has taken the one it runs. -/
def keptReads (client : Client) : Action → List Callback
  | .deliver index => client.callbacks.eraseIdx index
  | _ => client.callbacks

/-- The uploads still running once an action has taken the one it ends. -/
def keptUploads (client : Client) : Action → List Upload
  | .uploaded index _ _ _ | .uploadFailed index => client.uploads.eraseIdx index
  | _ => client.uploads

/-- The action asks the read, when a page waits for it: opening the page does, and each
press of Post on a page of an edit. -/
def Asks (client : Client) (action : Action) : Callback → Prop
  | .addCity page | .addName page _ => action = .openAdd ∧ page = client.adds.length
  | .editPrefill page => action = .openEdit ∧ page = client.edits.length
  | .editRead page => action = .podtEditButtom page
  | _ => True

/-- The action starts the upload: a press of a new page, or the read of an edit. -/
def Starts (client : Client) (action : Action) : Upload → Prop
  | .newPost screen idPost => action = .postBtn screen idPost
  | .edit screen _ => ∃ index : Nat, action = .deliver index ∧
      client.callbacks[index]? = some (.editRead screen)

/-- Both queues were emptied, or grew by reads and uploads of these kinds. -/
def Grows (asks : Callback → Prop) (starts : Upload → Prop) (reads : List Callback)
    (uploads : List Upload) (after : Client) : Prop :=
  (after.callbacks = [] ∧ after.uploads = []) ∨
    (∃ added, after.callbacks = reads ++ added ∧ ∀ callback ∈ added, asks callback) ∧
      ∃ added, after.uploads = uploads ++ added ∧ ∀ upload ∈ added, starts upload

/-- What asks and starts nothing grows by nothing. -/
theorem Grows.of_same {asks : Callback → Prop} {starts : Upload → Prop} {reads : List Callback}
    {uploads : List Upload} {after : Client} (sameReads : after.callbacks = reads)
    (sameUploads : after.uploads = uploads) : Grows asks starts reads uploads after :=
  Or.inr ⟨⟨[], by simp [sameReads], by simp⟩, [], by simp [sameUploads], by simp⟩

/-- Reads of the kind asked for may be added. -/
theorem Grows.asking {asks : Callback → Prop} {starts : Upload → Prop} {reads : List Callback}
    {uploads : List Upload} {after : Client} (added : List Callback)
    (grown : after.callbacks = reads ++ added) (kind : ∀ callback ∈ added, asks callback)
    (sameUploads : after.uploads = uploads) : Grows asks starts reads uploads after :=
  Or.inr ⟨⟨added, grown, kind⟩, [], by simp [sameUploads], by simp⟩

/-- A stopped app has nothing left to grow. -/
theorem grows_crash {asks : Callback → Prop} {starts : Upload → Prop} {reads : List Callback}
    {uploads : List Upload} (trap : Trap) (client : Client) :
    Grows asks starts reads uploads (client.crash trap) := Or.inl ⟨rfl, rfl⟩

/-- A read that no page waits for. -/
def NoPage : Callback → Prop
  | .addCity _ | .addName _ _ | .editPrefill _ | .editRead _ => False
  | _ => True

/-- The loops that only bring fields up to date add nothing. -/
theorem grows_touches {starts : Upload → Prop} {client after : Client}
    (touches : Relation.ReflTransGen Touch client after) :
    Grows NoPage starts client.callbacks client.uploads after := by
  obtain ⟨rows, city, adds, _, rfl | ⟨trap, rfl⟩⟩ := touches_form touches
  · exact .of_same rfl rfl
  · exact grows_crash trap _

/-- A merge asks no page's reads. -/
theorem grows_merge {starts : Upload → Prop} (platform : Platform) (data : List Post) (client : Client) :
    Grows NoPage starts client.callbacks client.uploads (client.merge platform data) := by
  obtain ⟨_, result⟩ | ⟨finalData, _, result⟩ := merge_form platform data client
  · rw [result]
    exact grows_crash _ _
  · rw [result]
    refine .asking (mergeReads data) (by simp [callbacks, merging, Function.comp_def]) ?_ rfl
    cases data <;> simp [mergeReads, NoPage]

/-- What a closure leaves in the queues: it asks no read of a page, and starts the
upload of an edit only when it is the read of one. -/
theorem Answers.grows {platform : Platform} {client after : Client} {callback : Callback}
    {answer : Answer} (answers : Answers platform client callback answer after) :
    Grows NoPage (fun upload => ∃ screen docId, callback = .editRead screen ∧
      upload = .edit screen docId) client.callbacks client.uploads after := by
  cases answers with
  | silent | missed | removed => exact .of_same rfl rfl
  | stops | uncast => exact grows_crash _ _
  | refreshes loop => exact grows_touches (touches_answered platform loop answer client)
  | fetched since next documents =>
    exact .asking [.fetchCities documents next] (by simp [ask, callbacks]) (by simp [NoPage]) rfl
  | merged snapshot data =>
    exact grows_merge platform data { client with firebaseCity := client.cityRead answer }
  | announced documents document postIds =>
    exact .asking [.fetchPosts client.lastUpdateDate (.delete postIds)]
      (by simp [deleteAPosts, enqueue, ask, callbacks, lastUpdateDate]) (by simp [NoPage]) rfl
  | edited screen view documents document title userName asked =>
    refine Or.inr ⟨⟨[], by simp [callbacks], by simp⟩, [.edit screen document.documentID], rfl, ?_⟩
    intro upload member
    exact ⟨screen, document.documentID, asked, List.mem_singleton.mp member⟩

/-- Opening a post asks nothing. -/
theorem Reloads.grows {asks : Callback → Prop} {starts : Upload → Prop} {client after : Client}
    (reloads : Reloads client after) :
    Grows asks starts client.callbacks client.uploads after := by
  cases reloads with
  | closed | signedOut => exact grows_crash _ _
  | shown => exact .of_same rfl rfl

/-- The end of an upload asks and starts nothing. -/
theorem Finishes.grows {asks : Callback → Prop} {starts : Upload → Prop} {url : String}
    {client after : Client} {upload : Upload} (finishes : Finishes url client upload after) :
    Grows asks starts client.callbacks client.uploads after := by
  cases finishes with
  | silent | posts => exact .of_same rfl rfl
  | unfilled | signedOut => exact grows_crash _ _

/-- An answer leaves the closures waiting as they are. -/
theorem callbacks_set {client : Client} {index : Nat} {callback : Callback}
    (waiting : client.pending[index]? = some ⟨callback, none⟩) (answer : Answer) :
    (client.pending.set index ⟨callback, some answer⟩).map Pending.callback = client.callbacks := by
  apply List.ext_getElem?
  intro place
  by_cases here : index = place
  · subst here
    obtain ⟨inside, same⟩ := List.getElem?_eq_some_iff.mp waiting
    simp [callbacks, inside, same]
  · simp [callbacks, List.getElem?_set_ne here]

/-- The queues after a step: a page's read is asked as the page is opened or its button
pressed, and an upload is started by a press on a new page or by the read of an edit. -/
theorem act_grows {platform : Platform} {cloud : Cloud} {client after : Client} {action : Action}
    (acted : client.act platform cloud action = some after) :
    Grows (client.Asks action) (client.Starts action) (client.keptReads action)
      (client.keptUploads action) after := by
  have plain {callback : Callback} (noPage : NoPage callback) : client.Asks action callback := by
    cases callback <;> trivial
  cases act_acts acted with
  | relaunch => exact Or.inl ⟨rfl, rfl⟩
  | getAllPosts =>
    exact .asking [.fetchPosts client.lastUpdateDate .merge]
      (by simp [getAllPosts, ask, callbacks, keptReads]) (by simp [Asks]) rfl
  | postBtn screen idPost =>
    exact Or.inr ⟨⟨[], by simp [callbacks, keptReads], by simp⟩, [.newPost screen idPost], rfl,
      by simp [Starts]⟩
  | confirmDelete =>
    exact .asking [.confirmedDelete] (by simp [ask, callbacks, keptReads]) (by simp [Asks]) rfl
  | openEdit =>
    exact .asking [.editPrefill client.edits.length] (by simp [ask, callbacks, keptReads])
      (by simp [Asks]) rfl
  | podtEditButtom screen =>
    exact .asking [.editRead screen] (by simp [ask, callbacks, keptReads]) (by simp [Asks]) rfl
  | openAdd =>
    exact .asking [.addCity client.adds.length, .addName client.adds.length client.currentUser]
      (by simp [ask, callbacks, keptReads]) (by simp [Asks]) rfl
  | didSelectRowAt post =>
    exact (reloadPost_reloads
      { client with selected := some post, info := some ⟨post, false⟩ }).grows
  | infoAppears => exact (reloadPost_reloads client).grows
  | uploaded index url placeText recText upload =>
    exact (uploaded_finishes url placeText recText
      { client with uploads := client.uploads.eraseIdx index } upload).grows
  | answer index callback waiting | fail index callback waiting =>
    exact .of_same (callbacks_set waiting _) rfl
  | deliver index callback answer ready =>
    have isNext : client.callbacks[index]? = some callback := by simp [callbacks, ready]
    have taken : ({ client with pending := client.pending.eraseIdx index } : Client).callbacks =
        client.callbacks.eraseIdx index := by simp [callbacks, List.eraseIdx_map]
    have grown := (answered_answers platform
      { client with pending := client.pending.eraseIdx index } callback answer).grows
    rw [taken] at grown
    obtain empty | ⟨⟨added, reads, noPage⟩, started, uploads, kind⟩ := grown
    · exact Or.inl empty
    · refine Or.inr ⟨⟨added, reads, ?_⟩, started, uploads, ?_⟩
      · exact fun other member => plain (noPage other member)
      · intro upload member
        obtain ⟨screen, docId, rfl, rfl⟩ := kind upload member
        exact ⟨index, rfl, isNext⟩
  | _ => exact .of_same rfl rfl

end Client

/-- A client whose waiting reads and running uploads are tagged. -/
structure Signed where
  client : Client := {}
  askedBy : List (Option String) := []
  presses : List Press := []
deriving DecidableEq

namespace Signed

/-- The user tags of the reads an action leaves waiting. -/
def keptAskers (signed : Signed) : Action → List (Option String)
  | .deliver index => signed.askedBy.eraseIdx index
  | _ => signed.askedBy

/-- The press tags of the uploads an action leaves running. -/
def keptPresses (signed : Signed) : Action → List Press
  | .uploaded index _ _ _ | .uploadFailed index => signed.presses.eraseIdx index
  | _ => signed.presses

/-- The press an upload that an action starts is tagged with: what a new page shows as
its button is pressed, or who pressed the button of the edit whose read is delivered. -/
def press (signed : Signed) : Action → Press
  | .postBtn screen _ => ⟨signed.client.currentUser, signed.client.adds[screen]?.bind AddScreen.city⟩
  | .deliver index => ⟨signed.askedBy[index]?.join, none⟩
  | _ => ⟨none, none⟩

/-- A step of the client, over a cloud with a given users collection. -/
def step (platform : Platform) (users : List Document) (signed : Signed) (event : Cloud × Action) :
    Option Signed :=
  (signed.client.act platform (Function.update event.1 .users users) event.2).map fun after =>
    { client := after
      askedBy := TaggedLists.retag (signed.keptAskers event.2) signed.client.currentUser
        after.pending.length
      presses := TaggedLists.retag (signed.keptPresses event.2) (signed.press event.2)
        after.uploads.length }

/-- What the end of an upload owes the press it was started by: it does not trap on the
city, the name or the session, and it stores nothing or a post of the user who pressed;
a new post has that user's full name and the city that was shown. -/
structure Attributes (users : List Document) (press : Press) (upload : Upload)
    (before after : Client) : Prop where
  running : after.trap ≠ some .city ∧ after.trap ≠ some .name ∧ after.trap ≠ some .currentUser
  stored : after.outbox = before.outbox ∨ ∃ post : Post, after.outbox = before.outbox ++ [post.write] ∧
    press.user = some post.userId ∧ ∀ screen idPost, upload = .newPost screen idPost →
      IsFullname users post.userId post.userName ∧ press.shown = some post.title

/-- What the end of an upload finds is what the press saw: the same user is signed in,
and a new page shows the same city and has that user's name. -/
def FoundAsPressed (users : List Document) (press : Press) (client : Client) : Upload → Prop
  | .newPost screen _ => ∀ view, client.adds[screen]? = some view → ∃ user city name,
      client.currentUser = some user ∧ press.user = some user ∧
      view.city = some city ∧ press.shown = some city ∧
      view.name = some name ∧ IsFullname users user name
  | .edit screen _ => ∀ view, client.edits[screen]? = some view → ∃ user,
      client.currentUser = some user ∧ press.user = some user

/-- The fields of a post can be read off its write. -/
theorem write_injective {post other : Post} (same : post.write = other.write) :
    post.userId = other.userId ∧ post.userName = other.userName ∧ post.title = other.title := by
  simp only [Post.write, Write.setData.injEq, Post.toJson, List.cons.injEq, Prod.mk.injEq,
    FieldValue.value.injEq, Value.string.injEq, true_and, and_true] at same
  obtain ⟨_, _, _, _, _, title, userName, userId, _⟩ := same
  exact ⟨userId, userName, title⟩

/-- A post that is stored is the one the law speaks of. -/
theorem Attributes.of_stored {users : List Document} {press : Press} {upload : Upload}
    {before after : Client} {post : Post} (attributes : Attributes users press upload before after)
    (queued : after.outbox = before.outbox ++ [post.write]) :
    press.user = some post.userId ∧ ∀ screen idPost, upload = .newPost screen idPost →
      IsFullname users post.userId post.userName ∧ press.shown = some post.title := by
  obtain same | ⟨other, isOther, user, new⟩ := attributes.stored
  · simp [queued] at same
  · rw [queued] at isOther
    obtain ⟨sameUser, sameName, sameTitle⟩ :=
      write_injective (List.cons.inj (List.append_cancel_left isOther)).1
    rw [sameUser, sameName, sameTitle]
    exact ⟨user, new⟩

/-- An end that stores nothing and goes on running owes the press no more. -/
theorem attributes_nothing {users : List Document} {press : Press} {upload : Upload}
    {before after : Client} (running : before.trap = none) (queued : after.outbox = before.outbox)
    (runs : after.trap = before.trap) : Attributes users press upload before after := by
  refine ⟨?_, Or.inl queued⟩
  simp [runs, running]

/-- An end that stores a post owes the press its user, its name and its city. -/
theorem attributes_post {users : List Document} {press : Press} {upload : Upload}
    {before after : Client} (running : before.trap = none) {post : Post}
    (queued : after.outbox = before.outbox ++ [post.write]) (runs : after.trap = before.trap)
    (user : press.user = some post.userId)
    (new : ∀ screen idPost, upload = .newPost screen idPost →
      IsFullname users post.userId post.userName ∧ press.shown = some post.title) :
    Attributes users press upload before after := by
  refine ⟨?_, Or.inr ⟨post, queued, user, new⟩⟩
  simp [runs, running]

/-- The end of an upload of a new post unwraps the city and the name of its page, and
the session. -/
theorem attributes_newPost_iff {users : List Document} {press : Press} {client : Client}
    {index screen : Nat} {idPost url placeText recText : String} (running : client.trap = none)
    (saved : url ≠ "") :
    Attributes users press (.newPost screen idPost) client
        ({ client with uploads := client.uploads.eraseIdx index }.uploaded url placeText recText
          (.newPost screen idPost)) ↔
      FoundAsPressed users press client (.newPost screen idPost) := by
  simp only [Client.uploaded, Client.newPostUploaded, saved, ↓reduceIte]
  cases shown : client.adds[screen]? with
  | none =>
    constructor
    · intro _ view isShown
      exact absurd (shown.symm.trans isShown) (by simp)
    · intro _
      exact attributes_nothing running rfl rfl
  | some view =>
    constructor
    · intro attributes other isShown
      cases Option.some.inj (shown.symm.trans isShown)
      cases hasCity : view.city with
      | none =>
        simp only [hasCity] at attributes
        exact absurd rfl attributes.running.1
      | some city =>
        cases hasName : view.name with
        | none =>
          simp only [hasCity, hasName] at attributes
          exact absurd rfl attributes.running.2.1
        | some name =>
          cases signedIn : client.currentUser with
          | none =>
            simp only [hasCity, hasName, signedIn] at attributes
            exact absurd rfl attributes.running.2.2
          | some user =>
            simp only [hasCity, hasName, signedIn] at attributes
            obtain ⟨isUser, new⟩ := attributes.of_stored rfl
            obtain ⟨isName, isCity⟩ := new screen idPost rfl
            exact ⟨user, city, name, rfl, isUser, rfl, isCity, rfl, isName⟩
    · intro found
      obtain ⟨user, city, name, signedIn, isUser, hasCity, isCity, hasName, isName⟩ := found view shown
      simp only [hasCity, hasName, signedIn]
      exact attributes_post running rfl rfl isUser (fun _ _ _ => ⟨isName, isCity⟩)

/-- The end of an upload of an edit unwraps the session alone. -/
theorem attributes_edit_iff {users : List Document} {press : Press} {client : Client}
    {index screen : Nat} {docId url placeText recText : String} (running : client.trap = none)
    (saved : url ≠ "") :
    Attributes users press (.edit screen docId) client
        ({ client with uploads := client.uploads.eraseIdx index }.uploaded url placeText recText
          (.edit screen docId)) ↔
      FoundAsPressed users press client (.edit screen docId) := by
  simp only [Client.uploaded, Client.editUploaded, saved, ↓reduceIte]
  cases shown : client.edits[screen]? with
  | none =>
    constructor
    · intro _ view isShown
      exact absurd (shown.symm.trans isShown) (by simp)
    · intro _
      exact attributes_nothing running rfl rfl
  | some view =>
    constructor
    · intro attributes other isShown
      cases signedIn : client.currentUser with
      | none =>
        simp only [signedIn] at attributes
        exact absurd rfl attributes.running.2.2
      | some user =>
        simp only [signedIn] at attributes
        exact ⟨user, rfl, (attributes.of_stored rfl).1⟩
    · intro found
      obtain ⟨user, signedIn, isUser⟩ := found view shown
      simp only [signedIn]
      exact attributes_post running rfl rfl isUser (fun _ _ isNew => by cases isNew)

/-- The end of an upload with a saved image attributes its post to the press exactly
when it finds what the press saw. -/
theorem attributes_iff {users : List Document} {press : Press} {client : Client} {index : Nat}
    {upload : Upload} {url placeText recText : String} (running : client.trap = none)
    (saved : url ≠ "") :
    Attributes users press upload client
        ({ client with uploads := client.uploads.eraseIdx index }.uploaded url placeText recText upload) ↔
      FoundAsPressed users press client upload := by
  cases upload with
  | newPost => exact attributes_newPost_iff running saved
  | edit => exact attributes_edit_iff running saved

variable {platform : Platform} {users : List Document}

/-- A step of a tagged client is one of the client. -/
theorem step_client {signed next : Signed} {event : Cloud × Action}
    (stepped : signed.step platform users event = some next) :
    signed.client.act platform (Function.update event.1 .users users) event.2 = some next.client ∧
      next.askedBy = TaggedLists.retag (signed.keptAskers event.2) signed.client.currentUser
        next.client.callbacks.length ∧
      next.presses = TaggedLists.retag (signed.keptPresses event.2) (signed.press event.2)
        next.client.uploads.length := by
  obtain ⟨after, acted, rfl⟩ := Option.map_eq_some_iff.mp stepped
  exact ⟨acted, by rw [Client.callbacks, List.length_map], rfl⟩

/-- What the tags say of the reads and uploads an action keeps, and what the new tags
say of those it starts, the tags say of all after the step. -/
theorem step_tagged {reads : Callback → Option String → Prop} {uploads : Upload → Press → Prop}
    {signed next : Signed} {event : Cloud × Action}
    (stepped : signed.step platform users event = some next)
    (keptReads : List.Forall₂ reads (signed.client.keptReads event.2) (signed.keptAskers event.2))
    (newReads : ∀ callback, signed.client.Asks event.2 callback →
      reads callback signed.client.currentUser)
    (keptUploads : List.Forall₂ uploads (signed.client.keptUploads event.2)
      (signed.keptPresses event.2))
    (newUploads : ∀ upload, signed.client.Starts event.2 upload →
      uploads upload (signed.press event.2)) :
    List.Forall₂ reads next.client.callbacks next.askedBy ∧
      List.Forall₂ uploads next.client.uploads next.presses := by
  obtain ⟨acted, askedBy, presses⟩ := step_client stepped
  rw [askedBy, presses]
  obtain ⟨noReads, noUploads⟩ | ⟨⟨asked, grownReads, asks⟩, started, grownUploads, starts⟩ :=
    Client.act_grows acted
  · rw [noReads, noUploads]
    simp
  · rw [grownReads, grownUploads]
    exact ⟨TaggedLists.forall₂_retag keptReads (fun callback member => newReads _ (asks _ member)),
      TaggedLists.forall₂_retag keptUploads (fun upload member => newUploads _ (starts _ member))⟩

/-- A relation between the items and their tags holds of those an action keeps. -/
theorem kept_tagged {reads : Callback → Option String → Prop} {uploads : Upload → Press → Prop}
    {signed : Signed} (action : Action)
    (taggedReads : List.Forall₂ reads signed.client.callbacks signed.askedBy)
    (taggedUploads : List.Forall₂ uploads signed.client.uploads signed.presses) :
    List.Forall₂ reads (signed.client.keptReads action) (signed.keptAskers action) ∧
      List.Forall₂ uploads (signed.client.keptUploads action) (signed.keptPresses action) := by
  cases action with
  | deliver index => exact ⟨TaggedLists.forall₂_eraseIdx taggedReads index, taggedUploads⟩
  | uploaded index | uploadFailed index =>
    exact ⟨taggedReads, TaggedLists.forall₂_eraseIdx taggedUploads index⟩
  | _ => exact ⟨taggedReads, taggedUploads⟩

/-- Every waiting read and every running upload has its tag. -/
def Tagged (signed : Signed) : Prop :=
  List.Forall₂ (fun _ _ => True) signed.client.callbacks signed.askedBy ∧
    List.Forall₂ (fun _ _ => True) signed.client.uploads signed.presses

/-- Every step keeps the tags. -/
theorem Tagged.step {signed next : Signed} {event : Cloud × Action} (tagged : signed.Tagged)
    (stepped : signed.step platform users event = some next) : next.Tagged := by
  obtain ⟨reads, uploads⟩ := kept_tagged event.2 tagged.1 tagged.2
  exact step_tagged stepped reads (fun _ _ => trivial) uploads (fun _ _ => trivial)

/-- The upload a step ends, if it ends one, had a press, and what it stores is that
press's. -/
def AttributesEnd (users : List Document) (before : Signed) (event : Cloud × Action)
    (after : Signed) : Prop :=
  ∀ index url placeText recText upload, event.2 = .uploaded index url placeText recText →
    before.client.uploads[index]? = some upload →
    ∃ press, before.presses[index]? = some press ∧
      Attributes users press upload before.client after.client

/-- The upload a step ends, if it ends one and its image is saved, finds what its press
saw. -/
def FindsPress (users : List Document) (before : Signed) (event : Cloud × Action) : Prop :=
  ∀ index url placeText recText upload, event.2 = .uploaded index url placeText recText →
    before.client.uploads[index]? = some upload → url ≠ "" →
    ∃ press, before.presses[index]? = some press ∧ FoundAsPressed users press before.client upload

/-- An upload whose image was not saved stores nothing. -/
theorem attributes_unsaved {press : Press} {client : Client} {index : Nat} {upload : Upload}
    {placeText recText : String} (running : client.trap = none) :
    Attributes users press upload client
      ({ client with uploads := client.uploads.eraseIdx index }.uploaded "" placeText recText upload) := by
  refine ⟨?_, Or.inl ?_⟩
  · cases upload <;> simp [Client.uploaded, Client.newPostUploaded, Client.editUploaded, running]
  · cases upload <;> rfl

/-- A step whose upload is tagged attributes it exactly when it finds its press. -/
theorem attributesEnd_iff {before after : Signed} {event : Cloud × Action} (tagged : before.Tagged)
    (stepped : before.step platform users event = some after) :
    AttributesEnd users before event after ↔ FindsPress users before event := by
  obtain ⟨acted, _, _⟩ := step_client stepped
  have result {index : Nat} {url placeText recText : String} {upload : Upload}
      (isEnd : event.2 = .uploaded index url placeText recText)
      (running : before.client.uploads[index]? = some upload) : before.client.trap = none ∧
        after.client = { before.client with
          uploads := before.client.uploads.eraseIdx index }.uploaded url placeText recText upload := by
    rw [isEnd] at acted
    obtain ⟨runs, performed⟩ := Option.ite_none_right_eq_some.mp acted
    simp only [Client.perform, running, Option.map_some, Option.some.injEq] at performed
    exact ⟨runs, performed.symm⟩
  constructor
  · intro attributes index url placeText recText upload isEnd running saved
    obtain ⟨press, isPress, attributed⟩ := attributes index url placeText recText upload isEnd running
    obtain ⟨runs, ended⟩ := result isEnd running
    rw [ended] at attributed
    exact ⟨press, isPress, (attributes_iff runs saved).mp attributed⟩
  · intro finds index url placeText recText upload isEnd running
    obtain ⟨runs, ended⟩ := result isEnd running
    rw [ended]
    by_cases saved : url = ""
    · subst saved
      obtain ⟨press, isPress, _⟩ := TaggedLists.forall₂_getElem? tagged.2 running
      exact ⟨press, isPress, attributes_unsaved runs⟩
    · obtain ⟨press, isPress, found⟩ := finds index url placeText recText upload isEnd running saved
      exact ⟨press, isPress, (attributes_iff runs saved).mpr found⟩

/-- In every run from a fresh start, whatever the users collection and whatever the
cloud holds at each step, the ends of all uploads attribute what they store to the
press exactly when each that has a saved image finds what the press saw. -/
theorem presses_attributed_iff (platform : Platform) (users : List Document)
    (events : List (Cloud × Action)) :
    (∀ before event after, (before, event, after) ∈
        GuardedRuns.transitions (step platform users) {} events →
      AttributesEnd users before event after) ↔
      ∀ before event after, (before, event, after) ∈
          GuardedRuns.transitions (step platform users) {} events →
        FindsPress users before event := by
  have kept (state : Signed) (event : Cloud × Action) (next : Signed) (tagged : state.Tagged)
      (stepped : state.step platform users event = some next) : next.Tagged := tagged.step stepped
  have each : ∀ before event after, (before, event, after) ∈
      GuardedRuns.transitions (step platform users) {} events →
        (AttributesEnd users before event after ↔ FindsPress users before event) :=
    GuardedRuns.every_transition kept
      (fun _ _ _ tagged stepped => attributesEnd_iff tagged stepped) ⟨.nil, .nil⟩
  constructor
  · intro attributed before event after member
    exact (each before event after member).mp (attributed before event after member)
  · intro finds before event after member
    exact (each before event after member).mpr (finds before event after member)

/-- The reads of a page are over. -/
def Settled (client : Client) (page : Nat) : Prop :=
  ∀ callback ∈ client.callbacks, callback ≠ .addCity page ∧ ∀ uid, callback ≠ .addName page uid

/-- Post is pressed on a page whose reads are over, by the user whose name it got, and on
the page of an edit by somebody signed in; and nobody signs in or out while a press is
on its way. -/
def Careful (users : List Document) (signed : Signed) (event : Cloud × Action) : Prop :=
  match event.2 with
  | .postBtn page _ => ∃ user view city name, signed.client.currentUser = some user ∧
      signed.client.adds[page]? = some view ∧ view.city = some city ∧ view.name = some name ∧
      IsFullname users user name ∧ Settled signed.client page
  | .podtEditButtom _ => signed.client.currentUser ≠ none
  | .signIn _ | .signOut => signed.client.uploads = [] ∧
      ∀ callback ∈ signed.client.callbacks, ∀ page, callback ≠ .editRead page
  | _ => True

/-- The waiting read of an edit was asked by the user signed in. -/
def AskedBy (client : Client) (callback : Callback) (asker : Option String) : Prop :=
  ∀ page, callback = .editRead page → ∃ user, asker = some user ∧ client.currentUser = some user

/-- The upload will find what its press saw, and nothing is on its way that would change
that. -/
def Stands (users : List Document) (client : Client) (upload : Upload) (press : Press) : Prop :=
  ∃ user, client.currentUser = some user ∧ press.user = some user ∧
    ∀ page idPost, upload = .newPost page idPost → ∃ view city name,
      client.adds[page]? = some view ∧ view.city = some city ∧ press.shown = some city ∧
        view.name = some name ∧ IsFullname users user name ∧ Settled client page

/-- A press that stands is found as it was pressed. -/
theorem Stands.found {client : Client} {upload : Upload} {press : Press}
    (stands : Stands users client upload press) : FoundAsPressed users press client upload := by
  obtain ⟨user, signedIn, isUser, new⟩ := stands
  cases upload with
  | newPost page idPost =>
    obtain ⟨view, city, name, shown, hasCity, isCity, hasName, isName, _⟩ := new page idPost rfl
    intro other isShown
    cases Option.some.inj (shown.symm.trans isShown)
    exact ⟨user, city, name, signedIn, isUser, hasCity, isCity, hasName, isName⟩
  | edit page docId => exact fun _ _ => ⟨user, signedIn, isUser⟩

/-- The reads of an open page stay over. -/
theorem Settled.act {cloud : Cloud} {client after : Client} {action : Action} {page : Nat}
    (settled : Settled client page) (opened : page < client.adds.length)
    (acted : client.act platform cloud action = some after) : Settled after page := by
  intro callback member
  obtain ⟨noReads, _⟩ | ⟨⟨asked, grown, asks⟩, _⟩ := Client.act_grows acted
  · rw [noReads] at member
    exact absurd member List.not_mem_nil
  · rw [grown] at member
    obtain older | new := List.mem_append.mp member
    · apply settled callback
      cases action with
      | deliver index => exact List.mem_of_mem_eraseIdx older
      | _ => exact older
    · have isAsked := asks callback new
      constructor
      · rintro rfl
        exact absurd isAsked.2 (Nat.ne_of_lt opened)
      · rintro uid rfl
        exact absurd isAsked.2 (Nat.ne_of_lt opened)

/-- An upload that stands goes on standing while nobody signs in or out. -/
theorem Stands.act {cloud : Cloud} {client after : Client} {action : Action} {upload : Upload}
    {press : Press} (stands : Stands users client upload press)
    (acted : client.act platform cloud action = some after)
    (session : after.currentUser = client.currentUser) (launched : action ≠ .relaunch) :
    Stands users after upload press := by
  obtain ⟨user, signedIn, isUser, new⟩ := stands
  refine ⟨user, session.trans signedIn, isUser, ?_⟩
  intro page idPost isNew
  obtain ⟨view, city, name, shown, hasCity, isCity, hasName, isName, settled⟩ := new page idPost isNew
  obtain ⟨opened, _⟩ := List.getElem?_eq_some_iff.mp shown
  have ended : ∀ pending ∈ client.pending, pending.callback ≠ .addCity page ∧
      ∀ uid, pending.callback ≠ .addName page uid :=
    fun pending member => settled pending.callback (List.mem_map_of_mem member)
  exact ⟨view, city, name, Client.act_adds acted shown ended launched, hasCity, isCity, hasName, isName,
    settled.act opened acted⟩

/-- Every press on its way stands. -/
def AllStand (users : List Document) (signed : Signed) : Prop :=
  List.Forall₂ (AskedBy signed.client) signed.client.callbacks signed.askedBy ∧
    List.Forall₂ (Stands users signed.client) signed.client.uploads signed.presses

/-- What a careful action keeps on its way stands at the client after the step. -/
theorem AllStand.kept {signed next : Signed} {event : Cloud × Action}
    (stand : signed.AllStand users) (careful : signed.Careful users event)
    (acted : signed.client.act platform (Function.update event.1 .users users) event.2 =
      some next.client) (launched : event.2 ≠ .relaunch) :
    List.Forall₂ (AskedBy next.client) (signed.client.keptReads event.2)
        (signed.keptAskers event.2) ∧
      List.Forall₂ (Stands users next.client) (signed.client.keptUploads event.2)
        (signed.keptPresses event.2) := by
  obtain ⟨reads, uploads⟩ := kept_tagged event.2 stand.1 stand.2
  have same (session : next.client.currentUser = signed.client.currentUser) :
      List.Forall₂ (AskedBy next.client) (signed.client.keptReads event.2)
          (signed.keptAskers event.2) ∧
        List.Forall₂ (Stands users next.client) (signed.client.keptUploads event.2)
          (signed.keptPresses event.2) := by
    refine ⟨reads.imp ?_, uploads.imp ?_⟩
    · intro callback asker asked page isEdit
      obtain ⟨user, isAsker, signedIn⟩ := asked page isEdit
      exact ⟨user, isAsker, session.trans signedIn⟩
    · exact fun upload press stands => stands.act acted session launched
  have none (noUploads : signed.client.uploads = [])
      (noReads : ∀ callback ∈ signed.client.callbacks, ∀ page, callback ≠ .editRead page) :
      List.Forall₂ (AskedBy next.client) signed.client.callbacks signed.askedBy ∧
        List.Forall₂ (Stands users next.client) signed.client.uploads signed.presses := by
    constructor
    · refine ((List.forall₂_and_left _ _).mpr ⟨noReads, stand.1⟩).imp ?_
      rintro callback asker ⟨noEdit, _⟩ page isEdit
      exact absurd isEdit (noEdit page)
    · have presses : signed.presses = [] := by simpa [noUploads] using stand.2.length_eq.symm
      rw [noUploads, presses]
      exact .nil
  obtain ⟨cloud, action⟩ := event
  cases action with
  | signIn uid => exact none careful.1 careful.2
  | signOut => exact none careful.1 careful.2
  | _ => exact same (Client.act_session acted (by simp) (by simp))

/-- A careful step keeps every press standing. -/
theorem AllStand.step {signed next : Signed} {event : Cloud × Action}
    (stand : signed.AllStand users) (careful : signed.Careful users event)
    (stepped : signed.step platform users event = some next) : next.AllStand users := by
  obtain ⟨acted, askedBy, presses⟩ := step_client stepped
  by_cases launched : event.2 = .relaunch
  · rw [launched] at acted
    have relaunched : next.client = signed.client.relaunch := (Option.some.inj acted).symm
    constructor
    · rw [askedBy, relaunched]
      simp [Client.relaunch, Client.callbacks]
    · rw [presses, relaunched]
      simp [Client.relaunch]
  · obtain ⟨reads, uploads⟩ := stand.kept careful acted launched
    obtain ⟨cloud, action⟩ := event
    refine step_tagged stepped reads ?_ uploads ?_
    · rintro callback asks page rfl
      have isPress : action = .podtEditButtom page := asks
      subst isPress
      obtain ⟨user, signedIn⟩ := Option.ne_none_iff_exists'.mp careful
      exact ⟨user, signedIn, (Client.act_session acted (by simp) (by simp)).trans signedIn⟩
    · intro upload starts
      cases upload with
      | newPost page idPost =>
        have isPress : action = .postBtn page idPost := starts
        subst isPress
        obtain ⟨user, view, city, name, signedIn, shown, hasCity, hasName, isName, settled⟩ := careful
        have stands : Stands users signed.client (.newPost page idPost)
            (signed.press (.postBtn page idPost)) := by
          refine ⟨user, signedIn, signedIn, ?_⟩
          intro other otherPost isNew
          cases isNew
          exact ⟨view, city, name, shown, hasCity, by simp [press, shown, hasCity], hasName, isName,
            settled⟩
        exact stands.act acted (Client.act_session acted (by simp) (by simp)) launched
      | edit page docId =>
        obtain ⟨index, isDeliver, isRead⟩ := starts
        have isStep : action = .deliver index := isDeliver
        subst isStep
        obtain ⟨asker, isAsker, asked⟩ := TaggedLists.forall₂_getElem? stand.1 isRead
        obtain ⟨user, isUser, signedIn⟩ := asked page rfl
        have session := Client.act_session acted (by simp) (by simp)
        exact ⟨user, session.trans signedIn, by simp [press, isAsker, isUser], by simp⟩

/-- In every run of careful steps each upload attributes what it stores to its press. -/
theorem careful_presses_attributed {events : List (Cloud × Action)} {last : Signed}
    (run : GuardedRuns.Runs (step platform users) (Careful users) {} events last) :
    ∀ before event after, (before, event, after) ∈
        GuardedRuns.transitions (step platform users) {} events →
      AttributesEnd users before event after := by
  have kept (state : Signed) (event : Cloud × Action) (next : Signed)
      (facts : state.Tagged ∧ state.AllStand users) (careful : state.Careful users event)
      (stepped : state.step platform users event = some next) : next.Tagged ∧ next.AllStand users :=
    ⟨facts.1.step stepped, facts.2.step careful stepped⟩
  refine run.every_step kept ?_ ⟨⟨.nil, .nil⟩, .nil, .nil⟩
  rintro before event after ⟨tagged, stand⟩ _ stepped
  refine (attributesEnd_iff tagged stepped).mpr ?_
  intro index url placeText recText upload _ running _
  obtain ⟨press, isPress, stands⟩ := TaggedLists.forall₂_getElem? stand.2 running
  exact ⟨press, isPress, stands.found⟩

/-- A cloud in which a city is selected. -/
def selected (title : String) : Cloud
  | .cities => [⟨"city", [("title", .string title)]⟩]
  | _ => []

/-- Ann presses Post on a page whose reads are over; before her image is saved, Bob has
signed in on the device. -/
def userChanges : List (Cloud × Action) :=
  [.signIn "ann", .openAdd, .answer 0, .deliver 0, .answer 0, .deliver 0,
    .postBtn 0 "AAAAAAAAAAAAAAAAAAA1", .signOut, .signIn "bob"].map (Prod.mk (selected "Haifa"))

/-- A post can be stored under another user than the one who pressed. -/
theorem presses_not_always_attributed : ¬ ∀ (users : List Document) (events : List (Cloud × Action))
    (before after : Signed) (event : Cloud × Action), (before, event, after) ∈
      GuardedRuns.transitions (step Platform.plain users) {} events →
    AttributesEnd users before event after := by
  intro always
  have ran : ((GuardedRuns.exec (step Platform.plain [⟨"ann", [("fullname", .string "Ann")]⟩]) {}
      userChanges).any fun before =>
        (before.step Platform.plain [⟨"ann", [("fullname", .string "Ann")]⟩]
          (selected "Haifa", .uploaded 0 "url" "place" "text")).any fun after =>
            decide (before.client.uploads[0]? = some (.newPost 0 "AAAAAAAAAAAAAAAAAAA1") ∧
              before.presses[0]? = some ⟨some "ann", some "Haifa"⟩ ∧
              after.client.outbox = before.client.outbox ++
                [(World.debutPost ⟨"bob", "Ann", "", ""⟩ "Haifa" "AAAAAAAAAAAAAAAAAAA1").write])) =
      true := by
    decide +kernel
  obtain ⟨before, after, _, transition, running, isPress, stored⟩ := GuardedRuns.exists_transition ran
  obtain ⟨press, found, attributes⟩ := always _ _ before after _ transition 0 "url" "place" "text" _ rfl
    running
  cases Option.some.inj (isPress.symm.trans found)
  have user := (attributes.of_stored stored).1
  simp [World.debutPost] at user

end Signed

end Amigo
