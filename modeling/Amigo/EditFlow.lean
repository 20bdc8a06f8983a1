import Amigo.Identifiers
import Amigo.ScreenFrames

/-!
# How an edit travels through a client

A list handed to the table shows posts read from rows. Tapping one opens it, keeps its
id for the page of an edit, and enables that page when the post's user is signed in.
The page's button reads the cloud, keeps the title and the author's name of the
document under the kept id and starts an upload; the upload's end writes a post with
these two, that id, and the user who is signed in by then. Each law says where one of
these pieces comes from in a step.
-/

namespace Amigo

namespace Client

/-- No new list was handed over, or one, read from the rows there are with the city of the
feed. -/
def Lists (platform : Platform) (before after : Client) : Prop :=
  after.delivered = before.delivered ∨ ∃ data, after.delivered = before.delivered ++ [data] ∧
    after.postCity = before.postCity ∧
    getAllPostsFromDb platform after.postCity after.postAmigo = some data

/-- Only the closure that merges hands a list over. -/
theorem Answers.lists {platform : Platform} {client after : Client} {callback : Callback}
    {answer : Answer} (answers : Answers platform client callback answer after) :
    Lists platform client after := by
  cases answers with
  | refreshes loop =>
    obtain ⟨rows, city, adds, _, same | ⟨trap, same⟩⟩ :=
      touches_form (touches_answered platform loop answer client)
    · exact Or.inl (by rw [same])
    · exact Or.inl (by rw [same]; rfl)
  | merged snapshot data =>
    obtain ⟨_, result⟩ | ⟨finalData, isRead, result⟩ :=
      merge_form platform data { client with firebaseCity := client.cityRead answer }
    · exact Or.inl (by rw [result]; rfl)
    · rw [result]
      exact Or.inr ⟨finalData, rfl, rfl, isRead⟩
  | silent | stops | fetched | uncast | missed | removed | announced | edited => exact Or.inl rfl

/-- A list handed over after a step was handed over before, or was read from the rows
there are after it. -/
theorem act_lists {platform : Platform} {cloud : Cloud} {client after : Client} {action : Action}
    (acted : client.act platform cloud action = some after) : Lists platform client after := by
  cases act_acts acted with
  | didSelectRowAt => exact Or.inl (reloadPost_reloads _).frame.2.2.2
  | infoAppears => exact Or.inl (reloadPost_reloads client).frame.2.2.2
  | uploaded index url placeText recText upload =>
    exact Or.inl (uploaded_finishes url placeText recText _ upload).untouched.2.2.2
  | deliver index callback answer =>
    exact (answered_answers platform
      { client with pending := client.pending.eraseIdx index } callback answer).lists
  | _ => exact Or.inl rfl

/-- The posts of a new list are those of rows, where the city is plain. -/
theorem act_listed {platform : Platform} {cloud : Cloud} {client after : Client} {action : Action}
    (acted : client.act platform cloud action = some after) (plain : PlainText client.postCity) :
    after.delivered = client.delivered ∨ ∃ data, after.delivered = client.delivered ++ [data] ∧
      ∀ post ∈ data, ∃ row ∈ after.postAmigo, readRow row = some post := by
  obtain same | ⟨data, grown, sameCity, isRead⟩ := act_lists acted
  · exact Or.inl same
  · refine Or.inr ⟨data, grown, ?_⟩
    intro post member
    obtain ⟨row, selected, isPost⟩ := (mem_readRows isRead post).mp member
    rw [sameCity, selectedRows_plain platform plain] at selected
    exact ⟨row, (List.mem_filter.mp selected).1, isPost⟩

/-- The title and the author's name the screen of an upload keeps. -/
def signature (client : Client) : Upload → Option (String × String)
  | .newPost screen _ =>
    (client.adds[screen]?).bind fun view =>
      view.city.bind fun city => view.name.map fun name => (city, name)
  | .edit screen _ => (client.edits[screen]?).map fun view => (view.city, view.name)

/-- The post an upload closure puts together. -/
structure Composed (client : Client) (url placeText recText : String) (upload : Upload)
    (post : Post) : Prop where
  saved : url ≠ ""
  id : post.id = upload.document
  postId : post.postId = upload.document
  placeImage : post.placeImage = url
  placeLocation : post.placeLocation = placeText
  recText : post.recText = recText
  signature : client.signature upload = some (post.title, post.userName)
  author : client.currentUser = some post.userId

/-- An upload closure issues nothing, or the post it puts together. -/
theorem uploaded_composes (client : Client) (url placeText recText : String) (upload : Upload) :
    (client.uploaded url placeText recText upload).outbox = client.outbox ∨
      ∃ post, Composed client url placeText recText upload post ∧
        (client.uploaded url placeText recText upload).outbox = client.outbox ++ [post.write] := by
  cases upload with
  | newPost screen idPost =>
    simp only [uploaded, newPostUploaded]
    split
    · exact Or.inl rfl
    · rename_i saved
      split
      · exact Or.inl rfl
      · rename_i view shown
        split
        · exact Or.inl rfl
        · rename_i city hasCity
          split
          · exact Or.inl rfl
          · rename_i name hasName
            split
            · exact Or.inl rfl
            · rename_i uid signedIn
              refine Or.inr ⟨_, ⟨saved, rfl, rfl, rfl, rfl, rfl, ?_, signedIn⟩, rfl⟩
              simp [signature, shown, hasCity, hasName]
  | edit screen docId =>
    simp only [uploaded, editUploaded]
    split
    · exact Or.inl rfl
    · rename_i saved
      split
      · exact Or.inl rfl
      · rename_i view shown
        split
        · exact Or.inl rfl
        · rename_i uid signedIn
          refine Or.inr ⟨_, ⟨saved, rfl, rfl, rfl, rfl, rfl, ?_, signedIn⟩, rfl⟩
          simp [signature, shown]

/-- The step taps a row of the table. -/
def taps : Action → Bool
  | .didSelectRowAt _ => true
  | _ => false

/-- What opens a post: tapping one that is shown, or coming back to the open one. -/
inductive Opens (client : Client) (action : Action) (info : InfoScreen) : Prop
  | tapped (post : Post) (tap : action = .didSelectRowAt post) (shown : client.shows post = true)
      (isInfo : info = ⟨post, false⟩)
  | back (appears : action = .infoAppears) (isOpen : client.info = some info)

/-- The open post after a step is the one before, or was opened by the step, which keeps
its id and enables the edit for its user. -/
theorem act_info {platform : Platform} {cloud : Cloud} {client after : Client} {action : Action}
    (acted : client.act platform cloud action = some after) :
    (taps action = false ∧ after.info = client.info ∧ after.postID = client.postID) ∨ after.info = none ∨
      ∃ info, Opens client action info ∧ after.postID = info.post.postId ∧
        after.info = some { info with
          editable := info.editable || decide (some info.post.userId = client.currentUser) } := by
  have reloaded {before : Client} {info : InfoScreen} (isOpen : before.info = some info) :
      before.reloadPost.postID = info.post.postId ∧ before.reloadPost.info = some { info with
        editable := info.editable || decide (some info.post.userId = before.currentUser) } := by
    simp only [reloadPost, isOpen]
    split <;> exact ⟨rfl, rfl⟩
  cases act_acts acted with
  | didSelectRowAt post shown =>
    exact Or.inr (Or.inr ⟨⟨post, false⟩, .tapped post rfl shown rfl, reloaded rfl⟩)
  | infoAppears =>
    cases isOpen : client.info with
    | none => exact Or.inl ⟨rfl, by simp [reloadPost, isOpen, crash]⟩
    | some info => exact Or.inr (Or.inr ⟨info, .back rfl isOpen, reloaded isOpen⟩)
  | uploaded index url placeText recText upload =>
    have untouched := (uploaded_finishes url placeText recText
      { client with uploads := client.uploads.eraseIdx index } upload).untouched.1
    exact Or.inl ⟨rfl, untouched.info, untouched.postID⟩
  | deliver index callback answer =>
    have untouched := (answered_answers platform
      { client with pending := client.pending.eraseIdx index } callback answer).untouched.1
    exact Or.inl ⟨rfl, untouched.info, untouched.postID⟩
  | relaunch => exact Or.inr (Or.inl rfl)
  | _ => exact Or.inl ⟨rfl, rfl, rfl⟩

/-- What a step does to the pages of edits and their uploads. -/
inductive PagesMoved (client : Client) (action : Action) (after : Client) : Prop
  | same (edits : after.edits = client.edits)
      (uploads : ∀ page docId, .edit page docId ∈ after.uploads → .edit page docId ∈ client.uploads)
  | opened (info : InfoScreen) (press : action = .openEdit) (isOpen : client.info = some info)
      (editable : info.editable = true)
      (edits : after.edits = client.edits ++ [EditScreen.mk client.postID "" ""])
      (uploads : after.uploads = client.uploads)
  | read (page : Nat) (view : EditScreen) (documents : List Document) (document : Document)
      (title userName : String)
      (waiting : ⟨.editRead page, some (.snapshot documents)⟩ ∈ client.pending)
      (member : document ∈ documents) (shown : client.edits[page]? = some view)
      (named : document.documentID = view.postEditID)
      (hasTitle : document.data.string "title" = some title)
      (hasName : document.data.string "userName" = some userName)
      (edits : after.edits = client.edits.modify page
        (fun view => { view with city := title, name := userName }))
      (uploads : after.uploads = client.uploads ++ [.edit page document.documentID])
  | closed (edits : after.edits = []) (uploads : after.uploads = [])

/-- What keeps the pages and starts no upload moves nothing. -/
theorem PagesMoved.of_same {client after : Client} {action : Action}
    (edits : after.edits = client.edits) (uploads : after.uploads.Sublist client.uploads) :
    PagesMoved client action after :=
  .same edits (fun _ _ member => uploads.subset member)

/-- How a step moves the pages of a client. -/
theorem act_pages {platform : Platform} {cloud : Cloud} {client after : Client} {action : Action}
    (acted : client.act platform cloud action = some after) : PagesMoved client action after := by
  cases act_acts acted with
  | openEdit info isOpen editable => exact .opened info rfl isOpen editable rfl rfl
  | relaunch => exact .closed rfl rfl
  | postBtn screen idPost =>
    refine .same rfl ?_
    intro page docId member
    simpa using member
  | didSelectRowAt post =>
    have reloads := reloadPost_reloads { client with selected := some post, info := some ⟨post, false⟩ }
    exact .of_same reloads.frame.2.2.1 reloads.quiet.uploads
  | infoAppears =>
    have reloads := reloadPost_reloads client
    exact .of_same reloads.frame.2.2.1 reloads.quiet.uploads
  | uploaded index url placeText recText upload running =>
    exact .of_same (uploaded_finishes url placeText recText _ upload).untouched.2.1
      ((act_finished acted).trans (List.eraseIdx_sublist _ _))
  | uploadFailed index => exact .of_same rfl (List.eraseIdx_sublist _ _)
  | deliver index callback answer ready =>
    have answers := answered_answers platform
      { client with pending := client.pending.eraseIdx index } callback answer
    generalize answered platform callback answer
      { client with pending := client.pending.eraseIdx index } = after at answers ⊢
    cases answers with
    | refreshes loop =>
      have touches := touches_answered platform loop answer
        { client with pending := client.pending.eraseIdx index }
      exact .of_same (untouched_touches touches).2 (quiet_touches _ _ touches).uploads
    | merged => exact .of_same (untouched_merge _ _ _).2.1 merge_uploads
    | edited page view documents document title userName asked answered member shown named hasTitle
        hasName =>
      subst asked answered
      exact .read page view documents document title userName (List.mem_of_getElem? ready) member
        shown named hasTitle hasName rfl rfl
    | stops | uncast => exact .of_same rfl (List.nil_sublist _)
    | silent | fetched | missed | removed | announced => exact .of_same rfl (List.Sublist.refl _)
  | _ => exact .of_same rfl (List.Sublist.refl _)

/-- A post's write queued after a step was queued before, or a finished upload issued it
for the user signed in; an edit takes the title and the name its page keeps. -/
theorem act_posted {platform : Platform} {cloud : Cloud} {client after : Client} {action : Action}
    (acted : client.act platform cloud action = some after) {docId : String} {json : Json}
    (queued : .setData .posts docId json ∈ after.outbox) :
    .setData .posts docId json ∈ client.outbox ∨
      ∃ (index : Nat) (url placeText recText : String) (upload : Upload) (post : Post),
        action = .uploaded index url placeText recText ∧ client.uploads[index]? = some upload ∧
        url ≠ "" ∧ upload.document = docId ∧ post.id = docId ∧ post.postId = docId ∧
        json = post.toJson ∧ client.currentUser = some post.userId ∧
        ∀ page document, upload = .edit page document → ∃ view, client.edits[page]? = some view ∧
          post.title = view.city ∧ post.userName = view.name := by
  cases act_acts acted with
  | selectPin title => exact Or.inl (by simpa [enqueue] using queued)
  | addUser user => exact Or.inl (by simpa [enqueue, User.write] using queued)
  | didSelectRowAt post =>
    rw [(reloadPost_reloads _).quiet.outbox] at queued
    exact Or.inl queued
  | infoAppears => exact Or.inl ((reloadPost_reloads client).quiet.outbox ▸ queued)
  | commit time write rest head => exact Or.inl (head ▸ List.mem_cons_of_mem _ queued)
  | reject write rest head => exact Or.inl (head ▸ List.mem_cons_of_mem _ queued)
  | uploaded index url placeText recText upload running =>
    have finishes := uploaded_finishes url placeText recText
      { client with uploads := client.uploads.eraseIdx index } upload
    generalize uploaded url placeText recText
      { client with uploads := client.uploads.eraseIdx index } upload = after at finishes queued
    cases finishes with
    | silent | unfilled | signedOut => exact Or.inl queued
    | posts post saved named carried author kept =>
      obtain older | new := List.mem_append.mp queued
      · exact Or.inl older
      · obtain ⟨rfl, rfl⟩ : docId = post.id ∧ json = post.toJson := by
          simpa [Post.write] using List.mem_singleton.mp new
        exact Or.inr ⟨index, url, placeText, recText, upload, post, rfl, running, saved, named.symm,
          rfl, carried.trans named.symm, rfl, author, kept⟩
  | deliver index callback answer ready =>
    generalize isWrite : Write.setData .posts docId json = write at queued
    cases act_outbox acted queued with
    | kept before => exact Or.inl before
    | pressed pressed => cases pressed <;> simp [User.write] at isWrite
    | posted other url placeText recText upload post finished => cases finished
    | announced => simp at isWrite
    | removed => simp at isWrite
  | _ => exact Or.inl queued

end Client

end Amigo
