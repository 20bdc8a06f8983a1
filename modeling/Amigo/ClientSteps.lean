import Amigo.Closures

/-!
# What one step of a client can do

Most closures of the app ask nothing, issue nothing and add no row: they set
screen fields, drop rows, or trap. Five do more, and each is described here by
its exact effect and by where its data came from. The inversion of a whole step
adds the presses that ask reads, issue writes or start an upload, the finished
upload that issues a post, the answer the server gives a read, and the queue of
writes moving on. Later laws about reads, uploads, writes and rows start from
these inversions and do not unfold a closure again.
-/

namespace Amigo

namespace Client

/-- Nothing was asked, issued or started, no row was added and no date changed. -/
structure Quiet (before after : Client) : Prop where
  pending : after.pending ⊆ before.pending
  uploads : after.uploads.Sublist before.uploads
  outbox : after.outbox = before.outbox
  rows : after.postAmigo.Sublist before.postAmigo
  dates : after.dates = before.dates

/-- A step that leaves all five alone is quiet, whatever else it sets. -/
theorem Quiet.of_same {before after : Client} (pending : after.pending = before.pending)
    (uploads : after.uploads = before.uploads) (outbox : after.outbox = before.outbox)
    (rows : after.postAmigo = before.postAmigo) (dates : after.dates = before.dates) :
    Quiet before after :=
  ⟨pending ▸ List.Subset.refl _, uploads ▸ List.Sublist.refl _, outbox, rows ▸ List.Sublist.refl _,
    dates⟩

/-- Doing nothing is quiet. -/
theorem Quiet.rfl (client : Client) : Quiet client client :=
  Quiet.of_same (Eq.refl _) (Eq.refl _) (Eq.refl _) (Eq.refl _) (Eq.refl _)

/-- Two quiet steps are one. -/
theorem Quiet.trans {first second third : Client} (before : Quiet first second)
    (after : Quiet second third) : Quiet first third :=
  ⟨fun _ member => before.pending (after.pending member), after.uploads.trans before.uploads,
    after.outbox.trans before.outbox, after.rows.trans before.rows, after.dates.trans before.dates⟩

/-- Stopping is quiet. -/
theorem quiet_crash (trap : Trap) (client : Client) : Quiet client (client.crash trap) :=
  ⟨List.nil_subset _, List.nil_sublist _, rfl, List.Sublist.refl _, rfl⟩

instance : Std.Refl Quiet := ⟨Quiet.rfl⟩

instance : IsTrans Client Quiet := ⟨fun _ _ _ => Quiet.trans⟩

/-- So are the loops that only bring fields up to date. -/
theorem quiet_touches : Relation.ReflTransGen Touch ≤ Quiet := by
  apply Relation.reflTransGen_le_of_le
  intro before after touch
  cases touch with
  | drops rows kept => exact ⟨List.Subset.refl _, List.Sublist.refl _, rfl, kept, rfl⟩
  | refreshes | fills => exact Quiet.of_same rfl rfl rfl rfl rfl
  | stops trap => exact quiet_crash trap before

/-- So is opening a post. -/
theorem Reloads.quiet {client after : Client} (reloads : Reloads client after) :
    Quiet client after := by
  cases reloads with
  | closed => exact quiet_crash _ client
  | signedOut info =>
    refine Quiet.trans ?_ (quiet_crash _ (client.reloaded info))
    exact Quiet.of_same rfl rfl rfl rfl rfl
  | shown => exact Quiet.of_same rfl rfl rfl rfl rfl

/-- What delivering a callback can do. -/
inductive Delivered (platform : Platform) (client : Client) (callback : Callback) (answer : Answer) :
    Client → Prop
  | quiet {after : Client} (quiet : Quiet client after) : Delivered platform client callback answer after
  | fetched (since : Int) (next : AfterFetch) (documents : List Document)
      (asked : callback = .fetchPosts since next) (answered : answer = .snapshot documents) :
      Delivered platform client callback answer (client.ask (.fetchCities documents next))
  | merged (snapshot : List Document) (data : List Post)
      (asked : callback = .fetchCities snapshot .merge)
      (matched : matchingPosts platform (client.cityRead answer) snapshot = some data) :
      Delivered platform client callback answer
        ({ client with firebaseCity := client.cityRead answer }.merge platform data)
  | removed (snapshot : List Document) (postIds : String) (data : List Post)
      (asked : callback = .fetchCities snapshot (.delete postIds))
      (matched : matchingPosts platform (client.cityRead answer) snapshot = some data)
      (post : Post) (found : post ∈ data) (named : post.postId = postIds) :
      Delivered platform client callback answer
        ({ client with
          firebaseCity := client.cityRead answer
          postAmigo := deleteFromDb platform post postIds client.postAmigo }.enqueue (.delete postIds))
  | announced (documents : List Document) (document : Document) (postIds : String)
      (asked : callback = .confirmedDelete) (answered : answer = .snapshot documents)
      (member : document ∈ documents) (named : document.data.string "postId" = some postIds)
      (chosen : client.selected.map Post.postId = some postIds) :
      Delivered platform client callback answer
        ((client.enqueue
          (.setData .deleter "Post" [("idPost", .value (.string postIds))])).deleteAPosts postIds)
  | edited (screen : Nat) (view : EditScreen) (documents : List Document) (document : Document)
      (title userName : String) (asked : callback = .editRead screen)
      (answered : answer = .snapshot documents) (member : document ∈ documents)
      (shown : client.edits[screen]? = some view) (named : document.documentID = view.postEditID)
      (hasTitle : document.data.string "title" = some title)
      (hasName : document.data.string "userName" = some userName) :
      Delivered platform client callback answer
        { client with
          edits := client.edits.modify screen
            (fun view => { view with city := title, name := userName })
          uploads := client.uploads ++ [.edit screen document.documentID] }

/-- The inversion of a delivered callback. -/
theorem Answers.delivered {platform : Platform} {client after : Client} {callback : Callback}
    {answer : Answer} (answers : Answers platform client callback answer after) :
    Delivered platform client callback answer after := by
  cases answers with
  | silent => exact .quiet (Quiet.rfl client)
  | stops trap => exact .quiet (quiet_crash trap client)
  | refreshes loop => exact .quiet (quiet_touches _ _ (touches_answered platform loop answer client))
  | fetched since next documents asked answered => exact .fetched since next documents asked answered
  | uncast =>
    refine .quiet (Quiet.trans ?_ (quiet_crash .postField _))
    exact Quiet.of_same rfl rfl rfl rfl rfl
  | merged snapshot data asked matched => exact .merged snapshot data asked matched
  | missed => exact .quiet (Quiet.of_same rfl rfl rfl rfl rfl)
  | removed snapshot postIds data asked matched post found named =>
    exact .removed snapshot postIds data asked matched post found named
  | announced documents document postIds asked answered member named chosen =>
    exact .announced documents document postIds asked answered member named chosen
  | edited screen view documents document title userName asked answered member shown named
      hasTitle hasName =>
    exact .edited screen view documents document title userName asked answered member shown named
      hasTitle hasName

/-- The reads a press asks. None of them carries documents yet. -/
inductive Pressed (client : Client) : Callback → Prop
  | sync : Pressed client (.fetchPosts client.lastUpdateDate .merge)
  | confirmedDelete : Pressed client .confirmedDelete
  | addCity (screen : Nat) : Pressed client (.addCity screen)
  | addName (screen : Nat) (uid : Option String) : Pressed client (.addName screen uid)
  | editPrefill (screen : Nat) : Pressed client (.editPrefill screen)
  | editRead (screen : Nat) : Pressed client (.editRead screen)

/-- The writes a press issues: a map selection or a registered user. -/
inductive PressedWrite (platform : Platform) : Write → Prop
  | pin (title : String) (isPin : title ∈ platform.pins) :
      PressedWrite platform (.setData .cities "city" [("title", .value (.string title))])
  | user (user : User) : PressedWrite platform user.write

/-- What one step of a client can do. -/
inductive Stepped (platform : Platform) (cloud : Cloud) (client : Client) : Action → Client → Prop
  | quiet {action : Action} {after : Client} (quiet : Quiet client after) :
      Stepped platform cloud client action after
  | asks {action : Action} {after : Client} (callbacks : List Callback)
      (pressed : ∀ callback ∈ callbacks, Pressed client callback)
      (pending : after.pending = client.pending ++ callbacks.map (fun callback => ⟨callback, none⟩))
      (uploads : after.uploads = client.uploads) (outbox : after.outbox = client.outbox)
      (rows : after.postAmigo = client.postAmigo) (dates : after.dates = client.dates) :
      Stepped platform cloud client action after
  | issues {action : Action} (write : Write) (pressed : PressedWrite platform write) :
      Stepped platform cloud client action (client.enqueue write)
  | presses (screen : Nat) (idPost : String) :
      Stepped platform cloud client (.postBtn screen idPost)
        { client with uploads := client.uploads ++ [.newPost screen idPost] }
  | posts (index : Nat) (url placeText recText : String) (upload : Upload) (post : Post)
      (running : client.uploads[index]? = some upload) (saved : url ≠ "")
      (named : post.id = upload.document)
      (carried : post.postId = upload.document) (author : client.currentUser = some post.userId) :
      Stepped platform cloud client (.uploaded index url placeText recText)
        ({ client with uploads := client.uploads.eraseIdx index }.enqueue post.write)
  | receives {action : Action} (index : Nat) (callback : Callback) (answer : Answer)
      (waiting : client.pending[index]? = some ⟨callback, none⟩)
      (reply : answer = .failed ∨
        (action = .answer index ∧ answer = .snapshot (callback.read (client.localView cloud)))) :
      Stepped platform cloud client action
        { client with pending := client.pending.set index ⟨callback, some answer⟩ }
  | delivers (index : Nat) (callback : Callback) (answer : Answer) {after : Client}
      (ready : client.pending[index]? = some ⟨callback, some answer⟩)
      (delivered : Delivered platform { client with pending := client.pending.eraseIdx index }
        callback answer after) :
      Stepped platform cloud client (.deliver index) after
  | drains {action : Action} (write : Write) (rest : List Write)
      (kind : (∃ time, action = .commit time) ∨ action = .reject)
      (queued : client.outbox = write :: rest) :
      Stepped platform cloud client action (client.settle rest)

/-- The inversion of the end of an upload. -/
theorem Finishes.stepped (platform : Platform) (cloud : Cloud) {client after : Client} {index : Nat}
    {url : String} (placeText recText : String) {upload : Upload}
    (running : client.uploads[index]? = some upload)
    (finishes : Finishes url { client with uploads := client.uploads.eraseIdx index } upload after) :
    Stepped platform cloud client (.uploaded index url placeText recText) after := by
  have erased : Quiet client { client with uploads := client.uploads.eraseIdx index } :=
    ⟨List.Subset.refl _, List.eraseIdx_sublist _ _, rfl, List.Sublist.refl _, rfl⟩
  cases finishes with
  | silent => exact .quiet erased
  | unfilled | signedOut => exact .quiet (erased.trans (quiet_crash _ _))
  | posts post saved named carried author =>
    exact .posts index url placeText recText upload post running saved named carried author

/-- The inversion of a step. -/
theorem act_cases {platform : Platform} {cloud : Cloud} {client after : Client} {action : Action}
    (acted : client.act platform cloud action = some after) :
    Stepped platform cloud client action after := by
  cases act_acts acted with
  | getAllPosts =>
    refine .asks [.fetchPosts client.lastUpdateDate .merge] ?_ rfl rfl rfl rfl rfl
    simpa using Pressed.sync
  | selectPin title isPin => exact .issues _ (.pin title isPin)
  | confirmDelete post =>
    refine .asks [.confirmedDelete] ?_ rfl rfl rfl rfl rfl
    simpa using Pressed.confirmedDelete
  | didSelectRowAt post =>
    refine .quiet (Quiet.trans ?_ (reloadPost_reloads _).quiet)
    exact Quiet.of_same rfl rfl rfl rfl rfl
  | infoAppears => exact .quiet (reloadPost_reloads client).quiet
  | openAdd =>
    refine .asks [.addCity client.adds.length, .addName client.adds.length client.currentUser]
      ?_ (List.append_assoc ..) rfl rfl rfl rfl
    simpa using ⟨Pressed.addCity _, Pressed.addName _ _⟩
  | postBtn screen idPost => exact .presses screen idPost
  | openEdit =>
    refine .asks [.editPrefill client.edits.length] ?_ rfl rfl rfl rfl rfl
    simpa using Pressed.editPrefill _
  | podtEditButtom screen =>
    refine .asks [.editRead screen] ?_ rfl rfl rfl rfl rfl
    simpa using Pressed.editRead screen
  | addUser user => exact .issues _ (.user user)
  | signIn | signOut => exact .quiet (Quiet.of_same rfl rfl rfl rfl rfl)
  | uploaded index url placeText recText upload running =>
    exact (uploaded_finishes url placeText recText _ upload).stepped platform cloud placeText recText running
  | uploadFailed index =>
    exact .quiet ⟨List.Subset.refl _, List.eraseIdx_sublist _ _, rfl, List.Sublist.refl _, rfl⟩
  | answer index callback waiting =>
    exact .receives index callback _ waiting (Or.inr ⟨rfl, rfl⟩)
  | fail index callback waiting => exact .receives index callback _ waiting (Or.inl rfl)
  | deliver index callback answer ready =>
    exact .delivers index callback answer ready (answered_answers platform _ callback answer).delivered
  | commit time write rest queued => exact .drains write rest (Or.inl ⟨time, rfl⟩) queued
  | reject write rest queued => exact .drains write rest (Or.inr rfl) queued
  | relaunch =>
    exact .quiet ⟨List.nil_subset _, List.nil_sublist _, rfl, List.Sublist.refl _, rfl⟩

end Client

end Amigo
