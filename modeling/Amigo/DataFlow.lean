import Amigo.ClientSteps
import Amigo.World

/-!
# Where reads, uploads, writes and rows come from

Each law takes one item a client has after a step and says how it got there:
it was there before, or it was made from an item the client had before, from the
collections as the client showed them when a read was answered, or from the press that is the step. Snapshots
travel from an answer through the two closures of the posts fetch; rows come
from a snapshot being merged; post writes come from finished uploads; uploads
come from a press or from the read of an edit.
-/

namespace Amigo

/-- A document a read returns is in the collection it reads. -/
theorem mem_read {callback : Callback} {cloud : Cloud} {document : Document}
    (member : document ∈ callback.read cloud) : document ∈ cloud callback.collection := by
  cases callback with
  | fetchPosts since next => exact (mem_getDocumentsSince.mp member).1
  | _ => exact mem_getDocuments.mp member

/-- A read depends on its collection alone. -/
theorem read_congr (callback : Callback) {cloud other : Cloud}
    (same : cloud callback.collection = other callback.collection) :
    callback.read cloud = callback.read other := by
  cases callback with
  | fetchPosts since next => exact congrArg (getDocumentsSince since) same
  | _ => exact congrArg getDocuments same

namespace Client

/-- A collection the client has no write to queued is shown as the cloud has it. -/
theorem localView_other {cloud : Cloud} {client : Client} {collection : CollectionName}
    (others : ∀ write ∈ client.outbox, collection ≠ write.collection) :
    client.localView cloud collection = cloud collection := overlay_other others

/-- A document a client shows is in the cloud, or a queued write of its own sets it. -/
theorem mem_localView {cloud : Cloud} {client : Client} {collection : CollectionName}
    {document : Document} (shown : document ∈ client.localView cloud collection) :
    document ∈ cloud collection ∨ ∃ (index : Nat) (key : String) (json : Json),
      client.outbox[index]? = some (.setData collection key json) ∧
        document = ⟨key, resolve (.pending (client.settled + index)) json⟩ := mem_overlay shown

/-- What holds of the documents of a collection and of every queued one holds of all the
client shows. -/
theorem localView_forall {cloud : Cloud} {client : Client} {collection : CollectionName}
    {property : Document → Prop} (stored : ∀ document ∈ cloud collection, property document)
    (queued : ∀ key json, .setData collection key json ∈ client.outbox →
      ∀ stamp, property ⟨key, resolve stamp json⟩) :
    ∀ document ∈ client.localView cloud collection, property document := by
  intro document shown
  obtain older | ⟨index, key, json, isQueued, rfl⟩ := mem_localView shown
  · exact stored document older
  · exact queued key json (List.mem_of_getElem? isQueued) _

/-- The origin of a read a client has pending after a step. -/
inductive PendingOrigin (cloud : Cloud) (client : Client) (action : Action) : Pending → Prop
  | kept {pending : Pending} (before : pending ∈ client.pending) : PendingOrigin cloud client action pending
  | answered (index : Nat) (callback : Callback) (step : action = .answer index)
      (waiting : client.pending[index]? = some ⟨callback, none⟩) :
      PendingOrigin cloud client action ⟨callback, some (.snapshot (callback.read (client.localView cloud)))⟩
  | failed (callback : Callback) (before : ⟨callback, none⟩ ∈ client.pending) :
      PendingOrigin cloud client action ⟨callback, some .failed⟩
  | pressed (callback : Callback) (pressed : Pressed client callback) :
      PendingOrigin cloud client action ⟨callback, none⟩
  | filtering (since : Int) (next : AfterFetch) (documents : List Document)
      (before : ⟨.fetchPosts since next, some (.snapshot documents)⟩ ∈ client.pending) :
      PendingOrigin cloud client action ⟨.fetchCities documents next, none⟩
  | lookup (snapshot : List Document) (answer : Answer) (receiver : Post)
      (before : ⟨.fetchCities snapshot .merge, some answer⟩ ∈ client.pending) :
      PendingOrigin cloud client action ⟨.deleterLookup receiver, none⟩
  | refresh (snapshot : List Document) (answer : Answer)
      (before : ⟨.fetchCities snapshot .merge, some answer⟩ ∈ client.pending) :
      PendingOrigin cloud client action ⟨.refreshCity, none⟩
  | removal (documents : List Document) (document : Document) (postIds : String)
      (before : ⟨.confirmedDelete, some (.snapshot documents)⟩ ∈ client.pending)
      (member : document ∈ documents) (named : document.data.string "postId" = some postIds) :
      PendingOrigin cloud client action ⟨.fetchPosts client.lastUpdateDate (.delete postIds), none⟩

/-- What a merge leaves pending: what was, and perhaps the two lookups it starts. -/
theorem merge_pending {platform : Platform} {data : List Post} {client : Client} {pending : Pending}
    (member : pending ∈ (client.merge platform data).pending) :
    pending ∈ client.pending ∨ (∃ receiver, pending = ⟨.deleterLookup receiver, none⟩) ∨
      pending = ⟨.refreshCity, none⟩ := by
  obtain ⟨_, result⟩ | ⟨finalData, _, result⟩ := merge_form platform data client
  · rw [result] at member
    exact absurd member List.not_mem_nil
  · rw [result] at member
    obtain older | new := List.mem_append.mp member
    · exact Or.inl older
    · obtain ⟨callback, isRead, rfl⟩ := List.mem_map.mp new
      cases data with
      | nil => exact Or.inr (Or.inr (by simpa [mergeReads] using isRead))
      | cons post =>
        obtain rfl | rfl : callback = .deleterLookup post ∨ callback = .refreshCity := by
          simpa [mergeReads] using isRead
        · exact Or.inr (Or.inl ⟨post, rfl⟩)
        · exact Or.inr (Or.inr rfl)

/-- A merge starts no upload. -/
theorem merge_uploads {platform : Platform} {data : List Post} {client : Client} :
    (client.merge platform data).uploads.Sublist client.uploads := by
  obtain ⟨_, result⟩ | ⟨finalData, _, result⟩ := merge_form platform data client
  · exact result ▸ List.nil_sublist _
  · exact result ▸ List.Sublist.refl _

/-- What a merge leaves of the queue, the rows and the dates, trapped or not. -/
theorem merge_stored {platform : Platform} {data : List Post} {client : Client} :
    (client.merge platform data).outbox = client.outbox ∧
      (client.merge platform data).postAmigo = mergePosts data client.postAmigo ∧
      (client.merge platform data).dates = setLastUpdate "POSTAMIGO" 0 client.dates := by
  obtain ⟨_, result⟩ | ⟨finalData, _, result⟩ := merge_form platform data client
  · rw [result]
    exact ⟨rfl, rfl, rfl⟩
  · rw [result]
    exact ⟨rfl, rfl, rfl⟩

/-- A merge issues no write. -/
theorem merge_outbox {platform : Platform} {data : List Post} {client : Client} :
    (client.merge platform data).outbox = client.outbox := merge_stored.1

/-- The table after a merge. -/
theorem merge_rows {platform : Platform} {data : List Post} {client : Client} :
    (client.merge platform data).postAmigo = mergePosts data client.postAmigo := merge_stored.2.1

/-- The dates after a merge. -/
theorem merge_dates {platform : Platform} {data : List Post} {client : Client} :
    (client.merge platform data).dates = setLastUpdate "POSTAMIGO" 0 client.dates := merge_stored.2.2

/-- The merge loop is a list of stores. -/
theorem mergePosts_eq (data : List Post) (postAmigo : List Row) :
    mergePosts data postAmigo =
      KeyedRows.upsertAll samePrimaryKey postAmigo (data.map Post.row) := by
  simp only [mergePosts, KeyedRows.upsertAll, List.foldl_map]
  rfl

/-- Where a pending read after a step comes from. -/
theorem act_pending {platform : Platform} {cloud : Cloud} {client after : Client} {action : Action}
    (acted : client.act platform cloud action = some after) {pending : Pending}
    (member : pending ∈ after.pending) : PendingOrigin cloud client action pending := by
  cases act_cases acted with
  | quiet quiet => exact .kept (quiet.pending member)
  | asks callbacks pressed pendingAfter =>
    rw [pendingAfter, List.mem_append, List.mem_map] at member
    obtain before | ⟨callback, isPressed, rfl⟩ := member
    · exact .kept before
    · exact .pressed callback (pressed callback isPressed)
  | issues => exact .kept member
  | presses => exact .kept member
  | posts => exact .kept member
  | receives index callback answer waiting reply =>
    have before : ⟨callback, none⟩ ∈ client.pending := List.mem_of_getElem? waiting
    obtain old | rfl := List.mem_or_eq_of_mem_set member
    · exact .kept old
    · obtain rfl | ⟨isAnswer, rfl⟩ := reply
      · exact .failed callback before
      · exact .answered index callback isAnswer waiting
  | delivers index callback answer ready delivered =>
    have before : ⟨callback, some answer⟩ ∈ client.pending := List.mem_of_getElem? ready
    have older {other : Pending} (isOlder : other ∈ client.pending.eraseIdx index) :
        other ∈ client.pending := List.mem_of_mem_eraseIdx isOlder
    cases delivered with
    | quiet quiet => exact .kept (older (quiet.pending member))
    | fetched since next documents asked answered =>
      subst asked answered
      obtain old | new := List.mem_append.mp member
      · exact .kept (older old)
      · rw [List.mem_singleton.mp new]
        exact .filtering since next documents before
    | merged snapshot data asked matched =>
      subst asked
      obtain old | ⟨receiver, rfl⟩ | rfl := merge_pending member
      · exact .kept (older old)
      · exact .lookup snapshot answer receiver before
      · exact .refresh snapshot answer before
    | removed => exact .kept (older member)
    | announced documents document postIds asked answered inDocuments named =>
      subst asked answered
      obtain old | new := List.mem_append.mp member
      · exact .kept (older old)
      · rw [List.mem_singleton.mp new]
        exact .removal documents document postIds before inDocuments named
    | edited => exact .kept (older member)
  | drains => exact .kept member

/-- A row after a step was there, or is that of a document of the city in the snapshot
the step merged. -/
theorem act_stored {platform : Platform} {cloud : Cloud} {client after : Client} {action : Action}
    (acted : client.act platform cloud action = some after) {row : Row}
    (member : row ∈ after.postAmigo) :
    row ∈ client.postAmigo ∨ ∃ (index : Nat) (snapshot : List Document) (answer : Answer),
      action = .deliver index ∧
      client.pending[index]? = some ⟨.fetchCities snapshot .merge, some answer⟩ ∧
      ∃ document ∈ snapshot, ∃ post, Post.initJson document.data = some post ∧
        platform.isCity (client.cityRead answer) post.title = true ∧ row = post.row := by
  cases act_cases acted with
  | quiet quiet => exact Or.inl (quiet.rows.subset member)
  | asks _ _ _ _ _ rows => exact Or.inl (rows ▸ member)
  | issues => exact Or.inl member
  | presses => exact Or.inl member
  | posts => exact Or.inl member
  | receives => exact Or.inl member
  | delivers index callback answer ready delivered =>
    cases delivered with
    | quiet quiet => exact Or.inl (quiet.rows.subset member)
    | fetched => exact Or.inl member
    | merged snapshot data asked matched =>
      subst asked
      have sameCity : ({ client with pending := client.pending.eraseIdx index } :
          Client).cityRead answer = client.cityRead answer := by cases answer <;> rfl
      rw [merge_rows, mergePosts_eq] at member
      obtain stored | ⟨older, _⟩ := KeyedRows.mem_upsertAll_origin member
      · obtain ⟨post, isFetched, rfl⟩ := List.mem_map.mp stored
        obtain ⟨document, inSnapshot, decoded, titled⟩ := matchingPosts_origin matched isFetched
        exact Or.inr ⟨index, snapshot, answer, rfl, ready, document, inSnapshot, post, decoded,
          sameCity ▸ titled, rfl⟩
      · exact Or.inl older
    | removed => exact Or.inl ((deleteFromDb_sublist ..).subset member)
    | announced => exact Or.inl member
    | edited => exact Or.inl member
  | drains => exact Or.inl member

/-- A row after a step was there, or was decoded from a snapshot the step merged. -/
theorem act_rows {platform : Platform} {cloud : Cloud} {client after : Client} {action : Action}
    (acted : client.act platform cloud action = some after) {row : Row}
    (member : row ∈ after.postAmigo) :
    row ∈ client.postAmigo ∨ ∃ snapshot answer, ⟨.fetchCities snapshot .merge, some answer⟩ ∈ client.pending ∧
      ∃ document ∈ snapshot, ∃ post, Post.initJson document.data = some post ∧ row = post.row := by
  obtain older | ⟨_, snapshot, answer, _, ready, document, inSnapshot, post, decoded, _, isRow⟩ :=
    act_stored acted member
  · exact Or.inl older
  · exact Or.inr ⟨snapshot, answer, List.mem_of_getElem? ready, document, inSnapshot, post, decoded,
      isRow⟩

/-- The origin of a write a client has queued after a step. -/
inductive WriteOrigin (platform : Platform) (client : Client) (action : Action) : Write → Prop
  | kept {write : Write} (before : write ∈ client.outbox) : WriteOrigin platform client action write
  | pressed {write : Write} (pressed : PressedWrite platform write) : WriteOrigin platform client action write
  | posted (index : Nat) (url placeText recText : String) (upload : Upload) (post : Post)
      (finished : action = .uploaded index url placeText recText)
      (running : client.uploads[index]? = some upload) (saved : url ≠ "")
      (named : post.id = upload.document) (carried : post.postId = upload.document) :
      WriteOrigin platform client action post.write
  | announced (documents : List Document) (document : Document) (postIds : String)
      (before : ⟨.confirmedDelete, some (.snapshot documents)⟩ ∈ client.pending)
      (member : document ∈ documents) (named : document.data.string "postId" = some postIds) :
      WriteOrigin platform client action (.setData .deleter "Post" [("idPost", .value (.string postIds))])
  | removed (snapshot : List Document) (postIds : String) (answer : Answer) (document : Document)
      (before : ⟨.fetchCities snapshot (.delete postIds), some answer⟩ ∈ client.pending)
      (member : document ∈ snapshot) (named : document.data.string "postId" = some postIds) :
      WriteOrigin platform client action (.delete postIds)

/-- Where a queued write after a step comes from. -/
theorem act_outbox {platform : Platform} {cloud : Cloud} {client after : Client} {action : Action}
    (acted : client.act platform cloud action = some after) {write : Write}
    (member : write ∈ after.outbox) : WriteOrigin platform client action write := by
  cases act_cases acted with
  | quiet quiet => exact .kept (quiet.outbox ▸ member)
  | asks _ _ _ _ outbox => exact .kept (outbox ▸ member)
  | issues issued pressed =>
    obtain old | new := List.mem_append.mp member
    · exact .kept old
    · exact .pressed (List.mem_singleton.mp new ▸ pressed)
  | presses => exact .kept member
  | posts index url placeText recText upload post running saved named carried author =>
    obtain old | new := List.mem_append.mp member
    · exact .kept old
    · rw [List.mem_singleton.mp new]
      exact .posted index url placeText recText upload post rfl running saved named carried
  | receives => exact .kept member
  | delivers index callback answer ready delivered =>
    have before : ⟨callback, some answer⟩ ∈ client.pending := List.mem_of_getElem? ready
    cases delivered with
    | quiet quiet => exact .kept (quiet.outbox ▸ member)
    | fetched => exact .kept member
    | merged =>
      rw [merge_outbox] at member
      exact .kept member
    | removed snapshot postIds data asked matched post isFetched named =>
      subst asked
      obtain old | new := List.mem_append.mp member
      · exact .kept old
      · rw [List.mem_singleton.mp new]
        subst named
        obtain ⟨document, inSnapshot, decoded, _⟩ := matchingPosts_origin matched isFetched
        exact .removed snapshot post.postId answer document before inSnapshot
          (initJson_fields decoded).2.2
    | announced documents document postIds asked answered inDocuments named =>
      subst asked answered
      obtain old | new := List.mem_append.mp member
      · exact .kept old
      · rw [List.mem_singleton.mp new]
        exact .announced documents document postIds before inDocuments named
    | edited => exact .kept member
  | drains write rest kind queued => exact .kept (queued ▸ List.mem_cons_of_mem _ member)

/-- New writes have joined the queue behind those that were there. -/
def Lengthens (client after : Client) : Prop :=
  ∃ added, after.outbox = client.outbox ++ added ∧ after.settled = client.settled

/-- A step that touches no queue lengthens it by nothing. -/
theorem lengthens_nothing {client after : Client} (outbox : after.outbox = client.outbox)
    (settled : after.settled = client.settled) : Lengthens client after :=
  ⟨[], by rw [outbox, List.append_nil], settled⟩

/-- Opening a post issues nothing. -/
theorem Reloads.lengthens {client after : Client} (reloads : Reloads client after) : Lengthens client after := by
  cases reloads with
  | closed | signedOut | shown => exact lengthens_nothing rfl rfl

/-- The end of an upload issues its post or nothing. -/
theorem Finishes.lengthens {url : String} {client after : Client} {upload : Upload}
    (finishes : Finishes url client upload after) : Lengthens client after := by
  cases finishes with
  | silent | unfilled | signedOut => exact lengthens_nothing rfl rfl
  | posts post => exact ⟨[post.write], rfl, rfl⟩

/-- A delivered closure only adds to the queue. -/
theorem Answers.lengthens {platform : Platform} {client after : Client} {callback : Callback} {answer : Answer}
    (answers : Answers platform client callback answer after) : Lengthens client after := by
  cases answers with
  | refreshes loop =>
    obtain ⟨rows, city, adds, _, same | ⟨trap, same⟩⟩ :=
      touches_form (touches_answered platform loop answer client)
    · exact lengthens_nothing (by rw [same]) (by rw [same])
    · exact lengthens_nothing (by rw [same]; rfl) (by rw [same]; rfl)
  | merged snapshot data =>
    obtain ⟨_, result⟩ | ⟨finalData, _, result⟩ :=
      merge_form platform data { client with firebaseCity := client.cityRead answer }
    · exact lengthens_nothing (by rw [result]; rfl) (by rw [result]; rfl)
    · exact lengthens_nothing (by rw [result]; rfl) (by rw [result]; rfl)
  | removed | announced => exact ⟨[_], rfl, rfl⟩
  | silent | stops | fetched | uncast | missed | edited => exact lengthens_nothing rfl rfl

/-- A step lets the queue grow, or takes its head away. -/
inductive QueueMove (client after : Client) (action : Action) : Prop
  | grows (lengthens : Lengthens client after) (noCommit : ∀ time, action ≠ .commit time)
      (noReject : action ≠ .reject) : QueueMove client after action
  | drains (write : Write) (rest : List Write) (queued : client.outbox = write :: rest)
      (settles : (∃ time, action = .commit time) ∨ action = .reject)
      (settled : after = client.settle rest) : QueueMove client after action

/-- How one step moves the queue. -/
theorem act_queue {platform : Platform} {cloud : Cloud} {client after : Client} {action : Action}
    (acted : client.act platform cloud action = some after) : QueueMove client after action := by
  cases act_acts acted with
  | selectPin title isPin => exact .grows ⟨[_], rfl, rfl⟩ (by simp) (by simp)
  | addUser user => exact .grows ⟨[_], rfl, rfl⟩ (by simp) (by simp)
  | didSelectRowAt => exact .grows (reloadPost_reloads _).lengthens (by simp) (by simp)
  | infoAppears => exact .grows (reloadPost_reloads client).lengthens (by simp) (by simp)
  | uploaded index url placeText recText upload =>
    exact .grows (uploaded_finishes url placeText recText _ upload).lengthens (by simp) (by simp)
  | deliver index callback answer =>
    exact .grows (answered_answers platform _ callback answer).lengthens (by simp) (by simp)
  | commit time write rest queued => exact .drains write rest queued (Or.inl ⟨time, rfl⟩) rfl
  | reject write rest queued => exact .drains write rest queued (Or.inr rfl) rfl
  | _ => exact .grows (lengthens_nothing rfl rfl) (by simp) (by simp)

/-- A write leaves the queue only when the queue moves on, and then it was its
head. -/
theorem act_outbox_kept {platform : Platform} {cloud : Cloud} {client after : Client} {action : Action}
    (acted : client.act platform cloud action = some after) {write : Write}
    (member : write ∈ client.outbox) :
    write ∈ after.outbox ∨ (((∃ time, action = .commit time) ∨ action = .reject) ∧
      client.outbox.head? = some write) := by
  cases act_queue acted with
  | grows lengthens =>
    obtain ⟨added, outbox, _⟩ := lengthens
    exact Or.inl (outbox ▸ List.mem_append_left _ member)
  | drains head rest queued settles settled =>
    rw [queued] at member
    obtain rfl | later := List.mem_cons.mp member
    · exact Or.inr ⟨settles, by rw [queued]; rfl⟩
    · exact Or.inl (settled ▸ later)

/-- The origin of an upload a client has running after a step. -/
inductive UploadOrigin (client : Client) (action : Action) : Upload → Prop
  | kept {upload : Upload} (before : upload ∈ client.uploads) : UploadOrigin client action upload
  | pressed (screen : Nat) (idPost : String) (press : action = .postBtn screen idPost) :
      UploadOrigin client action (.newPost screen idPost)
  | edited (index screen : Nat) (view : EditScreen) (documents : List Document) (document : Document)
      (step : action = .deliver index)
      (ready : client.pending[index]? = some ⟨.editRead screen, some (.snapshot documents)⟩)
      (member : document ∈ documents) (shown : client.edits[screen]? = some view)
      (named : document.documentID = view.postEditID) :
      UploadOrigin client action (.edit screen document.documentID)

/-- Where an upload after a step comes from. -/
theorem act_uploads {platform : Platform} {cloud : Cloud} {client after : Client} {action : Action}
    (acted : client.act platform cloud action = some after) {upload : Upload}
    (member : upload ∈ after.uploads) : UploadOrigin client action upload := by
  cases act_cases acted with
  | quiet quiet => exact .kept (quiet.uploads.subset member)
  | asks _ _ _ uploads => exact .kept (uploads ▸ member)
  | issues => exact .kept member
  | presses screen idPost =>
    obtain old | new := List.mem_append.mp member
    · exact .kept old
    · rw [List.mem_singleton.mp new]
      exact .pressed screen idPost rfl
  | posts => exact .kept (List.mem_of_mem_eraseIdx member)
  | receives => exact .kept member
  | delivers index callback answer ready delivered =>
    cases delivered with
    | quiet quiet => exact .kept (quiet.uploads.subset member)
    | fetched => exact .kept member
    | merged =>
      have kept := merge_uploads.subset member
      exact .kept kept
    | removed => exact .kept member
    | announced => exact .kept member
    | edited screen view documents document title userName asked answered inDocuments shown named =>
      subst asked answered
      obtain old | new := List.mem_append.mp member
      · exact .kept old
      · rw [List.mem_singleton.mp new]
        exact .edited index screen view documents document rfl ready inDocuments shown named
  | drains => exact .kept member

end Client

end Amigo
