import Amigo.Identifiers
import Amigo.SelectedCities

/-!
# Posts and rows stay well formed

A document of the posts collection is well keyed when its key is its `id` and its
`postId` and it carries every string field the app casts by force. A row is well
keyed when PS_ID is POSTID and no column is NULL. Both are written from a post
whose two identifiers agree, and nothing on the way checks it: the law is an
invariant of the whole system, kept by every step of every client.

The invariant covers the documents in the cloud, those held by reads in flight,
the writes in the queues and the local rows. Its consequences are that no forced
cast of a post field and no unwrap of a text column traps, and that a row is
addressed alike by both of its keys. Every key on the way also came from the
identifier generator, so it is a plain string for SQLite.
-/

namespace Amigo

/-- The key is both identifiers, and every field that is cast is there. -/
structure WellKeyed (document : Document) : Prop where
  id : document.data.string "id" = some document.documentID
  postId : document.data.string "postId" = some document.documentID
  fields : ∀ name ∈ postFields, (document.data.string name).isSome = true

/-- Both key columns agree and every column is there. -/
structure Row.WellKeyed (row : Row) : Prop where
  keys : row.psId = row.postId
  complete : row.Complete

/-- A post carries one identifier twice. -/
def Post.Keyed (post : Post) : Prop := post.postId = post.id

/-- What a keyed post's write stores is well keyed. -/
theorem Post.Keyed.document {post : Post} (keyed : post.Keyed) (stamp : Stamp) :
    WellKeyed ⟨post.id, resolve stamp post.toJson⟩ := by
  refine ⟨?_, ?_, ?_⟩
  · simp [resolve_string, Post.toJson]
  · have same : post.postId = post.id := keyed
    simp [resolve_string, Post.toJson, List.lookup_cons, same]
  · rw [← initJson_isSome_iff, initJson_resolve_toJson]
    rfl

/-- A well keyed document decodes. -/
theorem WellKeyed.decodes {document : Document} (keyed : WellKeyed document) :
    ∃ post, Post.initJson document.data = some post ∧ post.id = document.documentID ∧
      post.Keyed := by
  obtain ⟨post, decoded⟩ :=
    Option.isSome_iff_exists.mp ((initJson_isSome_iff document.data).mpr keyed.fields)
  obtain ⟨hasId, _, hasPostId⟩ := initJson_fields decoded
  have id : post.id = document.documentID := Option.some.inj (hasId.symm.trans keyed.id)
  have postId : post.postId = document.documentID :=
    Option.some.inj (hasPostId.symm.trans keyed.postId)
  exact ⟨post, decoded, id, postId.trans id.symm⟩

/-- A keyed post's row is well keyed. -/
theorem Post.Keyed.row {post : Post} (keyed : post.Keyed) : post.row.WellKeyed :=
  ⟨by simp [Post.row, show post.postId = post.id from keyed], row_complete post⟩

/-- The documents of the posts collection a pending read holds. -/
def Pending.posts (pending : Pending) : List Document :=
  match pending.callback, pending.answer with
  | .fetchCities snapshot _, _ => snapshot
  | callback, some (.snapshot documents) => if callback.collection = .posts then documents else []
  | _, _ => []

/-- The documents of a posts collection, or of a snapshot of one: well keyed under
known keys, no key twice. -/
structure WellKeyedPosts (known : String → Prop) (documents : List Document) : Prop where
  keyed : ∀ document ∈ documents, WellKeyed document
  known : ∀ document ∈ documents, known document.documentID
  separate : KeyedRows.Separate sameDocument documents

/-- No documents are well keyed. -/
theorem WellKeyedPosts.nil (known : String → Prop) : WellKeyedPosts known [] :=
  ⟨fun _ member => absurd member List.not_mem_nil, fun _ member => absurd member List.not_mem_nil,
    List.Pairwise.nil⟩

/-- With more identifiers known they still are. -/
theorem WellKeyedPosts.mono {known later : String → Prop} {documents : List Document}
    (grows : ∀ id, known id → later id) (posts : WellKeyedPosts known documents) :
    WellKeyedPosts later documents :=
  ⟨posts.keyed, fun document member => grows _ (posts.known document member), posts.separate⟩

/-- Clashing of documents is symmetric. -/
theorem sameDocument_symmetric (first second : Document) (same : sameDocument first second) :
    sameDocument second first := Eq.symm same

/-- What a read of the posts collection answers with is well keyed. -/
theorem WellKeyedPosts.read {known : String → Prop} {callback : Callback} {cloud : Cloud}
    (posts : WellKeyedPosts known (cloud .posts)) (reads : callback.collection = .posts) :
    WellKeyedPosts known (callback.read cloud) := by
  have apart {first second : Document} (distinct : ¬ sameDocument first second) :
      ¬ sameDocument second first := fun same => distinct (sameDocument_symmetric _ _ same)
  have plain : WellKeyedPosts known (getDocuments (cloud .posts)) :=
    ⟨fun document member => posts.keyed document (mem_getDocuments.mp member),
      fun document member => posts.known document (mem_getDocuments.mp member),
      ((List.perm_insertionSort _ _).pairwise_iff apart).mpr posts.separate⟩
  cases callback with
  | fetchPosts since next =>
    refine ⟨fun document member => posts.keyed document (mem_getDocumentsSince.mp member).1,
      fun document member => posts.known document (mem_getDocumentsSince.mp member).1, ?_⟩
    exact ((List.perm_insertionSort _ _).pairwise_iff apart).mpr (posts.separate.filter _)
  | confirmedDelete => exact plain
  | editPrefill screen => exact plain
  | editRead screen => exact plain
  | _ => simp [Callback.collection] at reads

/-- The post documents a read holds after a step are none, or those of a read
before it, or what was just read. -/
theorem act_posts {platform : Platform} {cloud : Cloud} {client after : Client} {action : Action}
    (acted : client.act platform cloud action = some after) {pending : Pending}
    (member : pending ∈ after.pending) :
    pending.posts = [] ∨ (∃ older ∈ client.pending, pending.posts = older.posts) ∨
      ∃ callback : Callback, callback.collection = .posts ∧
        pending.posts = callback.read (client.localView cloud) := by
  cases Client.act_pending acted member with
  | kept before => exact Or.inr (Or.inl ⟨pending, before, rfl⟩)
  | answered index callback step waiting =>
    cases callback with
    | fetchCities snapshot next => exact Or.inr (Or.inl ⟨_, List.mem_of_getElem? waiting, rfl⟩)
    | fetchPosts since next => exact Or.inr (Or.inr ⟨.fetchPosts since next, rfl, rfl⟩)
    | confirmedDelete => exact Or.inr (Or.inr ⟨.confirmedDelete, rfl, rfl⟩)
    | editPrefill screen => exact Or.inr (Or.inr ⟨.editPrefill screen, rfl, rfl⟩)
    | editRead screen => exact Or.inr (Or.inr ⟨.editRead screen, rfl, rfl⟩)
    | _ => exact Or.inl rfl
  | failed callback before =>
    cases callback with
    | fetchCities snapshot next => exact Or.inr (Or.inl ⟨_, before, rfl⟩)
    | _ => exact Or.inl rfl
  | pressed callback pressed => cases pressed <;> exact Or.inl rfl
  | filtering since next documents before => exact Or.inr (Or.inl ⟨_, before, rfl⟩)
  | lookup => exact Or.inl rfl
  | refresh => exact Or.inl rfl
  | removal => exact Or.inl rfl

/-- What holds of every post document the client shows and of those in its reads before
a step holds of those in the reads after it. -/
theorem act_posts_forall {platform : Platform} {cloud : Cloud} {client after : Client} {action : Action}
    {property : Document → Prop} (acted : client.act platform cloud action = some after)
    (held : ∀ pending ∈ client.pending, ∀ document ∈ pending.posts, property document)
    (shown : ∀ document ∈ client.localView cloud .posts, property document) :
    ∀ pending ∈ after.pending, ∀ document ∈ pending.posts, property document := by
  intro pending member document inPosts
  obtain nothing | ⟨older, before, same⟩ | ⟨callback, reads, same⟩ := act_posts acted member
  · rw [nothing] at inPosts
    exact absurd inPosts List.not_mem_nil
  · exact held older before document (same ▸ inPosts)
  · exact shown document (reads ▸ mem_read (same ▸ inPosts))

namespace Client

/-- The step traps on no post field and on no NULL. -/
def Unharmed (before after : Client) : Prop :=
  ∀ trap, after.trap = some trap →
    before.trap = some trap ∨ (trap ≠ .postField ∧ trap ≠ .nullColumn)

/-- What keeps the trap does no harm. -/
theorem Unharmed.of_same {before after : Client} (same : after.trap = before.trap) :
    Unharmed before after := fun _ trapped => Or.inl (same ▸ trapped)

/-- Nor do two harmless changes. -/
theorem Unharmed.trans {first second third : Client} (before : Unharmed first second)
    (after : Unharmed second third) : Unharmed first third := by
  intro trap trapped
  obtain earlier | harmless := after trap trapped
  · exact before trap earlier
  · exact Or.inr harmless

/-- Other traps do no harm of these kinds. -/
theorem unharmed_crash {trap : Trap} (client : Client) (field : trap ≠ .postField)
    (column : trap ≠ .nullColumn) : Unharmed client (client.crash trap) := by
  intro other trapped
  cases Option.some.inj trapped
  exact Or.inr ⟨field, column⟩

instance : Std.Refl Unharmed := ⟨fun _ => .of_same rfl⟩

instance : IsTrans Client Unharmed := ⟨fun _ _ _ => Unharmed.trans⟩

/-- The loops that only bring fields up to date do no harm. -/
theorem unharmed_touches : Relation.ReflTransGen Touch ≤ Unharmed := by
  apply Relation.reflTransGen_le_of_le
  intro before after touch
  cases touch with
  | drops | refreshes | fills => exact .of_same rfl
  | stops trap field =>
    apply unharmed_crash
    · obtain rfl | rfl | rfl := field <;> decide
    · obtain rfl | rfl | rfl := field <;> decide

/-- A found document is one of the list. -/
theorem find_named {documents : List Document} {key : String} {document : Document}
    (found : documents.find? (fun candidate => candidate.documentID == key) = some document) :
    document ∈ documents := List.mem_of_find?_eq_some found

/-- On well keyed documents the edit screen's casts succeed. -/
theorem unharmed_editPrefilled (screen : Nat) {documents : List Document} (client : Client)
    (keyed : ∀ document ∈ documents, WellKeyed document) :
    Unharmed client (editPrefilled screen documents client) := by
  unfold editPrefilled
  split
  · exact .of_same rfl
  · split
    · exact .of_same rfl
    · rename_i document found
      have fields := (keyed document (find_named found)).fields
      simp only [fields "placeLocation" (by decide), fields "recText" (by decide),
        fields "placeImage" (by decide), Bool.and_self, ↓reduceIte]
      exact .of_same rfl

/-- So do those of the edited document. -/
theorem unharmed_editRead (screen : Nat) {documents : List Document} (client : Client)
    (keyed : ∀ document ∈ documents, WellKeyed document) :
    Unharmed client (editRead screen documents client) := by
  unfold editRead
  split
  · exact .of_same rfl
  · split
    · exact .of_same rfl
    · rename_i document found
      have fields := (keyed document (find_named found)).fields
      split
      · exact .of_same rfl
      · rename_i absent
        obtain ⟨title, hasTitle⟩ := Option.isSome_iff_exists.mp (fields "title" (by decide))
        obtain ⟨name, hasName⟩ := Option.isSome_iff_exists.mp (fields "userName" (by decide))
        exact absurd hasName (absent title name hasTitle)

/-- So do those of the confirmed delete. -/
theorem unharmed_deleteConfirmed {documents : List Document} (client : Client)
    (keyed : ∀ document ∈ documents, WellKeyed document) :
    Unharmed client (deleteConfirmed documents client) := by
  induction documents with
  | nil => exact .of_same rfl
  | cons document rest inductionHypothesis =>
    rw [deleteConfirmed]
    simp only [(keyed document List.mem_cons_self).postId]
    split
    · exact .of_same rfl
    · exact inductionHypothesis (fun other member => keyed other (List.mem_cons_of_mem _ member))

/-- The filter never traps on well keyed documents. -/
theorem matchingPosts_isSome (platform : Platform) (city : Option String) {snapshot : List Document}
    (keyed : ∀ document ∈ snapshot, WellKeyed document) :
    ∃ data, matchingPosts platform city snapshot = some data := by
  induction snapshot with
  | nil => exact ⟨[], rfl⟩
  | cons document rest inductionHypothesis =>
    obtain ⟨others, hasOthers⟩ :=
      inductionHypothesis (fun other member => keyed other (List.mem_cons_of_mem _ member))
    have wellKeyed := keyed document List.mem_cons_self
    obtain ⟨title, hasTitle⟩ := Option.isSome_iff_exists.mp (wellKeyed.fields "title" (by decide))
    obtain ⟨post, decoded, _⟩ := wellKeyed.decodes
    simp only [matchingPosts, hasTitle, Option.bind_some, decoded, hasOthers, Option.map_some]
    split
    · exact ⟨_, rfl⟩
    · exact ⟨others, rfl⟩

/-- A merge that leaves only complete rows hands over the list it reads. -/
theorem merge_complete (platform : Platform) (client : Client) {data : List Post}
    (plain : PlainText client.postCity)
    (complete : ∀ row ∈ mergePosts data client.postAmigo, row.Complete) :
    ∃ finalData,
      getAllPostsFromDb platform client.postCity (mergePosts data client.postAmigo) = some finalData ∧
      client.merge platform data =
        { client.merging data with delivered := client.delivered ++ [finalData] } := by
  have readable : (getAllPostsFromDb platform client.postCity
      (mergePosts data client.postAmigo)).isSome = true := by
    rw [getAllPostsFromDb, selectedRows_plain platform plain, readRows_isSome_iff]
    exact fun row member => complete row (List.mem_filter.mp member).1
  obtain ⟨unread, _⟩ | handed := merge_form platform data client
  · simp [unread] at readable
  · exact handed

/-- A merge that leaves only complete rows does not trap. -/
theorem merge_trap (platform : Platform) {data : List Post} {client : Client}
    (plain : PlainText client.postCity)
    (complete : ∀ row ∈ mergePosts data client.postAmigo, row.Complete) :
    (client.merge platform data).trap = client.trap := by
  obtain ⟨finalData, _, result⟩ := merge_complete platform client plain complete
  rw [result]
  rfl

/-- The rows of a merge are well keyed when the old ones are and the snapshot is. -/
theorem mergePosts_wellKeyed {platform : Platform} {city : Option String}
    {snapshot : List Document} {data : List Post} {postAmigo : List Row}
    (keyed : ∀ document ∈ snapshot, WellKeyed document)
    (matched : matchingPosts platform city snapshot = some data)
    (rows : ∀ row ∈ postAmigo, row.WellKeyed) : ∀ row ∈ mergePosts data postAmigo, row.WellKeyed := by
  intro row member
  rw [mergePosts_eq] at member
  obtain stored | ⟨older, _⟩ := KeyedRows.mem_upsertAll_origin member
  · obtain ⟨post, isFetched, rfl⟩ := List.mem_map.mp stored
    obtain ⟨document, inSnapshot, decoded, _⟩ := matchingPosts_origin matched isFetched
    obtain ⟨other, isOther, _, isKeyed⟩ := (keyed document inSnapshot).decodes
    cases Option.some.inj (decoded.symm.trans isOther)
    exact isKeyed.row
  · exact rows row older

/-- The second closure of a fetch does not trap on well keyed documents and rows. -/
theorem citiesAnswered_trap (platform : Platform) {snapshot : List Document} (next : AfterFetch)
    (answer : Answer) {client : Client} (plain : PlainText client.postCity)
    (keyed : ∀ document ∈ snapshot, WellKeyed document)
    (rows : ∀ row ∈ client.postAmigo, row.WellKeyed) :
    (client.citiesAnswered platform snapshot next answer).trap = client.trap := by
  obtain ⟨data, matched⟩ := matchingPosts_isSome platform (client.cityRead answer) keyed
  simp only [citiesAnswered, matched]
  cases next with
  | merge =>
    apply merge_trap platform
    · exact plain
    · exact fun row member => (mergePosts_wellKeyed keyed matched rows row member).complete
  | delete postIds =>
    simp only [afterFetch, removePost]
    split <;> rfl

/-- What holds of one client in every reachable world, for the keys known so far. -/
structure Sound (known : String → Prop) (client : Client) : Prop where
  held : ∀ pending ∈ client.pending, WellKeyedPosts known pending.posts
  editing : ∀ screen docId, .edit screen docId ∈ client.uploads → known docId
  queued : ∀ document json, .setData .posts document json ∈ client.outbox →
    ∃ post : Post, post.Keyed ∧ known post.id ∧ document = post.id ∧ json = post.toJson
  rows : ∀ row ∈ client.postAmigo, row.WellKeyed
  named : ∀ row ∈ client.postAmigo, ∃ id, known id ∧ row.psId = some (cString id)
  separate : KeyedRows.Separate samePrimaryKey client.postAmigo

/-- Learning keys keeps a client sound. -/
theorem Sound.mono {known later : String → Prop} {client : Client}
    (grows : ∀ id, known id → later id) (sound : client.Sound known) : client.Sound later where
  held := fun pending member => (sound.held pending member).mono grows
  editing := fun screen docId member => grows _ (sound.editing screen docId member)
  queued := by
    intro document json member
    obtain ⟨post, keyed, isKnown, facts⟩ := sound.queued document json member
    exact ⟨post, keyed, grows _ isKnown, facts⟩
  rows := sound.rows
  named := by
    intro row member
    obtain ⟨id, isKnown, named⟩ := sound.named row member
    exact ⟨id, grows _ isKnown, named⟩
  separate := sound.separate

/-- A closure that only prints an error does no harm on it. -/
theorem unharmed_onSnapshot {run : List Document → Client → Client} {answer : Answer}
    {client : Client}
    (unharmed : ∀ documents, answer = .snapshot documents → Unharmed client (run documents client)) :
    Unharmed client (client.onSnapshot answer run) := by
  cases answer with
  | failed => exact .of_same rfl
  | snapshot documents => exact unharmed documents rfl

/-- Delivering a callback with well keyed documents into well keyed rows traps on
no post field and on no NULL. -/
theorem unharmed_answered (platform : Platform) {client : Client} {callback : Callback} {answer : Answer}
    (plain : PlainText client.postCity)
    (posts : ∀ document ∈ (Pending.mk callback (some answer)).posts, WellKeyed document)
    (rows : ∀ row ∈ client.postAmigo, row.WellKeyed) :
    Unharmed client (client.answered platform callback answer) := by
  cases callback with
  | fetchPosts since next =>
    cases answer with
    | failed => exact unharmed_crash client (by decide) (by decide)
    | snapshot documents => exact .of_same rfl
  | fetchCities snapshot next =>
    have keyed : ∀ document ∈ snapshot, WellKeyed document := posts
    exact .of_same (citiesAnswered_trap platform next answer plain keyed rows)
  | deleterLookup | refreshCity | addCity | addName =>
    exact unharmed_touches _ _ (touches_answered platform (by simp) answer client)
  | confirmedDelete =>
    refine unharmed_onSnapshot (fun documents isAnswer => ?_)
    subst isAnswer
    exact unharmed_deleteConfirmed client posts
  | editPrefill screen =>
    refine unharmed_onSnapshot (fun documents isAnswer => ?_)
    subst isAnswer
    exact unharmed_editPrefilled screen client posts
  | editRead screen =>
    refine unharmed_onSnapshot (fun documents isAnswer => ?_)
    subst isAnswer
    exact unharmed_editRead screen client posts

/-- Opening a post does no harm. -/
theorem Reloads.unharmed {client after : Client} (reloads : Reloads client after) :
    Unharmed client after := by
  cases reloads with
  | closed => exact unharmed_crash client (by decide) (by decide)
  | signedOut info =>
    refine Unharmed.trans ?_ (unharmed_crash (client.reloaded info) (by decide) (by decide))
    exact .of_same rfl
  | shown => exact .of_same rfl

/-- Nor does the end of an upload. -/
theorem Finishes.unharmed {url : String} {client after : Client} {upload : Upload}
    (finishes : Finishes url client upload after) : Unharmed client after := by
  cases finishes with
  | silent | posts => exact .of_same rfl
  | signedOut => exact unharmed_crash client (by decide) (by decide)
  | unfilled trap field =>
    apply unharmed_crash
    · obtain rfl | rfl := field <;> decide
    · obtain rfl | rfl := field <;> decide

/-- A step keeps the primary keys of the rows apart. -/
theorem act_separate {platform : Platform} {cloud : Cloud} {client after : Client} {action : Action}
    (acted : client.act platform cloud action = some after)
    (separate : KeyedRows.Separate samePrimaryKey client.postAmigo) :
    KeyedRows.Separate samePrimaryKey after.postAmigo := by
  cases act_cases acted with
  | quiet quiet => exact separate.sublist quiet.rows
  | asks _ _ _ _ _ rows => exact rows ▸ separate
  | issues | presses | posts | receives | drains => exact separate
  | delivers index callback answer ready delivered =>
    cases delivered with
    | quiet quiet => exact separate.sublist quiet.rows
    | merged =>
      rw [merge_rows, mergePosts_eq]
      exact KeyedRows.upsertAll_separate separate
    | removed => exact separate.sublist (deleteFromDb_sublist ..)
    | fetched | announced | edited => exact separate

/-- A step of a sound client traps on no post field and on no NULL. -/
theorem Sound.unharmed {platform : Platform} {cloud : Cloud} {client after : Client} {action : Action}
    {known : String → Prop} (sound : client.Sound known) (plain : PlainText client.postCity)
    (running : ∀ trap, client.trap = some trap → trap ≠ .postField ∧ trap ≠ .nullColumn)
    (acted : client.act platform cloud action = some after) :
    ∀ trap, after.trap = some trap → trap ≠ .postField ∧ trap ≠ .nullColumn := by
  have harmless (unharmed : Unharmed client after) :
      ∀ trap, after.trap = some trap → trap ≠ .postField ∧ trap ≠ .nullColumn := by
    intro trap trapped
    obtain earlier | facts := unharmed trap trapped
    · exact running trap earlier
    · exact facts
  cases act_acts acted with
  | relaunch =>
    intro trap trapped
    simp [relaunch] at trapped
  | uploaded index url placeText recText upload =>
    refine harmless (Unharmed.trans ?_ (uploaded_finishes url placeText recText _ upload).unharmed)
    exact .of_same rfl
  | deliver index callback answer ready =>
    have before : ⟨callback, some answer⟩ ∈ client.pending := List.mem_of_getElem? ready
    refine harmless (Unharmed.trans ?_
      (unharmed_answered platform plain (sound.held _ before).keyed sound.rows))
    exact .of_same rfl
  | infoAppears => exact harmless (reloadPost_reloads client).unharmed
  | didSelectRowAt post =>
    refine harmless (Unharmed.trans ?_ (reloadPost_reloads _).unharmed)
    exact .of_same rfl
  | _ => exact harmless (.of_same rfl)

/-- A sound client shows well keyed posts over a well keyed cloud. -/
theorem Sound.shown {cloud : Cloud} {client : Client} {known : String → Prop}
    (sound : client.Sound known) (posts : WellKeyedPosts known (cloud .posts)) :
    WellKeyedPosts known (client.localView cloud .posts) where
  keyed := by
    refine localView_forall posts.keyed (fun key json queued stamp => ?_)
    obtain ⟨post, keyed, _, rfl, rfl⟩ := sound.queued key json queued
    exact Post.Keyed.document keyed stamp
  known := by
    refine localView_forall posts.known (fun key json queued stamp => ?_)
    obtain ⟨post, _, isKnown, rfl, rfl⟩ := sound.queued key json queued
    exact isKnown
  separate := overlay_separate posts.separate

/-- A step of a client that reads a well keyed cloud keeps it sound, when the
identifier of a new post it finishes to upload is among the known keys. -/
theorem Sound.act {platform : Platform} {cloud : Cloud} {client after : Client} {action : Action}
    {known : String → Prop} (sound : client.Sound known) (posts : WellKeyedPosts known (cloud .posts))
    (publishes : ∀ index url placeText recText screen idPost,
      action = .uploaded index url placeText recText →
      client.uploads[index]? = some (.newPost screen idPost) → known idPost)
    (acted : client.act platform cloud action = some after) : after.Sound known where
  held := by
    intro pending member
    obtain none | ⟨older, before, same⟩ | ⟨callback, reads, same⟩ := act_posts acted member
    · exact none ▸ WellKeyedPosts.nil known
    · exact same ▸ sound.held older before
    · exact same ▸ (sound.shown posts).read reads
  editing := by
    intro screen docId member
    generalize isUpload : Upload.edit screen docId = upload at member
    cases act_uploads acted member with
    | kept before => exact sound.editing screen docId (isUpload ▸ before)
    | pressed => simp at isUpload
    | edited index other view documents document step ready inDocuments =>
      cases isUpload
      have before := List.mem_of_getElem? ready
      exact (sound.held _ before).known document inDocuments
  queued := by
    intro document json member
    generalize isWrite : Write.setData .posts document json = write at member
    cases act_outbox acted member with
    | kept before => exact sound.queued document json (isWrite ▸ before)
    | pressed pressed => cases pressed <;> simp [User.write] at isWrite
    | posted index url placeText recText upload post finished running saved named carried =>
      simp only [Post.write, Write.setData.injEq, true_and] at isWrite
      have isKnown : known upload.document := by
        cases upload with
        | newPost screen idPost => exact publishes index _ _ _ screen idPost finished running
        | edit screen docId => exact sound.editing screen docId (List.mem_of_getElem? running)
      rw [← named] at isKnown
      exact ⟨post, carried.trans named.symm, isKnown, isWrite.1, isWrite.2⟩
    | announced => simp at isWrite
    | removed => simp at isWrite
  rows := by
    intro row member
    rcases act_rows acted member with older |
      ⟨snapshot, answer, before, document, inSnapshot, post, decoded, rfl⟩
    · exact sound.rows row older
    · obtain ⟨other, isOther, _, keyed⟩ :=
        ((sound.held _ before).keyed document inSnapshot).decodes
      cases Option.some.inj (decoded.symm.trans isOther)
      exact keyed.row
  named := by
    intro row member
    rcases act_rows acted member with older |
      ⟨snapshot, answer, before, document, inSnapshot, post, decoded, rfl⟩
    · exact sound.named row older
    · have carries := (sound.held _ before).keyed document inSnapshot
      have same : post.id = document.documentID :=
        Option.some.inj ((initJson_fields decoded).1.symm.trans carries.id)
      exact ⟨post.id, same ▸ (sound.held _ before).known document inSnapshot, rfl⟩
  separate := act_separate acted sound.separate

end Client

/-- A generated identifier has letters and digits only. -/
theorem generated_alphanumeric {id : String} (isGenerated : generated id = true) :
    ∀ letter ∈ id.toList, letter.isAlphanum = true := by
  simp only [generated, Bool.and_eq_true, List.all_eq_true] at isGenerated
  exact isGenerated.2

/-- A generated identifier leaves a spliced statement one closed literal. -/
theorem generated_plain {id : String} (isGenerated : generated id = true) :
    ∀ letter ∈ id.toList, letter ≠ quote ∧ letter ≠ nul := by
  intro letter member
  have alphanumeric := generated_alphanumeric isGenerated letter member
  constructor
  · rintro rfl
    exact absurd alphanumeric (by decide)
  · rintro rfl
    exact absurd alphanumeric (by decide)

/-- A generated identifier is bound whole. -/
theorem cString_generated {id : String} (isGenerated : generated id = true) : cString id = id :=
  cString_clean (fun member => (generated_plain isGenerated nul member).2 rfl)

/-- The post of a well keyed document has the document's key, and so has its row. -/
theorem WellKeyedPosts.row_key {known : String → Prop} {documents : List Document}
    (posts : WellKeyedPosts known documents) (plain : ∀ id, known id → generated id = true)
    {document : Document} {post : Post} (member : document ∈ documents)
    (decoded : Post.initJson document.data = some post) :
    post.id = document.documentID ∧ post.row.psId = some document.documentID := by
  have same : post.id = document.documentID := Option.some.inj
    ((initJson_fields decoded).1.symm.trans (posts.keyed document member).id)
  have whole : cString post.id = post.id :=
    cString_generated (same ▸ plain _ (posts.known document member))
  exact ⟨same, by rw [← same]; exact congrArg some whole⟩

namespace World

variable {ι : Type*}

/-- The invariant of every reachable world. -/
structure Sound (world : World ι) : Prop where
  issued : ∀ id ∈ world.issued, generated id = true
  distinct : world.Distinct
  posts : WellKeyedPosts world.Published (world.cloud .posts)
  clients : ∀ client, (world.clients client).Sound world.Published

/-- Published keys are generated. -/
theorem Sound.plain {world : World ι} (sound : world.Sound) (id : String)
    (published : world.Published id) : generated id = true := sound.issued id published.1

/-- At the start nothing is stored. -/
theorem sound_init : (init ι).Sound where
  issued := by simp [init]
  distinct := distinct_init
  posts := WellKeyedPosts.nil _
  clients := by
    intro client
    constructor <;> simp [init, KeyedRows.Separate]

/-- Committing a queued write of a sound client keeps the posts well keyed. -/
theorem Sound.commit {known : String → Prop} {client : Client} {cloud : Cloud} {write : Write}
    (sound : client.Sound known) (posts : WellKeyedPosts known (cloud .posts))
    (queued : write ∈ client.outbox) (time : Timestamp) :
    WellKeyedPosts known (write.commit time cloud .posts) where
  keyed := by
    intro document member
    obtain older | ⟨key, json, rfl, rfl⟩ := mem_commit member
    · exact posts.keyed document older
    · obtain ⟨post, keyed, _, rfl, rfl⟩ := sound.queued key json queued
      exact keyed.document (.committed time)
  known := by
    intro document member
    obtain older | ⟨key, json, rfl, rfl⟩ := mem_commit member
    · exact posts.known document older
    · obtain ⟨post, _, isKnown, rfl, rfl⟩ := sound.queued key json queued
      exact isKnown
  separate := commit_separate write time posts.separate

variable [DecidableEq ι]

/-- One step of any client keeps the invariant. -/
theorem Sound.step {platform : Platform} {world next : World ι} {event : Event ι} (sound : world.Sound)
    (stepped : world.step platform event = some next) : next.Sound := by
  obtain ⟨isFresh, changed, acted, cloud, clients, issued⟩ := step_inv stepped
  have grows : ∀ id, world.Published id → next.Published id := fun _ published => published.step stepped
  refine ⟨?_, sound.distinct.step stepped, ?_, ?_⟩
  · intro id member
    rw [issued, List.mem_append, Option.mem_toList] at member
    obtain isNew | older := member
    · simp only [fresh, isNew, Bool.and_eq_true] at isFresh
      exact isFresh.1
    · exact sound.issued id older
  · rw [cloud]
    obtain same | ⟨time, write, rest, _, queued, committed⟩ := world.cloudAfter_cases event
    · rw [same]
      exact sound.posts.mono grows
    · rw [committed]
      refine WellKeyedPosts.mono grows (Sound.commit (sound.clients event.1) sound.posts ?_ time)
      rw [queued]
      exact List.mem_cons_self
  · intro client
    obtain same | ⟨rfl, acted⟩ := client_after stepped client
    · exact same ▸ (sound.clients client).mono grows
    · apply ((sound.clients _).mono grows).act (sound.posts.mono grows) ?_ acted
      intro index url placeText recText screen idPost finished running
      have isEvent : event = (event.1, .uploaded index url placeText recText) := by rw [← finished]
      exact finished_published sound.distinct (isEvent ▸ stepped) running

/-- Every reachable world is sound. -/
theorem Reachable.sound {platform : Platform} {world : World ι} (reachable : world.Reachable platform) :
    world.Sound := by
  exact reachable.invariant Sound sound_init (fun _ _ _ sound stepped => sound.step stepped)

/-- No app of a reachable world stopped at a post field or at a NULL. -/
theorem Reachable.running {platform : Platform} {world : World ι}
    (reachable : world.Reachable platform) (client : ι) :
    ∀ trap, (world.clients client).trap = some trap → trap ≠ .postField ∧ trap ≠ .nullColumn := by
  have kept := reachable.invariant
    (fun world => world.Sound ∧ world.Pinned platform ∧ ∀ client trap,
      (world.clients client).trap = some trap → trap ≠ .postField ∧ trap ≠ .nullColumn)
    ⟨sound_init, pinned_init platform, by simp [init]⟩ ?_
  · exact kept.2.2 client
  · rintro before event next ⟨sound, pinned, running⟩ stepped
    refine ⟨sound.step stepped, pinned.step stepped, ?_⟩
    intro other
    obtain same | ⟨rfl, acted⟩ := client_after stepped other
    · exact same ▸ running other
    · exact (sound.clients _).unharmed (pinned.clients _).plain (running _) acted

/-- Separate primary keys of well keyed rows are separate POSTIDs. -/
theorem postIds_separate {rows : List Row} (keyed : ∀ row ∈ rows, row.WellKeyed)
    (separate : KeyedRows.Separate samePrimaryKey rows) : (rows.map Row.postId).Nodup := by
  refine List.pairwise_map.mpr (List.Pairwise.imp_of_mem ?_ separate)
  intro first second firstIn secondIn apart same
  have keys : first.psId = second.psId := by
    rw [(keyed first firstIn).keys, (keyed second secondIn).keys, same]
  exact apart ⟨keys, (keyed second secondIn).complete.1⟩

/-- The row stored under a key is the only one with that POSTID. -/
theorem addToDb_postId {post : Post} {postAmigo : List Row} (keyed : post.Keyed)
    (rows : ∀ row ∈ postAmigo, row.WellKeyed) {row : Row} (member : row ∈ post.addToDb postAmigo)
    (same : row.postId = post.row.postId) : row = post.row := by
  obtain ⟨older, apart⟩ | isNew := KeyedRows.mem_upsert.mp member
  · have keys : row.psId = post.row.psId := by
      rw [(rows row older).keys, same, keyed.row.keys]
    exact absurd ⟨keys, by simp [Post.row]⟩ apart
  · exact isNew

/-- Well-formed posts and rows. The key of a post document is its `id` and its
`postId`, and its string fields are all there; the keys of a row agree, its
columns are all there and no POSTID occurs twice; no client trapped on a post
field or on a NULL; and the row stored under a post's PS_ID is the only one with
its POSTID and is named by deleting that. -/
structure WellFormed (world : World ι) : Prop where
  documents : ∀ document ∈ world.cloud .posts,
    document.data.string "id" = some document.documentID ∧
      document.data.string "postId" = some document.documentID ∧
      ∀ name ∈ postFields, (document.data.string name).isSome = true
  rows : ∀ client, ∀ row ∈ (world.clients client).postAmigo, row.psId = row.postId ∧ row.Complete
  postIds : ∀ client, ((world.clients client).postAmigo.map Row.postId).Nodup
  casts : ∀ client, (world.clients client).trap ≠ some .postField ∧
    (world.clients client).trap ≠ some .nullColumn
  addressed : ∀ client, ∀ document ∈ world.cloud .posts, ∀ post,
    Post.initJson document.data = some post →
      post.row ∈ post.addToDb (world.clients client).postAmigo ∧
      namedBy post.postId post.row = true ∧
      ∀ row ∈ post.addToDb (world.clients client).postAmigo,
        row.postId = post.row.postId → row = post.row

/-- Posts and rows are well formed in every reachable world. -/
theorem posts_and_rows_well_formed (platform : Platform) (world : World ι)
    (reachable : world.Reachable platform) : world.WellFormed where
  documents := by
    intro document member
    have keyed := reachable.sound.posts.keyed document member
    exact ⟨keyed.id, keyed.postId, keyed.fields⟩
  rows := by
    intro client row member
    have keyed := (reachable.sound.clients client).rows row member
    exact ⟨keyed.keys, keyed.complete⟩
  postIds := by
    intro client
    have sound := reachable.sound.clients client
    exact postIds_separate sound.rows sound.separate
  casts := by
    intro client
    have running := reachable.running client
    exact ⟨fun trapped => (running _ trapped).1 rfl, fun trapped => (running _ trapped).2 rfl⟩
  addressed := by
    intro client document member post decoded
    have sound := reachable.sound
    obtain ⟨other, isOther, key, keyed⟩ := (sound.posts.keyed document member).decodes
    cases Option.some.inj (decoded.symm.trans isOther)
    have isGenerated : generated post.postId = true := by
      rw [keyed, key]
      exact sound.plain _ (sound.posts.known document member)
    refine ⟨KeyedRows.mem_upsert.mpr (Or.inr rfl), ?_, ?_⟩
    · refine namedBy_self (generated_plain isGenerated) ?_
      simp [Post.row, cString_generated isGenerated]
    · intro row isRow same
      exact addToDb_postId keyed (sound.clients client).rows isRow same

/-- A world with a post in the cloud and its row on a second device. -/
theorem posts_and_rows_well_formed_shared :
    ∃ world : World Bool, (world.cloud .posts).length = 1 ∧
      (world.clients true).postAmigo.length = 1 ∧ world.WellFormed := by
  have ran : ((GuardedRuns.exec (step Platform.plain) (init Bool)
      (debut false ⟨"ann", "Ann", "", ""⟩ "Haifa" "AAAAAAAAAAAAAAAAAAA1" ++ sync true 4)).any
      fun world => decide ((world.cloud .posts).length = 1 ∧
        (world.clients true).postAmigo.length = 1)) = true := by decide +kernel
  obtain ⟨world, run, posts, rows⟩ := GuardedRuns.exists_run ran
  exact ⟨world, posts, rows, posts_and_rows_well_formed _ world ⟨_, run⟩⟩

end World

end Amigo
