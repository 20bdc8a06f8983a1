import Amigo.EditFlow
import Amigo.TaggedLists
import Amigo.WellFormed

/-!
# What an edit leaves of a post

An edit writes the whole document again, from the title and the name its page read
before the upload, the id the page was opened with, and the user signed in when the
upload ends. All of these come from the post itself as long as one user is signed in
from the tap that opens it to the end of the upload: the page is only opened for the
post's own user.

Each client is given a note of whether that is so, for the open post and for every page
of an edit. From the step that stores a new post on, every document and row under its id
then carries that post's identity: its id, twice, its title, its user's name and id. The
rows hold these as SQLite stores text. Auth's user ids have no U+0000, so a row names its
user whole.
-/

namespace Amigo

/-- The fields that say which post it is, where it is listed and whose it is. -/
structure Identity where
  id : String
  postId : String
  title : String
  userName : String
  userId : String
deriving DecidableEq

/-- The identity a post carries. -/
def Post.identity (post : Post) : Identity where
  id := post.id
  postId := post.postId
  title := post.title
  userName := post.userName
  userId := post.userId

/-- The identity as SQLite stores it. -/
def Identity.stored (identity : Identity) : Identity where
  id := cString identity.id
  postId := cString identity.postId
  title := cString identity.title
  userName := cString identity.userName
  userId := cString identity.userId

/-- The identity a stored document carries, if it carries all of it. -/
def Document.identity (document : Document) : Option Identity :=
  (document.data.string "id").bind fun id =>
  (document.data.string "postId").bind fun postId =>
  (document.data.string "title").bind fun title =>
  (document.data.string "userName").bind fun userName =>
  (document.data.string "userId").bind fun userId =>
  some { id, postId, title, userName, userId }

/-- The identity a row carries, if no column of it is NULL. -/
def Row.identity (row : Row) : Option Identity :=
  row.psId.bind fun id =>
  row.postId.bind fun postId =>
  row.title.bind fun title =>
  row.userName.bind fun userName =>
  row.userId.bind fun userId =>
  some { id, postId, title, userName, userId }

/-- The fields of a document an edit may change. -/
def editedFields : List String := ["placeImage", "placeLocation", "recText", "lastUpdate"]

/-- A version of a post's document: what the write of some post with its identity leaves,
committed or queued. -/
def Version (post : Post) (document : Document) : Prop :=
  ∃ (stamp : Stamp) (other : Post), other.identity = post.identity ∧
    document = ⟨other.id, resolve stamp other.toJson⟩

/-- A version of a post carries the post's identity. -/
theorem Version.identity {post : Post} {document : Document} (version : Version post document) :
    document.identity = some post.identity := by
  obtain ⟨stamp, other, same, rfl⟩ := version
  rw [← same]
  simp [Document.identity, Post.identity, Post.toJson, Fields.string, Fields.get, resolve,
    FieldValue.resolve, List.lookup_cons]

/-- The row of a post carries its identity as the table stores it. -/
theorem row_identity (post : Post) : post.row.identity = some post.identity.stored := rfl

/-- Two versions of a post agree but for the fields an edit may change. -/
theorem Version.same_field {post : Post} {old new : Document} (isOld : Version post old)
    (isNew : Version post new) {name : String} (kept : name ∉ editedFields) :
    new.data.get name = old.data.get name := by
  obtain ⟨stamp, first, firstSame, rfl⟩ := isOld
  obtain ⟨later, second, secondSame, rfl⟩ := isNew
  have same : second.identity = first.identity := secondSame.trans firstSame.symm
  simp only [Post.identity, Identity.mk.injEq] at same
  obtain ⟨id, postId, title, userName, userId⟩ := same
  simp only [editedFields, List.mem_cons, List.not_mem_nil, or_false, not_or] at kept
  obtain ⟨image, location, text, updated⟩ := kept
  have notImage : (name == "placeImage") = false := by simpa using image
  have notLocation : (name == "placeLocation") = false := by simpa using location
  have notText : (name == "recText") = false := by simpa using text
  have notUpdated : (name == "lastUpdate") = false := by simpa using updated
  simp only [Fields.get, resolve, Post.toJson, List.map_cons, List.map_nil, List.lookup_cons,
    notImage, notLocation, notText, notUpdated, FieldValue.resolve, id, postId, title, userName,
    userId]

/-- Equal cloud forms are of posts with one identity. -/
theorem identity_of_toJson {post other : Post} (same : post.toJson = other.toJson) :
    post.identity = other.identity := by
  simp only [Post.toJson, List.cons.injEq, Prod.mk.injEq, FieldValue.value.injEq,
    Value.string.injEq, true_and, and_true] at same
  obtain ⟨id, _, _, _, title, userName, userId, postId⟩ := same
  simp only [Post.identity, id, title, userName, userId, postId]

/-- What a version decodes to has the post's identity. -/
theorem Version.decoded {post other : Post} {document : Document} (version : Version post document)
    (decoded : Post.initJson document.data = some other) : other.identity = post.identity := by
  obtain ⟨stamp, written, same, rfl⟩ := version
  rw [initJson_resolve_toJson] at decoded
  rw [← same, ← Option.some.inj decoded]
  rfl

/-- The title and the name read from a version are the post's. -/
theorem Version.texts {post : Post} {document : Document} (version : Version post document)
    {title userName : String} (hasTitle : document.data.string "title" = some title)
    (hasName : document.data.string "userName" = some userName) :
    title = post.title ∧ userName = post.userName := by
  obtain ⟨stamp, written, same, rfl⟩ := version
  simp only [Post.identity, Identity.mk.injEq] at same
  rw [resolve_string] at hasTitle hasName
  simp only [Post.toJson, List.lookup_cons, String.reduceBEq, Option.some.injEq,
    FieldValue.value.injEq, Value.string.injEq] at hasTitle hasName
  exact ⟨hasTitle.symm.trans same.2.2.1, hasName.symm.trans same.2.2.2.1⟩

/-- Whether one user has been signed in since the open post was tapped, and for every
page of an edit since its post was. -/
structure Sitting where
  opened : Bool := true
  pages : List Bool := []
deriving DecidableEq

/-- The note after a step of its client. -/
def Sitting.after (sitting : Sitting) (action : Action) (before after : Client) : Sitting where
  opened := Client.taps action || (sitting.opened && decide (after.currentUser = before.currentUser))
  pages := TaggedLists.retag
    (sitting.pages.map (fun same => same && decide (after.currentUser = before.currentUser)))
    sitting.opened after.edits.length

namespace Client

/-- The post of a page has a known author, and that user is signed in if one user has
been since the post was tapped. -/
def Owned (author : String → String → Prop) (current : Option String) (view : EditScreen)
    (same : Bool) : Prop :=
  ∃ uid, author view.postEditID uid ∧ (same = true → current = some uid)

/-- The posts a client lists, shows and edits have known authors, an editable post is
its user's while one user is signed in, and so is the post of a page. -/
structure Traced (author : String → String → Prop) (client : Client) (sitting : Sitting) : Prop where
  session : ∀ uid, client.currentUser = some uid → nul ∉ uid.toList
  listed : ∀ data ∈ client.delivered, ∀ post ∈ data, author post.postId post.userId
  shown : ∀ info, client.info = some info → client.postID = info.post.postId ∧
    author info.post.postId info.post.userId ∧
    (info.editable = true → sitting.opened = true → client.currentUser = some info.post.userId)
  pages : List.Forall₂ (Owned author client.currentUser) client.edits sitting.pages

/-- With more authors known a client is still traced. -/
theorem Traced.mono {author later : String → String → Prop} {client : Client} {sitting : Sitting}
    (grows : ∀ id uid, author id uid → later id uid) (traced : client.Traced author sitting) :
    client.Traced later sitting where
  session := traced.session
  listed := fun data handed post member => grows _ _ (traced.listed data handed post member)
  shown := by
    intro info isOpen
    obtain ⟨kept, known, owned⟩ := traced.shown info isOpen
    exact ⟨kept, grows _ _ known, owned⟩
  pages := traced.pages.imp (fun _ _ ⟨uid, known, owned⟩ => ⟨uid, grows _ _ known, owned⟩)

/-- Signing in is the only step that brings another user. -/
theorem act_user {platform : Platform} {cloud : Cloud} {client after : Client} {action : Action}
    (acted : client.act platform cloud action = some after) {uid : String}
    (current : after.currentUser = some uid) :
    client.currentUser = some uid ∨ action = .signIn uid := by
  cases action with
  | signIn other =>
    cases act_acts acted
    cases Option.some.inj current
    exact Or.inr rfl
  | signOut =>
    cases act_acts acted
    simp at current
  | _ => exact Or.inl ((act_session acted (by simp) (by simp)).symm.trans current)

/-- The pages keep their notes through a change of the session. -/
theorem owned_kept {author : String → String → Prop} {client : Client} (after : Client)
    {pages : List Bool}
    (owned : List.Forall₂ (Owned author client.currentUser) client.edits pages) :
    List.Forall₂ (Owned author after.currentUser) client.edits
      (pages.map (fun same => same && decide (after.currentUser = client.currentUser))) := by
  rw [List.forall₂_map_right_iff]
  refine owned.imp ?_
  rintro view same ⟨uid, known, isUser⟩
  refine ⟨uid, known, ?_⟩
  intro both
  simp only [Bool.and_eq_true, decide_eq_true_eq] at both
  exact both.2.trans (isUser both.1)

/-- The screen a step opens shows a post of a known author, which is its user's when it is
editable and that user was signed in since the tap. -/
theorem Traced.opens {author : String → String → Prop} {platform : Platform} {cloud : Cloud}
    {client after : Client} {action : Action} {sitting : Sitting} {earlier : InfoScreen}
    (traced : client.Traced author sitting) (acted : client.act platform cloud action = some after)
    (opens : Opens client action earlier) :
    author earlier.post.postId earlier.post.userId ∧
      ((earlier.editable || decide (some earlier.post.userId = client.currentUser)) = true →
        (sitting.after action client after).opened = true →
        after.currentUser = some earlier.post.userId) := by
  cases opens with
  | tapped post tap shown isInfo =>
    subst isInfo
    have session := act_session acted (by simp [tap]) (by simp [tap])
    obtain ⟨data, handed, member⟩ : ∃ data ∈ client.delivered, post ∈ data := by
      simpa [shows] using shown
    refine ⟨traced.listed data handed post member, ?_⟩
    intro editable _
    simp only [Bool.false_or, decide_eq_true_eq] at editable
    exact session.trans editable.symm
  | back appears wasOpen =>
    have session := act_session acted (by simp [appears]) (by simp [appears])
    obtain ⟨_, known, owned⟩ := traced.shown earlier wasOpen
    refine ⟨known, ?_⟩
    intro editable opened
    simp only [Sitting.after, appears, taps, Bool.false_or, Bool.and_eq_true,
      decide_eq_true_eq] at opened
    simp only [Bool.or_eq_true, decide_eq_true_eq] at editable
    obtain already | isUser := editable
    · exact session.trans (owned already opened.1)
    · exact session.trans isUser.symm

/-- The pages after a step have their notes: a new one takes that of the screen it is
opened from. -/
theorem Traced.pages_after {author : String → String → Prop} {platform : Platform} {cloud : Cloud}
    {client after : Client} {action : Action} {sitting : Sitting}
    (traced : client.Traced author sitting) (acted : client.act platform cloud action = some after) :
    List.Forall₂ (Owned author after.currentUser) after.edits
      (sitting.after action client after).pages := by
  have kept := owned_kept after traced.pages
  cases act_pages acted with
  | same edits uploads =>
    rw [edits, Sitting.after, edits]
    exact TaggedLists.forall₂_retag_kept sitting.opened kept
  | opened info press isOpen editable edits uploads =>
    rw [edits, Sitting.after, edits]
    refine TaggedLists.forall₂_retag kept ?_
    intro view isNew
    rw [List.mem_singleton.mp isNew]
    obtain ⟨named, known, owned⟩ := traced.shown info isOpen
    have session := act_session acted (by simp [press]) (by simp [press])
    exact ⟨info.post.userId, named ▸ known, fun opened => session.trans (owned editable opened)⟩
  | read page view documents document title userName waiting member shown named hasTitle hasName
      edits uploads =>
    rw [edits, Sitting.after, edits, List.length_modify]
    exact TaggedLists.forall₂_modify (TaggedLists.forall₂_retag_kept sitting.opened kept) page
      (fun _ _ owned => owned)
  | closed edits uploads =>
    rw [edits, Sitting.after, edits]
    simp

/-- A step keeps the notes, when the rows it leaves have known authors. -/
theorem Traced.act {author : String → String → Prop} {platform : Platform} {cloud : Cloud}
    {client after : Client} {action : Action} {sitting : Sitting}
    (traced : client.Traced author sitting)
    (acted : client.act platform cloud action = some after) (city : PlainText client.postCity)
    (rows : ∀ row ∈ after.postAmigo, ∀ post, readRow row = some post → author post.postId post.userId)
    (plain : ∀ uid, action = .signIn uid → nul ∉ uid.toList) :
    after.Traced author (sitting.after action client after) where
  session := by
    intro uid current
    obtain before | signs := act_user acted current
    · exact traced.session uid before
    · exact plain uid signs
  listed := by
    intro data handed post member
    obtain same | ⟨added, grown, isRead⟩ := act_listed acted city
    · exact traced.listed data (same ▸ handed) post member
    · rw [grown, List.mem_append, List.mem_singleton] at handed
      obtain before | rfl := handed
      · exact traced.listed data before post member
      · obtain ⟨row, isRow, isPost⟩ := isRead post member
        exact rows row isRow post isPost
  shown := by
    intro info isOpen
    obtain ⟨noTap, sameInfo, samePostID⟩ | closed | ⟨earlier, opens, named, result⟩ := act_info acted
    · obtain ⟨kept, known, owned⟩ := traced.shown info (sameInfo ▸ isOpen)
      refine ⟨samePostID.trans kept, known, ?_⟩
      intro editable opened
      simp only [Sitting.after, noTap, Bool.false_or, Bool.and_eq_true, decide_eq_true_eq] at opened
      exact opened.2.trans (owned editable opened.1)
    · simp [closed] at isOpen
    · cases Option.some.inj (result.symm.trans isOpen)
      exact ⟨named, traced.opens acted opens⟩
  pages := traced.pages_after acted

/-- What a client holds of a post: the documents it reads, the writes it queues and the
rows it stores are versions of the post, and so is what the page of an edit keeps while
its upload runs. -/
structure Preserves (post : Post) (client : Client) : Prop where
  held : ∀ pending ∈ client.pending, ∀ document ∈ pending.posts,
    document.documentID = post.id → Version post document
  queued : ∀ json, .setData .posts post.id json ∈ client.outbox →
    ∃ other : Post, other.identity = post.identity ∧ json = other.toJson
  rows : ∀ row ∈ client.postAmigo, row.psId = some post.id →
    ∃ other : Post, other.identity = post.identity ∧ row = other.row
  editing : ∀ page, .edit page post.id ∈ client.uploads → ∃ view,
    client.edits[page]? = some view ∧ view.postEditID = post.id ∧ view.city = post.title ∧
      view.name = post.userName

/-- What an upload writes under the post's id, when it is of an edit and one user has
been signed in, has the post's identity. -/
theorem Preserves.act_queued {post : Post} {platform : Platform} {cloud : Cloud} {client after : Client}
    {action : Action} {sitting : Sitting} (preserves : client.Preserves post) (keyed : post.Keyed)
    (traced : client.Traced (fun id uid => id = post.id → uid = post.userId) sitting)
    (acted : client.act platform cloud action = some after) (published : post.id ∉ client.newIds)
    (steady : ∀ index url placeText recText page docId, action = .uploaded index url placeText recText →
      url ≠ "" → client.uploads[index]? = some (.edit page docId) → sitting.pages[page]? ≠ some false)
    {json : Json} (member : .setData .posts post.id json ∈ after.outbox) :
    ∃ other : Post, other.identity = post.identity ∧ json = other.toJson := by
  obtain before | ⟨index, url, placeText, recText, upload, other, ended, running, saved, named, id,
    postId, isJson, signedIn, edited⟩ := act_posted acted member
  · exact preserves.queued json before
  · refine ⟨other, ?_, isJson⟩
    cases upload with
    | newPost screen idPost =>
      have isNew : post.id ∈ client.newIds :=
        List.mem_filterMap.mpr ⟨_, List.mem_of_getElem? running, congrArg some named⟩
      exact absurd isNew published
    | edit page document =>
      have isDocument : document = post.id := named
      subst isDocument
      obtain ⟨view, shown, title, userName⟩ := edited page _ rfl
      obtain ⟨same, sameShown, isPost, city, name⟩ :=
        preserves.editing page (List.mem_of_getElem? running)
      cases Option.some.inj (sameShown.symm.trans shown)
      obtain ⟨tag, isTag, uid, known, isUser⟩ := TaggedLists.forall₂_getElem? traced.pages shown
      have isSteady : tag = true := by
        have notFalse := steady index url placeText recText page _ ended saved running
        rw [isTag] at notFalse
        simpa using notFalse
      have isAuthor : other.userId = post.userId :=
        (Option.some.inj (signedIn.symm.trans (isUser isSteady))).trans (known isPost)
      have postIdKept : post.postId = post.id := keyed
      simp only [Post.identity, id, postId, title, userName, city, name, isAuthor, postIdKept]

/-- What a queued write under the post's id leaves is a version of it. -/
theorem Preserves.version {post : Post} {client : Client} (preserves : client.Preserves post)
    {docId : String} {json : Json} (queued : .setData .posts docId json ∈ client.outbox) (stamp : Stamp)
    (isPost : docId = post.id) : Version post ⟨docId, resolve stamp json⟩ := by
  subst isPost
  obtain ⟨other, same, rfl⟩ := preserves.queued json queued
  have id : other.id = post.id := congrArg Identity.id same
  exact ⟨stamp, other, same, by rw [id]⟩

/-- A step that queues only versions of a post keeps everything under its id its own. -/
theorem Preserves.act {post : Post} {known : String → Prop} {platform : Platform} {cloud : Cloud}
    {client after : Client} {action : Action} (preserves : client.Preserves post)
    (plain : ∀ id, known id → generated id = true) (sound : client.Sound known)
    (stored : ∀ document ∈ cloud .posts, document.documentID = post.id → Version post document)
    (acted : client.act platform cloud action = some after)
    (queued : ∀ json, .setData .posts post.id json ∈ after.outbox →
      ∃ other : Post, other.identity = post.identity ∧ json = other.toJson) :
    after.Preserves post where
  held := act_posts_forall acted preserves.held
    (localView_forall stored (fun _ _ queued stamp isPost => preserves.version queued stamp isPost))
  queued := queued
  rows := by
    intro row member named
    rcases act_rows acted member with older |
      ⟨snapshot, answer, before, document, inSnapshot, other, decoded, rfl⟩
    · exact preserves.rows row older named
    · have key := ((sound.held _ before).row_key plain inSnapshot decoded).2
      have isPost : document.documentID = post.id := Option.some.inj (key.symm.trans named)
      exact ⟨other, (preserves.held _ before document inSnapshot isPost).decoded decoded, rfl⟩
  editing := by
    intro page member
    cases act_pages acted with
    | same edits uploads =>
      rw [edits]
      exact preserves.editing page (uploads page post.id member)
    | opened info press isOpen editable edits uploads =>
      obtain ⟨view, shown, facts⟩ := preserves.editing page (uploads ▸ member)
      obtain ⟨inside, _⟩ := List.getElem?_eq_some_iff.mp shown
      exact ⟨view, by rw [edits, List.getElem?_append_left inside, shown], facts⟩
    | read other view documents document title userName waiting inDocuments shown named hasTitle
        hasName edits uploads =>
      have here : after.edits[other]? = some { view with city := title, name := userName } := by
        rw [edits, List.getElem?_modify_eq, shown]
        rfl
      have filled (isPost : document.documentID = post.id) : ∃ view, after.edits[other]? = some view ∧
          view.postEditID = post.id ∧ view.city = post.title ∧ view.name = post.userName := by
        obtain ⟨sameTitle, sameName⟩ :=
          (preserves.held _ waiting document inDocuments isPost).texts hasTitle hasName
        exact ⟨_, here, named.symm.trans isPost, sameTitle, sameName⟩
      rw [uploads, List.mem_append, List.mem_singleton, Upload.edit.injEq] at member
      obtain before | ⟨rfl, isPost⟩ := member
      · obtain ⟨kept, keptShown, isPost, facts⟩ := preserves.editing page before
        by_cases same : page = other
        · subst same
          cases Option.some.inj (shown.symm.trans keptShown)
          exact filled (named.trans isPost)
        · exact ⟨kept, by rw [edits, List.getElem?_modify_ne _ _ (Ne.symm same), keptShown], isPost, facts⟩
      · exact filled isPost.symm
    | closed edits uploads =>
      rw [uploads] at member
      exact absurd member List.not_mem_nil

/-- A client has nothing of a post whose id it does not know. -/
theorem Preserves.of_unknown {post : Post} {known : String → Prop} {client : Client}
    (plain : ∀ id, known id → generated id = true) (sound : client.Sound known)
    (unknown : ¬ known post.id) : client.Preserves post where
  held := fun pending member document inPosts isPost =>
    absurd (isPost ▸ (sound.held pending member).known document inPosts) unknown
  queued := by
    intro json member
    obtain ⟨other, _, isKnown, isPost, _⟩ := sound.queued post.id json member
    exact absurd (isPost ▸ isKnown) unknown
  rows := by
    intro row member named
    obtain ⟨id, isKnown, isId⟩ := sound.named row member
    rw [cString_generated (plain id isKnown), named] at isId
    exact absurd (Option.some.inj isId ▸ isKnown) unknown
  editing := fun page member => absurd (sound.editing page post.id member) unknown

/-- A readable row of a sound client is under the id its post carries. -/
theorem Sound.row_named {known : String → Prop} {client : Client} (sound : client.Sound known)
    (plain : ∀ id, known id → generated id = true) {row : Row} (member : row ∈ client.postAmigo)
    {post : Post} (isRead : readRow row = some post) :
    known post.postId ∧ row.psId = some post.postId := by
  obtain ⟨id, isKnown, named⟩ := sound.named row member
  rw [cString_generated (plain id isKnown)] at named
  have carried : row.postId = some id := (sound.rows row member).keys.symm.trans named
  have column := (readRow_columns isRead).2.2.2
  rw [carried, columnText, Option.map_some, cString_generated (plain id isKnown)] at column
  rw [← Option.some.inj column]
  exact ⟨isKnown, named⟩

/-- A commit of what a client queued stores versions of the post. -/
theorem Preserves.commit {post : Post} {client : Client} {cloud : Cloud} {write : Write}
    (preserves : client.Preserves post) (queued : write ∈ client.outbox) (time : Timestamp)
    (stored : ∀ document ∈ cloud .posts, document.documentID = post.id → Version post document) :
    ∀ document ∈ write.commit time cloud .posts, document.documentID = post.id →
      Version post document := by
  intro document member isPost
  obtain older | ⟨docId, json, rfl, rfl⟩ := mem_commit member
  · exact stored document older isPost
  · exact preserves.version queued (.committed time) isPost

end Client

/-- A world with a note on every client. -/
structure Sittings (ι : Type*) where
  world : World ι
  sitting : ι → Sitting

namespace Sittings

variable {ι : Type*}

/-- The start, with no one signed in anywhere. -/
def init (ι : Type*) : Sittings ι := ⟨World.init ι, fun _ => {}⟩

/-- The step ends the upload of an edit with its image saved, and the user changed since
the post was tapped. -/
def interrupted (state : Sittings ι) (event : Event ι) : Bool :=
  match event.2 with
  | .uploaded index url _ _ => url != "" &&
      match (state.world.clients event.1).uploads[index]? with
      | some (.edit page _) => (state.sitting event.1).pages[page]? == some false
      | _ => false
  | _ => false

/-- Auth's user ids have no U+0000. -/
def plainUser : Action → Bool
  | .signIn uid => !uid.toList.contains nul
  | _ => true

/-- The steps of the runs the law speaks of: no edit ends under another user than its
post was tapped under. -/
def Steady (state : Sittings ι) (event : Event ι) : Prop :=
  state.interrupted event = false ∧ plainUser event.2 = true

instance (state : Sittings ι) (event : Event ι) : Decidable (Steady state event) :=
  inferInstanceAs (Decidable (_ ∧ _))

/-- Under the guard no one signs in with a U+0000 in the identifier. -/
theorem plain_signIn {state : Sittings ι} {event : Event ι} (steady : Steady state event)
    (uid : String) (signs : event.2 = .signIn uid) : nul ∉ uid.toList := by
  have plain := steady.2
  rw [signs] at plain
  simpa [plainUser] using plain

/-- Every post a client lists, shows or edits is under a published id. -/
def Known (state : Sittings ι) : Prop :=
  ∀ client, (state.world.clients client).Traced (fun id _ => state.world.Published id)
    (state.sitting client)

/-- At the start everything there is is known. -/
theorem known_init : (init ι).Known := by
  intro client
  constructor <;> simp [init, World.init]

/-- From the creation of a post on, everything under its id carries its identity. -/
structure Kept (post : Post) (state : Sittings ι) : Prop where
  published : state.world.Published post.id
  documents : ∀ document ∈ state.world.cloud .posts, document.documentID = post.id →
    Version post document
  clients : ∀ client, (state.world.clients client).Preserves post
  traced : ∀ client, (state.world.clients client).Traced
    (fun id uid => id = post.id → uid = post.userId) (state.sitting client)

/-- The page of an edit that ends without an interruption. -/
theorem steady_pages {state : Sittings ι} {event : Event ι} (steady : Steady state event)
    (index : Nat) (url placeText recText : String) (page : Nat) (docId : String)
    (ended : event.2 = .uploaded index url placeText recText) (saved : url ≠ "")
    (running : (state.world.clients event.1).uploads[index]? = some (.edit page docId)) :
    (state.sitting event.1).pages[page]? ≠ some false := by
  have unbroken := steady.1
  simp only [interrupted, ended, running, Bool.and_eq_false_iff, bne_eq_false_iff_eq,
    beq_eq_false_iff_ne] at unbroken
  exact unbroken.resolve_left saved

/-- Every document and every row of the post carries the identity it was created with. -/
structure CarriesIdentity (post : Post) (world : World ι) : Prop where
  documents : ∀ document ∈ world.cloud .posts, document.documentID = post.id →
    document.identity = some post.identity
  rows : ∀ client, ∀ row ∈ (world.clients client).postAmigo,
    row.psId = some post.id ∨ row.postId = some post.id → row.identity = some post.identity.stored

/-- A commit of a write of the post's document changes no other document, and of that one
only the four fields. -/
def EditsOnly (post : Post) (before : World ι) (event : Event ι) (after : World ι) : Prop :=
  ∀ time json rest, event.2 = .commit time →
    (before.clients event.1).outbox = .setData .posts post.id json :: rest →
    (∀ collection, collection ≠ .posts → after.cloud collection = before.cloud collection) ∧
    (∀ document, document.documentID ≠ post.id →
      (document ∈ after.cloud .posts ↔ document ∈ before.cloud .posts)) ∧
    ∀ old ∈ before.cloud .posts, old.documentID = post.id →
      ∀ new ∈ after.cloud .posts, new.documentID = post.id →
        ∀ name, name ∉ editedFields → new.data.get name = old.data.get name

/-- A kept post's documents and rows carry its identity. -/
theorem Kept.carries {post : Post} {state : Sittings ι} (kept : state.Kept post)
    (sound : state.world.Sound) : CarriesIdentity post state.world where
  documents := fun document member isPost => (kept.documents document member isPost).identity
  rows := by
    intro client row member named
    have keys := ((sound.clients client).rows row member).keys
    obtain ⟨other, same, rfl⟩ := (kept.clients client).rows row member
      (named.elim (fun isPost => isPost) (fun isPost => keys.trans isPost))
    rw [row_identity, same]

variable [DecidableEq ι]

/-- One step of the world, with what it means for the sittings. -/
def step (platform : Platform) (state : Sittings ι) (event : Event ι) : Option (Sittings ι) :=
  (state.world.step platform event).map fun next =>
    { world := next
      sitting := Function.update state.sitting event.1
        ((state.sitting event.1).after event.2 (state.world.clients event.1) (next.clients event.1)) }

/-- The inversion of such a step. -/
theorem step_world {platform : Platform} {state next : Sittings ι} {event : Event ι}
    (stepped : state.step platform event = some next) :
    state.world.step platform event = some next.world ∧
      next.sitting = Function.update state.sitting event.1
        ((state.sitting event.1).after event.2 (state.world.clients event.1)
          (next.world.clients event.1)) := by
  obtain ⟨world, worldStep, rfl⟩ := Option.map_eq_some_iff.mp stepped
  exact ⟨worldStep, rfl⟩

/-- What one client's step keeps, all clients keep: the others and their notes are as
they were. -/
theorem traced_step {author : String → String → Prop} {platform : Platform} {state next : Sittings ι}
    {event : Event ι} (stepped : state.step platform event = some next) (steady : Steady state event)
    (pinned : state.world.Pinned platform)
    (traced : ∀ client, (state.world.clients client).Traced author (state.sitting client))
    (rows : ∀ row ∈ (next.world.clients event.1).postAmigo, ∀ post, readRow row = some post →
      author post.postId post.userId) (client : ι) :
    (next.world.clients client).Traced author (next.sitting client) := by
  obtain ⟨worldStep, notes⟩ := step_world stepped
  by_cases same : client = event.1
  · subst same
    rw [notes, Function.update_self]
    exact (traced _).act (World.step_act worldStep) (pinned.clients _).plain rows (plain_signIn steady)
  · rw [notes, Function.update_of_ne same, World.step_other worldStep same]
    exact traced client

/-- Every step of a steady run keeps what is known. -/
theorem Known.step {platform : Platform} {state next : Sittings ι} {event : Event ι}
    (known : state.Known) (sound : state.world.Sound) (pinned : state.world.Pinned platform)
    (steady : Steady state event)
    (stepped : state.step platform event = some next) : next.Known := by
  have worldStep := (step_world stepped).1
  refine traced_step stepped steady pinned ?_ ?_
  · intro client
    exact (known client).mono (fun _ _ published => published.step worldStep)
  · intro row member post isRead
    have after := sound.step worldStep
    exact ((after.clients event.1).row_named after.plain member isRead).1

/-- A step keeps everything under a post's id its own. -/
theorem Kept.step {post : Post} {platform : Platform} {state next : Sittings ι} {event : Event ι}
    (kept : state.Kept post) (keyed : post.Keyed) (plain : nul ∉ post.userId.toList)
    (sound : state.world.Sound) (pinned : state.world.Pinned platform) (steady : Steady state event)
    (stepped : state.step platform event = some next) : next.Kept post := by
  have worldStep := (step_world stepped).1
  obtain ⟨_, _, _, cloud, _, _⟩ := World.step_inv worldStep
  have acted := World.step_act worldStep
  have preserved : (next.world.clients event.1).Preserves post :=
    (kept.clients event.1).act sound.plain (sound.clients event.1) kept.documents acted
      (fun _ member => (kept.clients event.1).act_queued keyed (kept.traced event.1) acted
        (kept.published.2 event.1) (steady_pages steady) member)
  refine ⟨kept.published.step worldStep, ?_, ?_, ?_⟩
  · rw [cloud]
    obtain same | ⟨time, write, rest, _, queued, committed⟩ := state.world.cloudAfter_cases event
    · rw [same]
      exact kept.documents
    · rw [committed]
      exact (kept.clients event.1).commit (queued ▸ List.mem_cons_self) time kept.documents
  · intro client
    obtain same | ⟨rfl, _⟩ := World.client_after worldStep client
    · exact same ▸ kept.clients client
    · exact preserved
  · refine traced_step stepped steady pinned kept.traced ?_
    intro row member other isRead isPost
    have after := sound.step worldStep
    have named := ((after.clients event.1).row_named after.plain member isRead).2
    obtain ⟨written, same, rfl⟩ := preserved.rows row member (isPost ▸ named)
    have author : written.userId = post.userId := congrArg Identity.userId same
    have column := (readRow_columns isRead).2.2.1
    rw [Post.row, columnText, Option.map_some, author, cString_clean plain, cString_clean plain] at column
    exact (Option.some.inj column).symm

/-- A post that a step queues under an id of its own is the signed-in user's. -/
theorem new_post_signed {known : String → Prop} {platform : Platform} {cloud : Cloud}
    {client after : Client} {action : Action} {post : Post} (sound : client.Sound known)
    (unknown : ¬ known post.id) (acted : client.act platform cloud action = some after)
    (queued : .setData .posts post.id post.toJson ∈ after.outbox) :
    post.postId = post.id ∧ client.currentUser = some post.userId := by
  obtain older | ⟨_, _, _, _, _, other, _, _, _, _, _, postId, isJson, signedIn, _⟩ :=
    Client.act_posted acted queued
  · obtain ⟨other, _, isKnown, isId, _⟩ := sound.queued post.id _ older
    exact absurd (isId ▸ isKnown) unknown
  · have identity := identity_of_toJson isJson
    have sameUser : post.userId = other.userId := congrArg Identity.userId identity
    exact ⟨(congrArg Identity.postId identity).trans postId, sameUser ▸ signedIn⟩

/-- The end of the upload of a new post creates it: nothing under its id was anywhere. -/
theorem kept_created {platform : Platform} {before created : Sittings ι} {client : ι} {index : Nat}
    {url placeText recText : String} {screen : Nat} {post : Post}
    (sound : before.world.Sound) (pinned : before.world.Pinned platform) (known : before.Known)
    (running : (before.world.clients client).uploads[index]? = some (.newPost screen post.id))
    (creates : before.step platform (client, .uploaded index url placeText recText) = some created)
    (stored : (created.world.clients client).outbox =
      (before.world.clients client).outbox ++ [post.write]) :
    created.Kept post ∧ post.Keyed ∧ nul ∉ post.userId.toList := by
  have worldStep := (step_world creates).1
  obtain ⟨_, _, _, cloud, _, _⟩ := World.step_inv worldStep
  have acted := World.step_act worldStep
  have uploading : post.id ∈ (before.world.clients client).newIds :=
    List.mem_filterMap.mpr ⟨_, List.mem_of_getElem? running, rfl⟩
  have unpublished : ¬ before.world.Published post.id := fun published => published.2 client uploading
  have unknown (other : ι) : (before.world.clients other).Preserves post :=
    .of_unknown sound.plain (sound.clients other) unpublished
  have noDocument : ∀ document ∈ before.world.cloud .posts, document.documentID = post.id →
      Version post document := fun document member isPost =>
    absurd (isPost ▸ sound.posts.known document member) unpublished
  have written (json : Json)
      (member : .setData .posts post.id json ∈ (created.world.clients client).outbox) :
      ∃ other : Post, other.identity = post.identity ∧ json = other.toJson := by
    rw [stored, List.mem_append, List.mem_singleton] at member
    obtain older | isPost := member
    · exact (unknown client).queued json older
    · simp only [Post.write, Write.setData.injEq, true_and] at isPost
      exact ⟨post, rfl, isPost⟩
  have steady : Steady before (client, .uploaded index url placeText recText) := by
    simp [Steady, interrupted, running, plainUser]
  have traced := traced_step creates steady pinned known (fun row member other isRead => by
    obtain older | ⟨_, _, _, delivers, _⟩ := Client.act_stored acted member
    · exact ((sound.clients client).row_named sound.plain older isRead).1
    · cases delivers)
  have isPost : Write.setData .posts post.id post.toJson ∈
      (created.world.clients client).outbox := by
    rw [stored]
    exact List.mem_append_right _ (List.mem_singleton.mpr rfl)
  obtain ⟨same, signedIn⟩ := new_post_signed (sound.clients client) unpublished acted isPost
  refine ⟨⟨World.finished_published sound.distinct worldStep running, ?_, ?_, ?_⟩, same,
    (known client).session post.userId signedIn⟩
  · rw [cloud]
    exact noDocument
  · intro other
    by_cases acting : other = client
    · subst acting
      exact (unknown other).act sound.plain (sound.clients other) noDocument acted written
    · rw [World.step_other worldStep acting]
      exact unknown other
  · intro other
    exact (traced other).mono (fun id _ published isId => absurd (isId ▸ published) unpublished)

/-- What a step changes of a kept post is what an edit may change. -/
theorem Kept.editsOnly {post : Post} {platform : Platform} {state next : Sittings ι} {event : Event ι}
    (kept : state.Kept post) (after : next.Kept post)
    (stepped : state.step platform event = some next) :
    EditsOnly post state.world event next.world := by
  intro time json rest commits queued
  obtain ⟨_, changed, acted, cloud, clients, _⟩ := World.step_inv (step_world stepped).1
  have committed : next.world.cloud =
      (Write.setData .posts post.id json).commit time state.world.cloud := by
    rw [cloud, World.cloudAfter, commits, queued]
  refine ⟨?_, ?_, ?_⟩
  · intro collection other
    rw [committed, commit_setData_other time _ _ _ _ _ other]
  · intro document other
    rw [committed, mem_commit_setData]
    constructor
    · rintro (⟨older, _⟩ | rfl)
      · exact older
      · exact absurd rfl other
    · exact fun older => Or.inl ⟨older, other⟩
  · intro old isOld oldPost new isNew newPost name other
    exact (kept.documents old isOld oldPost).same_field (after.documents new isNew newPost) other

/-- What every state of a run keeps before a post is created. -/
theorem sound_known {platform : Platform} {events : List (Event ι)} {last : Sittings ι}
    (run : GuardedRuns.Runs (step platform) Steady (init ι) events last) :
    last.world.Sound ∧ last.world.Pinned platform ∧ last.Known := by
  have kept (state : Sittings ι) (event : Event ι) (next : Sittings ι)
      (facts : state.world.Sound ∧ state.world.Pinned platform ∧ state.Known)
      (steady : Steady state event) (stepped : state.step platform event = some next) :
      next.world.Sound ∧ next.world.Pinned platform ∧ next.Known :=
    ⟨facts.1.step (step_world stepped).1, facts.2.1.step (step_world stepped).1,
      facts.2.2.step facts.1 facts.2.1 steady stepped⟩
  exact run.invariant kept ⟨World.sound_init, World.pinned_init platform, known_init⟩

/-- In every run in which no edit ends under another user than its post was tapped under,
all versions of a post's document and all its rows carry, from its creation on, the
identity it was created with, and a commit of its document changes only the four fields
of that document. -/
theorem identity_kept (platform : Platform) {history future : List (Event ι)}
    {before created last : Sittings ι} {client : ι} {index screen : Nat}
    {url placeText recText : String} {post : Post}
    (past : GuardedRuns.Runs (step platform) Steady (init ι) history before)
    (running : (before.world.clients client).uploads[index]? = some (.newPost screen post.id))
    (creates : before.step platform (client, .uploaded index url placeText recText) = some created)
    (stored : (created.world.clients client).outbox =
      (before.world.clients client).outbox ++ [post.write])
    (run : GuardedRuns.Runs (step platform) Steady created future last) :
    CarriesIdentity post last.world ∧ ∀ earlier event later,
      (earlier, event, later) ∈ GuardedRuns.transitions (step platform) created future →
        EditsOnly post earlier.world event later.world := by
  obtain ⟨sound, pinned, known⟩ := sound_known past
  obtain ⟨kept, keyed, plain⟩ := kept_created sound pinned known running creates stored
  have soundCreated : created.world.Sound := sound.step (step_world creates).1
  have pinnedCreated : created.world.Pinned platform := pinned.step (step_world creates).1
  have step_kept (state : Sittings ι) (event : Event ι) (next : Sittings ι)
      (facts : state.world.Sound ∧ state.world.Pinned platform ∧ state.Kept post)
      (steady : Steady state event) (stepped : state.step platform event = some next) :
      next.world.Sound ∧ next.world.Pinned platform ∧ next.Kept post :=
    ⟨facts.1.step (step_world stepped).1, facts.2.1.step (step_world stepped).1,
      facts.2.2.step keyed plain facts.1 facts.2.1 steady stepped⟩
  constructor
  · have facts := run.invariant step_kept ⟨soundCreated, pinnedCreated, kept⟩
    exact facts.2.2.carries facts.1
  · refine run.every_step step_kept ?_ ⟨soundCreated, pinnedCreated, kept⟩
    intro state event next facts steady stepped
    exact facts.2.2.editsOnly (step_kept state event next facts steady stepped).2.2 stepped

/-- A user registers, selects a city and presses Post on a page whose reads are over. -/
def pressed (user : User) : List (Event Bool) :=
  World.enroll false user 1 ++ World.select false "Haifa" 2 ++ (false, .openAdd) ::
    World.settle false 2 ++ [(false, .postBtn 0 "AAAAAAAAAAAAAAAAAAA1")]

/-- The new post is stored and edited by its user, and another device syncs. -/
def editedAndSynced (user : User) : List (Event Bool) :=
  (false, .commit ⟨3, 0⟩) :: World.sync false 4 ++
    World.edit false 0 (World.debutPost user "Haifa" "AAAAAAAAAAAAAAAAAAA1") ++
    [(false, .uploaded 0 "new url" "new place" "new text"), (false, .commit ⟨4, 0⟩)] ++
    World.sync true 4

/-- A run with an edit, after which the other device has the edited row. -/
theorem identity_kept_edited : ∃ (post : Post) (last : Sittings Bool),
    ((last.world.clients true).postAmigo.map Row.recText) = [some "new text"] ∧
      CarriesIdentity post last.world := by
  have ran : ((GuardedRuns.execGuarded (step Platform.plain) Steady (init Bool)
      (pressed ⟨"ann", "Ann", "", ""⟩)).any fun before =>
        (before.step Platform.plain (false, .uploaded 0 "url" "place" "text")).any fun created =>
          (GuardedRuns.execGuarded (step Platform.plain) Steady created
            (editedAndSynced ⟨"ann", "Ann", "", ""⟩)).any fun last =>
              decide ((before.world.clients false).uploads[0]? =
                  some (.newPost 0 "AAAAAAAAAAAAAAAAAAA1") ∧
                (created.world.clients false).outbox = (before.world.clients false).outbox ++
                  [(World.debutPost ⟨"ann", "Ann", "", ""⟩ "Haifa" "AAAAAAAAAAAAAAAAAAA1").write] ∧
                ((last.world.clients true).postAmigo.map Row.recText) = [some "new text"])) = true := by
    decide +kernel
  obtain ⟨before, executed, rest⟩ := (Option.any_eq_true _ _).mp ran
  obtain ⟨created, creates, rest⟩ := (Option.any_eq_true _ _).mp rest
  obtain ⟨last, finished, checked⟩ := (Option.any_eq_true _ _).mp rest
  obtain ⟨running, stored, edited⟩ := of_decide_eq_true checked
  exact ⟨World.debutPost ⟨"ann", "Ann", "", ""⟩ "Haifa" "AAAAAAAAAAAAAAAAAAA1", last, edited,
    (identity_kept _ (GuardedRuns.runs_of_execGuarded executed) running creates stored
      (GuardedRuns.runs_of_execGuarded finished)).1⟩

/-- The full name of a user, with a U+0000 in it. -/
def cutName : String := String.ofList ['A', nul, 'n']

/-- A row does not always have the user's name as it was created. -/
theorem identity_not_always_kept : ¬ ∀ (history future : List (Event Bool))
    (before created last : Sittings Bool) (client : Bool) (index screen : Nat)
    (url placeText recText : String) (post : Post),
    GuardedRuns.Runs (step Platform.plain) Steady (init Bool) history before →
    (before.world.clients client).uploads[index]? = some (.newPost screen post.id) →
    before.step Platform.plain (client, .uploaded index url placeText recText) = some created →
    (created.world.clients client).outbox =
      (before.world.clients client).outbox ++ [post.write] →
    GuardedRuns.Runs (step Platform.plain) Steady created future last →
    ∀ other, ∀ row ∈ (last.world.clients other).postAmigo, row.psId = some post.id →
      row.identity = some post.identity := by
  intro always
  have ran : ((GuardedRuns.execGuarded (step Platform.plain) Steady (init Bool)
      (pressed ⟨"ann", cutName, "", ""⟩)).any fun before =>
        (before.step Platform.plain (false, .uploaded 0 "url" "place" "text")).any fun created =>
          (GuardedRuns.execGuarded (step Platform.plain) Steady created
            ((false, .commit ⟨3, 0⟩) :: World.sync true 4)).any fun last =>
              decide ((before.world.clients false).uploads[0]? =
                  some (.newPost 0 "AAAAAAAAAAAAAAAAAAA1") ∧
                (created.world.clients false).outbox = (before.world.clients false).outbox ++
                  [(World.debutPost ⟨"ann", cutName, "", ""⟩ "Haifa" "AAAAAAAAAAAAAAAAAAA1").write] ∧
                ((last.world.clients true).postAmigo.any fun row =>
                  decide (row.psId = some "AAAAAAAAAAAAAAAAAAA1" ∧ row.userName = some "A")) =
                  true)) = true := by
    decide +kernel
  obtain ⟨before, executed, rest⟩ := (Option.any_eq_true _ _).mp ran
  obtain ⟨created, creates, rest⟩ := (Option.any_eq_true _ _).mp rest
  obtain ⟨last, finished, checked⟩ := (Option.any_eq_true _ _).mp rest
  obtain ⟨running, stored, cut⟩ := of_decide_eq_true checked
  obtain ⟨row, member, isRow⟩ := List.any_eq_true.mp cut
  obtain ⟨named, shortened⟩ := of_decide_eq_true isRow
  have kept := always _ _ before created last false 0 0 "url" "place" "text"
    (World.debutPost ⟨"ann", cutName, "", ""⟩ "Haifa" "AAAAAAAAAAAAAAAAAAA1")
    (GuardedRuns.runs_of_execGuarded executed) running creates stored
    (GuardedRuns.runs_of_execGuarded finished) true row member named
  have name : row.userName = some cutName := by
    simp only [Row.identity, Option.bind_eq_some_iff] at kept
    obtain ⟨_, _, _, _, _, _, userName, hasName, _, _, same⟩ := kept
    rw [hasName]
    exact congrArg (fun identity => some identity.userName) (Option.some.inj same)
  rw [shortened] at name
  revert name
  decide

end Sittings

end Amigo
