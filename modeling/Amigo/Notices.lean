import Mathlib.Data.Fintype.Basic
import Amigo.CloudDeletes
import Amigo.NoticeBoard

/-!
# Announcements of deleted posts

The posts collection and the local tables are a source and its replicas, and the
deleter collection is the board on which a deletion is announced. Keys are
document keys. A copy is a local row or a document that a sync has fetched and
not yet merged; a notice names the keys its pattern matches; a client carries the
notices its answered lookups hold; a key is being retracted while a delete of it
waits in some queue. A notice whose pattern does not stay inside its literal, and goes
on as other SQL, is taken to name every key. What a client reads of either collection
is what it is shown, with its own queued posts and announcements.

Every step of the world is one move of this board. A commit publishes, retracts
or announces, a rejected delete is abandoned, and all other steps are the work of
replicas. Announced identifiers are generated, so what a notice names is decided
by the key alone.
-/

namespace Amigo

/-- Some of these notices names the key. -/
def named (notices : List Document) (key : String) : Bool :=
  notices.any fun notice => (notice.data.string "idPost").any fun postIds => names postIds key

/-- A key is named when some notice names it. -/
theorem named_iff (notices : List Document) (key : String) :
    named notices key = true ↔ ∃ notice ∈ notices, ∃ postIds,
      notice.data.string "idPost" = some postIds ∧ names postIds key = true := by
  simp [named, Option.any_eq_true]

/-- The documents a pending read of a sync will merge. -/
def Pending.merging (pending : Pending) : List Document :=
  match pending.callback, pending.answer with
  | .fetchPosts _ .merge, some (.snapshot documents) => documents
  | .fetchCities snapshot .merge, _ => snapshot
  | _, _ => []

/-- The notices an answered lookup holds. -/
def Pending.notices (pending : Pending) : List Document :=
  match pending.callback, pending.answer with
  | .deleterLookup _, some (.snapshot documents) => documents
  | _, _ => []

namespace Client

/-- The keys a client has a row of, or is about to. -/
def copies (client : Client) : List String :=
  client.postAmigo.filterMap Row.psId ++
    client.pending.flatMap (fun pending => pending.merging.map Document.documentID)

/-- The notices a client carries. -/
def lookups (client : Client) : List Document := client.pending.flatMap Pending.notices

/-- The documents an action answers a sync's query with. -/
def postsRead (cloud : Cloud) (client : Client) : Action → List Document
  | .answer index =>
    match client.pending[index]? with
    | some ⟨.fetchPosts since .merge, none⟩ =>
      Callback.read (client.localView cloud) (.fetchPosts since .merge)
    | _ => []
  | _ => []

/-- The notices an action answers a lookup with. -/
def noticesRead (cloud : Cloud) (client : Client) : Action → List Document
  | .answer index =>
    match client.pending[index]? with
    | some ⟨.deleterLookup receiver, none⟩ =>
      Callback.read (client.localView cloud) (.deleterLookup receiver)
    | _ => []
  | _ => []

/-- A document a sync is to merge after a step was to be merged before, or was just read. -/
theorem act_merging {platform : Platform} {cloud : Cloud} {client after : Client} {action : Action}
    (acted : client.act platform cloud action = some after) {pending : Pending}
    (member : pending ∈ after.pending) {document : Document} (merging : document ∈ pending.merging) :
    (∃ older ∈ client.pending, document ∈ older.merging) ∨ document ∈ client.postsRead cloud action := by
  cases act_pending acted member with
  | kept before => exact Or.inl ⟨pending, before, merging⟩
  | answered index callback step waiting =>
    cases callback with
    | fetchCities snapshot next =>
      cases next with
      | merge => exact Or.inl ⟨_, List.mem_of_getElem? waiting, merging⟩
      | delete postIds => exact absurd merging List.not_mem_nil
    | fetchPosts since next =>
      cases next with
      | merge =>
        refine Or.inr ?_
        rw [step, postsRead, waiting]
        exact merging
      | delete postIds => exact absurd merging List.not_mem_nil
    | _ => exact absurd merging List.not_mem_nil
  | failed callback before =>
    cases callback with
    | fetchCities snapshot next =>
      cases next with
      | merge => exact Or.inl ⟨_, before, merging⟩
      | delete postIds => exact absurd merging List.not_mem_nil
    | fetchPosts since next => cases next <;> exact absurd merging List.not_mem_nil
    | _ => exact absurd merging List.not_mem_nil
  | pressed callback pressed => cases pressed <;> exact absurd merging List.not_mem_nil
  | filtering since next documents before =>
    cases next with
    | merge => exact Or.inl ⟨_, before, merging⟩
    | delete postIds => exact absurd merging List.not_mem_nil
  | lookup => exact absurd merging List.not_mem_nil
  | refresh => exact absurd merging List.not_mem_nil
  | removal => exact absurd merging List.not_mem_nil

/-- A copy after a step was one before, or of a document just read. -/
theorem act_copies {platform : Platform} {cloud : Cloud} {client after : Client} {action : Action}
    {known : String → Prop} (sound : client.Sound known) (plain : ∀ id, known id → generated id = true)
    (acted : client.act platform cloud action = some after) {key : String}
    (copied : key ∈ after.copies) :
    key ∈ client.copies ∨ key ∈ (client.postsRead cloud action).map Document.documentID := by
  have held {pending : Pending} (before : pending ∈ client.pending) {document : Document}
      (merging : document ∈ pending.merging) : document.documentID ∈ client.copies :=
    List.mem_append_right _ (List.mem_flatMap.mpr ⟨pending, before, List.mem_map_of_mem merging⟩)
  obtain isRow | isFetched := List.mem_append.mp copied
  · obtain ⟨row, member, isKey⟩ := List.mem_filterMap.mp isRow
    rcases act_rows acted member with older |
      ⟨snapshot, answer, before, document, inSnapshot, post, decoded, rfl⟩
    · exact Or.inl (List.mem_append_left _ (List.mem_filterMap.mpr ⟨row, older, isKey⟩))
    · have named := ((sound.held _ before).row_key plain inSnapshot decoded).2
      have isDocument : document.documentID = key := Option.some.inj (named.symm.trans isKey)
      exact Or.inl (isDocument ▸ held before inSnapshot)
  · obtain ⟨pending, member, merging⟩ := List.mem_flatMap.mp isFetched
    obtain ⟨document, isMerging, rfl⟩ := List.mem_map.mp merging
    obtain ⟨older, before, inOlder⟩ | isRead := act_merging acted member isMerging
    · exact Or.inl (held before inOlder)
    · exact Or.inr (List.mem_map_of_mem isRead)

/-- A notice carried after a step was carried before, or was just read. -/
theorem act_lookups {platform : Platform} {cloud : Cloud} {client after : Client} {action : Action}
    (acted : client.act platform cloud action = some after) {notice : Document}
    (carried : notice ∈ after.lookups) :
    notice ∈ client.lookups ∨ notice ∈ client.noticesRead cloud action := by
  obtain ⟨pending, member, holds⟩ := List.mem_flatMap.mp carried
  cases act_pending acted member with
  | kept before => exact Or.inl (List.mem_flatMap.mpr ⟨pending, before, holds⟩)
  | answered index callback step waiting =>
    cases callback with
    | deleterLookup receiver =>
      refine Or.inr ?_
      rw [step, noticesRead, waiting]
      exact holds
    | _ => exact absurd holds List.not_mem_nil
  | failed callback before => cases callback <;> exact absurd holds List.not_mem_nil
  | pressed callback pressed => cases pressed <;> exact absurd holds List.not_mem_nil
  | filtering => exact absurd holds List.not_mem_nil
  | lookup => exact absurd holds List.not_mem_nil
  | refresh => exact absurd holds List.not_mem_nil
  | removal => exact absurd holds List.not_mem_nil

/-- A post an action reads is one the client is shown. -/
theorem mem_postsRead {cloud : Cloud} {client : Client} {action : Action} {document : Document}
    (isRead : document ∈ client.postsRead cloud action) : document ∈ client.localView cloud .posts := by
  unfold postsRead at isRead
  split at isRead
  · split at isRead
    · exact mem_read isRead
    · exact absurd isRead List.not_mem_nil
  · exact absurd isRead List.not_mem_nil

/-- A notice an action reads is one the client is shown. -/
theorem mem_noticesRead {cloud : Cloud} {client : Client} {action : Action} {notice : Document}
    (isRead : notice ∈ client.noticesRead cloud action) : notice ∈ client.localView cloud .deleter := by
  unfold noticesRead at isRead
  split at isRead
  · split at isRead
    · exact mem_read isRead
    · exact absurd isRead List.not_mem_nil
  · exact absurd isRead List.not_mem_nil

end Client

namespace World

variable {ι : Type*}

/-- The board a world is. -/
def board (world : World ι) : NoticeBoard.Board String where
  live := {key | key ∈ postIds world.cloud}
  notice := {key | named (world.cloud .deleter) key = true}
  carried := {key | ∃ client, named (world.clients client).lookups key = true}
  copies := {key | ∃ client, key ∈ (world.clients client).copies}
  retracting := {key | ∃ client, .delete key ∈ (world.clients client).outbox}

/-- The posts an event writes to the cloud. -/
def postsCommitted (world : World ι) (event : Event ι) : List String :=
  match event.2, (world.clients event.1).outbox with
  | .commit _, .setData .posts document _ :: _ => [document]
  | _, _ => []

/-- The notices an event puts on the board. -/
def noticesCommitted (world : World ι) (event : Event ι) : List Document :=
  match event.2, (world.clients event.1).outbox with
  | .commit time, .setData .deleter document json :: _ => [⟨document, resolve (.committed time) json⟩]
  | _, _ => []

/-- The posts whose delete an event drops. -/
def deletesRejected (world : World ι) (event : Event ι) : List String :=
  match event.2, (world.clients event.1).outbox with
  | .reject, .delete docId :: _ => [docId]
  | _, _ => []

/-- The documents an event answers a sync's query with. -/
def postsRead (world : World ι) (event : Event ι) : List Document :=
  (world.clients event.1).postsRead world.cloud event.2

/-- The notices an event answers a lookup with. -/
def noticesRead (world : World ι) (event : Event ι) : List Document :=
  (world.clients event.1).noticesRead world.cloud event.2

/-- What a step of the world is to the board. -/
inductive BoardMove (world : World ι) (event : Event ι) (next : World ι) : Prop
  | works (works : NoticeBoard.Works {key | named (world.noticesRead event) key = true}
      {key | key ∈ (world.postsRead event).map Document.documentID} world.board next.board) :
      BoardMove world event next
  | publishes (key : String) (committed : key ∈ world.postsCommitted event)
      (publishes : NoticeBoard.Publishes {key} world.board next.board) : BoardMove world event next
  | retracts (key : String) (committed : key ∈ world.deletesCommitted event)
      (retracts : NoticeBoard.Retracts {key} world.board next.board) : BoardMove world event next
  | announces (notice : Document) (committed : notice ∈ world.noticesCommitted event)
      (announces : NoticeBoard.Announces {key | named [notice] key = true} world.board next.board) :
      BoardMove world event next
  | abandons (key : String) (rejected : key ∈ world.deletesRejected event)
      (abandons : NoticeBoard.Abandons {key} world.board next.board) : BoardMove world event next

variable [DecidableEq ι]

/-- A queue that moves on leaves what clients carry and copy as it was, and
loses its head only. -/
theorem drained_board {world next : World ι} {client : ι} {write : Write} {rest : List Write}
    (queued : (world.clients client).outbox = write :: rest)
    (clients : next.clients =
      Function.update world.clients client ((world.clients client).settle rest)) :
    NoticeBoard.Idle world.board next.board ∧
      ∀ key, key ∈ world.board.retracting → write ≠ .delete key → key ∈ next.board.retracting := by
  have others (property : Client → Prop) (same : property ((world.clients client).settle rest) ↔
      property (world.clients client)) (other : ι) :
      property (next.clients other) ↔ property (world.clients other) := by
    rw [clients]
    by_cases isClient : other = client
    · subst isClient
      rw [Function.update_self]
      exact same
    · rw [Function.update_of_ne isClient]
  refine ⟨⟨?_, ?_⟩, ?_⟩
  · ext key
    exact exists_congr (others (fun client => named client.lookups key = true) Iff.rfl)
  · ext key
    exact exists_congr (others (fun client => key ∈ client.copies) Iff.rfl)
  · rintro key ⟨other, isQueued⟩ different
    refine ⟨other, ?_⟩
    rw [clients]
    by_cases isClient : other = client
    · subst isClient
      rw [Function.update_self]
      rw [queued] at isQueued
      exact (List.mem_cons.mp isQueued).resolve_left (Ne.symm different)
    · rw [Function.update_of_ne isClient]
      exact isQueued

/-- A committed delete retracts its post. -/
theorem delete_board {world next : World ι} {client : ι} {time : Timestamp} {docId : String}
    {rest : List Write} (queued : (world.clients client).outbox = .delete docId :: rest)
    (clients : next.clients =
      Function.update world.clients client ((world.clients client).settle rest))
    (cloud : next.cloud = (Write.delete docId).commit time world.cloud) :
    BoardMove world (client, .commit time) next := by
  obtain ⟨idle, retracting⟩ := drained_board queued clients
  refine .retracts docId (by simp [deletesCommitted, queued]) ⟨idle, ?_, ?_, ?_⟩
  · ext key
    rw [board, board, cloud]
    exact mem_postIds_delete
  · simp only [board, cloud, commit_delete_other time _ .deleter docId (by decide)]
  · rintro key ⟨isQueued, different⟩
    refine retracting key isQueued ?_
    rintro isHead
    cases isHead
    exact different rfl

/-- After a commit the board names what the new notice names, and nothing else it did not
name before. -/
theorem named_setData {time : Timestamp} {cloud : Cloud} {document : String} {json : Json}
    {key : String} :
    (named [⟨document, resolve (.committed time) json⟩] key = true →
      named ((Write.setData .deleter document json).commit time cloud .deleter) key = true) ∧
    (named ((Write.setData .deleter document json).commit time cloud .deleter) key = true →
      named (cloud .deleter) key = true ∨
        named [⟨document, resolve (.committed time) json⟩] key = true) := by
  simp only [named_iff]
  constructor
  · rintro ⟨notice, isNew, facts⟩
    exact ⟨notice, mem_commit_setData.mpr (Or.inr (List.mem_singleton.mp isNew)), facts⟩
  · rintro ⟨notice, stored, facts⟩
    obtain ⟨older, _⟩ | isNew := mem_commit_setData.mp stored
    · exact Or.inl ⟨notice, older, facts⟩
    · exact Or.inr ⟨notice, List.mem_singleton.mpr isNew, facts⟩

/-- A committed document publishes a post, announces a notice, or is of no concern. -/
theorem setData_board {world next : World ι} {client : ι} {time : Timestamp}
    {collection : CollectionName} {document : String} {json : Json} {rest : List Write}
    (queued : (world.clients client).outbox = .setData collection document json :: rest)
    (clients : next.clients =
      Function.update world.clients client ((world.clients client).settle rest))
    (cloud : next.cloud = (Write.setData collection document json).commit time world.cloud) :
    BoardMove world (client, .commit time) next := by
  obtain ⟨idle, retracting⟩ := drained_board queued clients
  have kept : world.board.retracting ⊆ next.board.retracting :=
    fun key isQueued => retracting key isQueued (by simp)
  have live (notPosts : collection ≠ .posts) : next.board.live = world.board.live := by
    simp only [board, postIds, cloud,
      commit_setData_other time _ collection .posts document json (Ne.symm notPosts)]
  have notice (notDeleter : collection ≠ .deleter) : next.board.notice = world.board.notice := by
    simp only [board, cloud,
      commit_setData_other time _ collection .deleter document json (Ne.symm notDeleter)]
  by_cases isPosts : collection = .posts
  · subst isPosts
    refine .publishes document (by simp [postsCommitted, queued]) ⟨idle, ?_, notice (by decide), kept⟩
    ext key
    rw [board, board, cloud]
    exact mem_postIds_setData
  · by_cases isDeleter : collection = .deleter
    · subst isDeleter
      refine .announces ⟨document, resolve (.committed time) json⟩ (by simp [noticesCommitted, queued])
        ⟨idle, live isPosts, ?_, ?_, kept⟩
      · intro key isNamed
        rw [board, cloud]
        exact named_setData.1 isNamed
      · intro key isNamed
        rw [board, cloud] at isNamed
        exact named_setData.2 isNamed
    · refine .works ⟨live isPosts, notice isDeleter, ?_, ?_, kept⟩
      · rw [idle.carried]
        exact Set.subset_union_left
      · rw [idle.copies]
        exact Set.subset_union_left

/-- A commit is a move of the board. -/
theorem commit_board {world next : World ι} {client : ι} {time : Timestamp} {write : Write}
    {rest : List Write} (queued : (world.clients client).outbox = write :: rest)
    (clients : next.clients =
      Function.update world.clients client ((world.clients client).settle rest))
    (cloud : next.cloud = write.commit time world.cloud) :
    BoardMove world (client, .commit time) next := by
  cases write with
  | delete docId => exact delete_board queued clients cloud
  | setData collection document json => exact setData_board queued clients cloud

/-- A rejected write is a move of the board. -/
theorem reject_board {world next : World ι} {client : ι} {write : Write} {rest : List Write}
    (queued : (world.clients client).outbox = write :: rest)
    (clients : next.clients =
      Function.update world.clients client ((world.clients client).settle rest))
    (cloud : next.cloud = world.cloud) : BoardMove world (client, .reject) next := by
  obtain ⟨idle, retracting⟩ := drained_board queued clients
  have live : next.board.live = world.board.live := by simp only [board, cloud]
  have notice : next.board.notice = world.board.notice := by simp only [board, cloud]
  cases write with
  | delete docId =>
    refine .abandons docId (by simp [deletesRejected, queued]) ⟨idle, live, notice, ?_⟩
    rintro key ⟨isQueued, different⟩
    refine retracting key isQueued ?_
    rintro isHead
    cases isHead
    exact different rfl
  | setData collection document json =>
    refine .works ⟨live, notice, ?_, ?_, fun key isQueued => retracting key isQueued (by simp)⟩
    · rw [idle.carried]
      exact Set.subset_union_left
    · rw [idle.copies]
      exact Set.subset_union_left

/-- A step of a client that leaves its queue's head alone is the work of replicas. -/
theorem works_board {platform : Platform} {world next : World ι} {event : Event ι} (sound : world.Sound)
    (stepped : world.step platform event = some next) (noCommit : ∀ time, event.2 ≠ .commit time)
    (noReject : event.2 ≠ .reject) : BoardMove world event next := by
  obtain ⟨_, _, _, cloudAfter, _, _⟩ := step_inv stepped
  have cloud : next.cloud = world.cloud := by
    obtain same | ⟨time, _, _, isCommit, _⟩ := world.cloudAfter_cases event
    · rw [cloudAfter, same]
    · exact absurd isCommit (noCommit time)
  refine .works ⟨by simp only [board, cloud], by simp only [board, cloud], ?_, ?_, ?_⟩
  · rintro key ⟨client, isNamed⟩
    obtain same | ⟨rfl, acted⟩ := client_after stepped client
    · exact Or.inl ⟨client, same ▸ isNamed⟩
    · obtain ⟨notice, member, facts⟩ := (named_iff _ _).mp isNamed
      obtain older | isRead := Client.act_lookups acted member
      · exact Or.inl ⟨_, (named_iff _ _).mpr ⟨notice, older, facts⟩⟩
      · exact Or.inr ((named_iff _ _).mpr ⟨notice, isRead, facts⟩)
  · rintro key ⟨client, copied⟩
    obtain same | ⟨rfl, acted⟩ := client_after stepped client
    · exact Or.inl ⟨client, same ▸ copied⟩
    · obtain older | isRead := Client.act_copies (sound.clients _) sound.plain acted copied
      · exact Or.inl ⟨_, older⟩
      · exact Or.inr isRead
  · rintro key ⟨client, isQueued⟩
    refine ⟨client, ?_⟩
    obtain same | ⟨rfl, acted⟩ := client_after stepped client
    · exact same ▸ isQueued
    · obtain kept | ⟨⟨time, isCommit⟩ | isReject, _⟩ := Client.act_outbox_kept acted isQueued
      · exact kept
      · exact absurd isCommit (noCommit time)
      · exact absurd isReject noReject

/-- Every step of a sound world is a move of the board. -/
theorem step_board {platform : Platform} {world next : World ι} {event : Event ι} (sound : world.Sound)
    (stepped : world.step platform event = some next) : BoardMove world event next := by
  obtain ⟨client, action⟩ := event
  obtain ⟨_, changed, acted, cloud, clients, _⟩ := step_inv stepped
  cases action with
  | commit time =>
    cases queued : (world.clients client).outbox with
    | nil => simp [Client.act, queued] at acted
    | cons write rest =>
      simp only [Client.act, queued, Option.some.injEq] at acted
      simp only [cloudAfter, queued] at cloud
      exact commit_board queued (acted ▸ clients) cloud
  | reject =>
    cases queued : (world.clients client).outbox with
    | nil => simp [Client.act, queued] at acted
    | cons write rest =>
      simp only [Client.act, queued, Option.some.injEq] at acted
      simp only [cloudAfter] at cloud
      exact reject_board queued (acted ▸ clients) cloud
  | _ => exact works_board sound stepped (by simp) (by simp)

end World

/-- The announced id of a notice is generated. -/
def PlainNotice (notice : Document) : Prop :=
  ∀ postIds, notice.data.string "idPost" = some postIds → generated postIds = true

namespace World

variable {ι : Type*}

/-- Every notice on the board, queued or carried announces a generated id. -/
structure PlainNotices (world : World ι) : Prop where
  board : ∀ notice ∈ world.cloud .deleter, PlainNotice notice
  queued : ∀ client document json, .setData .deleter document json ∈ (world.clients client).outbox →
    ∀ stamp, PlainNotice ⟨document, resolve stamp json⟩
  carried : ∀ client, ∀ notice ∈ (world.clients client).lookups, PlainNotice notice

/-- At the start there are no notices. -/
theorem plainNotices_init : (init ι).PlainNotices := by
  constructor <;> simp [init, Client.lookups]

variable [DecidableEq ι]

/-- One step keeps the notices plain. -/
theorem PlainNotices.step {platform : Platform} {world next : World ι} {event : Event ι}
    (sound : world.Sound) (plain : world.PlainNotices)
    (stepped : world.step platform event = some next) : next.PlainNotices where
  board := by
    intro notice member
    obtain older | ⟨time, document, json, rest, _, queued, rfl⟩ := stored_after stepped member
    · exact plain.board notice older
    · apply plain.queued event.1 document json ?_ (.committed time)
      rw [queued]
      exact List.mem_cons_self
  queued := by
    intro client document json member stamp
    obtain same | ⟨rfl, acted⟩ := client_after stepped client
    · exact plain.queued client document json (same ▸ member) stamp
    · generalize isWrite : Write.setData .deleter document json = write at member
      cases Client.act_outbox acted member with
      | kept before => exact plain.queued _ document json (isWrite ▸ before) stamp
      | pressed pressed => cases pressed <;> simp [User.write] at isWrite
      | posted => simp [Post.write] at isWrite
      | announced documents source postIds before isSource carries =>
        cases isWrite
        intro announced isAnnounced
        have lookup := (resolve_string stamp _ "idPost" announced).mp isAnnounced
        have same : postIds = announced := by simpa [List.lookup_cons] using lookup
        have posts := (sound.clients event.1).held _ before
        have isKey : postIds = source.documentID := Option.some.inj
          (carries.symm.trans (posts.keyed source isSource).postId)
        rw [← same, isKey]
        exact sound.plain _ (posts.known source isSource)
      | removed => simp at isWrite
  carried := by
    intro client notice member
    obtain same | ⟨rfl, acted⟩ := client_after stepped client
    · exact plain.carried client notice (same ▸ member)
    · obtain older | isRead := Client.act_lookups acted member
      · exact plain.carried _ notice older
      · exact Client.localView_forall plain.board (plain.queued _) notice (Client.mem_noticesRead isRead)

end World

end Amigo
