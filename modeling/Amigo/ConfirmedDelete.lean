import Amigo.OwnDelete
import Amigo.Selection
import Amigo.SoloSync
import Amigo.TableScreen

/-!
# One confirmed delete on its own

A confirmed delete reads all posts, announces the selected one when it is there, and
then looks for it a second time: in the posts from the device's cursor on, in the city
the device is shown by then, its own queued selection before the committed one. Only when this second search finds it are the row and the
document removed. The announcement is not taken back.

Beside the delete only city selections happen, by any client. No write of a delete
touches the cities and no selection touches anything else, so what the delete has
written by some moment is a front part of what it issued, and the rest is queued.
-/

namespace Amigo

/-- The write a delete announces its post with. -/
def announcement (postIds : String) : Write :=
  .setData .deleter "Post" [("idPost", .value (.string postIds))]

/-- The write only touches the selected city. -/
def Write.selects (write : Write) : Bool := decide (write.collection = .cities)

/-- The queued writes that are no selections. -/
def Client.own (client : Client) : List Write := client.outbox.filter (fun write => !write.selects)

/-- Writes committed one after the other. -/
def commitAll (cloud : Cloud) (commits : List (Timestamp × Write)) : Cloud :=
  commits.foldl (fun current commit => commit.2.commit commit.1 current) cloud

/-- Commits of writes to other collections leave a collection as it was. -/
theorem commitAll_other {collection : CollectionName} {commits : List (Timestamp × Write)}
    (cloud : Cloud) (others : ∀ write ∈ commits.map Prod.snd, collection ≠ write.collection) :
    commitAll cloud commits collection = cloud collection := by
  induction commits generalizing cloud with
  | nil => rfl
  | cons commit rest inductionHypothesis =>
    simp only [List.map_cons, List.mem_cons, forall_eq_or_imp] at others
    exact (inductionHypothesis _ others.2).trans (commit_other commit.1 cloud others.1)

namespace World

variable {ι : Type*}

/-- The notice board names exactly this post. -/
def Names (cloud : Cloud) (docId : String) : Prop :=
  ∃ notice ∈ cloud .deleter, notice.documentID = "Post" ∧
    notice.data.string "idPost" = some docId

/-- Nothing is left of the post, and its removal is announced. -/
structure AllOrNothing (world : World ι) (client : ι) (docId : String) : Prop where
  document : docId ∉ postIds world.cloud
  row : world.NoRow client docId
  announced : Names world.cloud docId
  consistent : ¬ (Names world.cloud docId ∧ docId ∈ postIds world.cloud)

/-- The client has asked no read, and has only selections queued. -/
def Idle (world : World ι) (client : ι) : Prop :=
  (world.clients client).pending = [] ∧ (world.clients client).own = []

/-- The writes of a client, in their order: a front part of them has been committed, over
collections that nobody else changed but for the cities, and the rest is queued. -/
def Underway (client : ι) (start : Cloud) (writes : List Write) (world : World ι) : Prop :=
  ∃ done : List (Timestamp × Write), writes = done.map Prod.snd ++ (world.clients client).own ∧
    ∀ collection, collection ≠ .cities → world.cloud collection = commitAll start done collection

/-- A collection none of the writes touches is as it was. -/
theorem Underway.untouched {client : ι} {start : Cloud} {writes : List Write} {world : World ι}
    (underway : Underway client start writes world) {collection : CollectionName}
    (noCity : collection ≠ .cities) (others : ∀ write ∈ writes, collection ≠ write.collection) :
    world.cloud collection = start collection := by
  obtain ⟨done, same, kept⟩ := underway
  rw [kept collection noCity]
  refine commitAll_other start (fun write member => others write ?_)
  rw [same]
  exact List.mem_append_left _ member

/-- Such a collection is shown to the client as it was. -/
theorem Underway.shown {client : ι} {start : Cloud} {writes : List Write} {world : World ι}
    (underway : Underway client start writes world) {collection : CollectionName}
    (noCity : collection ≠ .cities) (others : ∀ write ∈ writes, collection ≠ write.collection) :
    (world.clients client).localView world.cloud collection = start collection := by
  rw [← underway.untouched noCity others]
  apply Client.localView_other
  intro write queued
  by_cases selects : write.selects = true
  · have isCities : write.collection = .cities := of_decide_eq_true selects
    exact isCities ▸ noCity
  · obtain ⟨done, same, _⟩ := underway
    apply others
    rw [same]
    exact List.mem_append_right _ (List.mem_filter.mpr ⟨queued, by simpa using selects⟩)

/-- Where neither the queue nor the cloud changed, nothing did. -/
theorem Underway.of_same {client : ι} {start : Cloud} {writes : List Write} {world next : World ι}
    (underway : Underway client start writes world) (cloud : next.cloud = world.cloud)
    (queued : (next.clients client).outbox = (world.clients client).outbox) :
    Underway client start writes next := by
  obtain ⟨done, same, kept⟩ := underway
  refine ⟨done, ?_, cloud ▸ kept⟩
  rw [same, Client.own, Client.own, queued]

/-- Issued writes are queued behind the others. -/
theorem Underway.issued {client : ι} {start : Cloud} {writes new : List Write} {world next : World ι}
    (underway : Underway client start writes world) (cloud : next.cloud = world.cloud)
    (queued : (next.clients client).outbox = (world.clients client).outbox ++ new)
    (own : ∀ write ∈ new, write.selects = false) : Underway client start (writes ++ new) next := by
  obtain ⟨done, same, kept⟩ := underway
  refine ⟨done, ?_, ?_⟩
  · have all : new.filter (fun write => !write.selects) = new := by
      rw [List.filter_eq_self]
      intro write member
      simp [own write member]
    rw [same, Client.own, Client.own, queued, List.filter_append, all, List.append_assoc]
  · rw [cloud]
    exact kept

/-- The commit of a selection leaves everything but the cities as it was. -/
theorem Underway.selected {client : ι} {start : Cloud} {writes : List Write} {world next : World ι}
    {time : Timestamp} {write : Write} (underway : Underway client start writes world)
    (selects : write.selects = true) (own : (next.clients client).own = (world.clients client).own)
    (cloud : next.cloud = write.commit time world.cloud) : Underway client start writes next := by
  obtain ⟨done, same, kept⟩ := underway
  refine ⟨done, own ▸ same, ?_⟩
  intro collection noCity
  have isCities : write.collection = .cities := of_decide_eq_true selects
  rw [cloud, commit_other time world.cloud (isCities ▸ noCity)]
  exact kept collection noCity

/-- The commit of an own write moves it from the queue to the committed ones. -/
theorem Underway.committed {client : ι} {start : Cloud} {writes : List Write} {world next : World ι}
    {time : Timestamp} {write : Write} (underway : Underway client start writes world)
    (own : (world.clients client).own = write :: (next.clients client).own)
    (cloud : next.cloud = write.commit time world.cloud) : Underway client start writes next := by
  obtain ⟨done, same, kept⟩ := underway
  refine ⟨done ++ [(time, write)], ?_, ?_⟩
  · rw [same, own]
    simp
  · intro collection noCity
    rw [cloud, commit_congr write time (kept collection noCity)]
    simp [commitAll]

/-- The posts a delete's second search fetches. -/
def refetched (start : World ι) (client : ι) : List Document :=
  getDocumentsSince (start.clients client).lastUpdateDate (start.cloud .posts)

/-- What a client keeps while a delete only reads. -/
structure Alike (start client : Client) : Prop where
  rows : client.postAmigo = start.postAmigo
  city : client.firebaseCity = start.firebaseCity
  dates : client.dates = start.dates
  selected : client.selected = start.selected

/-- A delete that has not read the city of its second search: it is looking for the post,
has announced it and fetches the posts again, or asks the city. -/
inductive Early (start : World ι) (client : ι) (docId : String) (world : World ι) : Prop
  | confirming (answer : Option Answer)
      (isRead : answer = none ∨ answer = some (.snapshot (getDocuments (start.cloud .posts))))
      (pending : (world.clients client).pending = [⟨.confirmedDelete, answer⟩])
      (alike : Alike (start.clients client) (world.clients client))
      (underway : Underway client start.cloud [] world) : Early start client docId world
  | fetching (answer : Option Answer)
      (isRead : answer = none ∨ answer = some (.snapshot (refetched start client)))
      (pending : (world.clients client).pending =
        [⟨.fetchPosts (start.clients client).lastUpdateDate (.delete docId), answer⟩])
      (alike : Alike (start.clients client) (world.clients client))
      (underway : Underway client start.cloud [announcement docId] world) :
      Early start client docId world
  | filtering
      (pending : (world.clients client).pending =
        [⟨.fetchCities (refetched start client) (.delete docId), none⟩])
      (alike : Alike (start.clients client) (world.clients client))
      (underway : Underway client start.cloud [announcement docId] world) :
      Early start client docId world

/-- The second search finds the post in a city. -/
def FoundIn (platform : Platform) (start : World ι) (client : ι) (docId : String)
    (city : Option String) : Prop :=
  ∃ document ∈ start.cloud .posts, document.documentID = docId ∧
    updatedSince (start.clients client).lastUpdateDate document = true ∧
    ofCity platform city document = true

/-- A delete whose second search has read its city: it still filters, or has removed the
post, or has missed it. -/
inductive Late (platform : Platform) (start : World ι) (client : ι) (docId : String)
    (city : Option String) (world : World ι) : Prop
  | filtering (cities : List Document)
      (titled : lastTitle (start.clients client).firebaseCity cities = city)
      (pending : (world.clients client).pending =
        [⟨.fetchCities (refetched start client) (.delete docId), some (.snapshot cities)⟩])
      (alike : Alike (start.clients client) (world.clients client))
      (underway : Underway client start.cloud [announcement docId] world) :
      Late platform start client docId city world
  | removed (found : FoundIn platform start client docId city) (pending : (world.clients client).pending = [])
      (rows : ∃ post, (world.clients client).postAmigo =
        deleteFromDb platform post docId (start.clients client).postAmigo)
      (underway : Underway client start.cloud [announcement docId, .delete docId] world) :
      Late platform start client docId city world
  | missed (missing : ¬ FoundIn platform start client docId city)
      (pending : (world.clients client).pending = [])
      (underway : Underway client start.cloud [announcement docId] world) :
      Late platform start client docId city world

/-- The step answers the cities read of the delete's second search, which gives this city. -/
def ReadsCity (client : ι) (docId : String) (world : World ι) (event : Event ι)
    (city : Option String) : Prop :=
  ∃ (index : Nat) (snapshot : List Document), event = (client, .answer index) ∧
    (world.clients client).pending[index]? = some ⟨.fetchCities snapshot (.delete docId), none⟩ ∧
    lastTitle (world.clients client).firebaseCity
      (getDocuments ((world.clients client).localView world.cloud .cities)) = city

/-- The filter of the second search keeps the post exactly when its document is in the
snapshot and of the city. -/
theorem foundIn_iff {platform : Platform} {start : World ι} (sound : start.Sound) {client : ι}
    {docId : String} {city : Option String} {data : List Post}
    (matched : matchingPosts platform city (refetched start client) = some data) :
    (data.find? (fun post => post.postId == docId)).isSome = true ↔
      FoundIn platform start client docId city := by
  rw [List.find?_isSome]
  constructor
  · rintro ⟨post, member, same⟩
    obtain ⟨document, inSnapshot, decoded, titled⟩ := Client.matchingPosts_origin matched member
    obtain ⟨stored, updated⟩ := mem_getDocumentsSince.mp inSnapshot
    obtain ⟨_, hasTitle, hasPostId⟩ := initJson_fields decoded
    have isKey : document.documentID = docId := by
      have carried := (sound.posts.keyed document stored).postId
      rw [hasPostId, Option.some.injEq] at carried
      rw [← carried]
      exact eq_of_beq same
    exact ⟨document, stored, isKey, updated, (ofCity_iff ..).mpr ⟨post.title, hasTitle, titled⟩⟩
  · rintro ⟨document, stored, isKey, updated, isOf⟩
    obtain ⟨post, decoded, id, keyed⟩ := (sound.posts.keyed document stored).decodes
    have inSnapshot : document ∈ refetched start client :=
      mem_getDocumentsSince.mpr ⟨stored, updated⟩
    have sameTitle : platform.isCity city post.title = true := ofCity_title isOf decoded
    have carried : post.postId = docId := (show post.postId = post.id from keyed).trans (id.trans isKey)
    exact ⟨post, Client.matchingPosts_complete matched inSnapshot decoded sameTitle, by simp [carried]⟩

/-- The second search's filter does not trap. -/
theorem refetched_matched (platform : Platform) {start : World ι} (sound : start.Sound) (client : ι)
    (city : Option String) : ∃ data, matchingPosts platform city (refetched start client) = some data :=
  Client.matchingPosts_isSome platform city (fun document member =>
    sound.posts.keyed document (mem_getDocumentsSince.mp member).1)

/-- The announcement of a post is no write to the posts. -/
theorem announcement_other {docId : String} : ∀ write ∈ [announcement docId],
    CollectionName.posts ≠ write.collection := by
  intro write member
  rw [List.mem_singleton.mp member]
  simp [announcement, Write.collection]

/-- An announcement leaves the posts as they were. -/
theorem Underway.posts {client : ι} {start : Cloud} {docId : String} {world : World ι}
    (underway : Underway client start [announcement docId] world) :
    world.cloud .posts = start .posts := underway.untouched (by decide) announcement_other

/-- The second search reads no city while the only read it waits for is another one. -/
theorem not_readsCity {client : ι} {docId : String} {world : World ι} {event : Event ι}
    {callback : Callback} {answer : Option Answer}
    (pending : (world.clients client).pending = [⟨callback, answer⟩])
    (other : answer ≠ none ∨ ∀ snapshot, callback ≠ .fetchCities snapshot (.delete docId))
    (city : Option String) : ¬ ReadsCity client docId world event city := by
  rintro ⟨index, snapshot, _, waiting, _⟩
  obtain ⟨_, same⟩ := Client.ready_singleton (pending ▸ waiting)
  cases same
  obtain answered | different := other
  · exact answered rfl
  · exact different snapshot rfl

/-- The loop over all posts reaches a post that is there. -/
theorem finds_present {start : World ι} (sound : start.Sound) {docId : String}
    (present : docId ∈ postIds start.cloud) {client : Client}
    (chosen : client.selected.map Post.postId = some docId) :
    client.Finds (getDocuments (start.cloud .posts)) docId := by
  obtain ⟨document, stored, isKey⟩ := List.mem_map.mp present
  have all : Client.readable (getDocuments (start.cloud .posts)) = getDocuments (start.cloud .posts) := by
    rw [Client.readable, List.takeWhile_eq_self_iff]
    intro other member
    rw [(sound.posts.keyed other (mem_getDocuments.mp member)).postId]
    rfl
  refine ⟨chosen, document, by rw [all]; exact mem_getDocuments.mpr stored, ?_⟩
  rw [(sound.posts.keyed document stored).postId, isKey]

/-- Answering a read of a delete. -/
theorem Early.answer {platform : Platform} {start world next : World ι} {client : ι} {docId : String}
    {index : Nat} {callback : Callback} (early : Early start client docId world)
    (waiting : (world.clients client).pending[index]? = some ⟨callback, none⟩)
    (same : next.clients client = { world.clients client with
      pending := (world.clients client).pending.set index
        ⟨callback, some (.snapshot (callback.read ((world.clients client).localView world.cloud)))⟩ })
    (cloud : next.cloud = world.cloud) :
    (Early start client docId next ∧
        ∀ city, ¬ ReadsCity client docId world (client, .answer index) city) ∨
      ∃ city, ReadsCity client docId world (client, .answer index) city ∧
        Late platform start client docId city next := by
  have queued : (next.clients client).outbox = (world.clients client).outbox := by rw [same]
  have stays (alike : Alike (start.clients client) (world.clients client)) :
      Alike (start.clients client) (next.clients client) := by
    rw [same]
    exact ⟨alike.rows, alike.city, alike.dates, alike.selected⟩
  cases early with
  | confirming answer isRead pending alike underway =>
    obtain ⟨rfl, isFirst⟩ := Client.ready_singleton (pending ▸ waiting)
    cases isFirst
    have posts : (world.clients client).localView world.cloud .posts = start.cloud .posts :=
      underway.shown (by decide) (by simp)
    have answered : (next.clients client).pending =
        [⟨.confirmedDelete, some (.snapshot (getDocuments (start.cloud .posts)))⟩] := by
      rw [same, ← posts, pending]
      rfl
    exact Or.inl ⟨.confirming _ (Or.inr rfl) answered (stays alike) (underway.of_same cloud queued),
      not_readsCity pending (Or.inr (by simp))⟩
  | fetching answer isRead pending alike underway =>
    obtain ⟨rfl, isFirst⟩ := Client.ready_singleton (pending ▸ waiting)
    cases isFirst
    have answered : (next.clients client).pending =
        [⟨.fetchPosts (start.clients client).lastUpdateDate (.delete docId),
          some (.snapshot (refetched start client))⟩] := by
      rw [same, refetched, ← underway.shown (by decide) announcement_other, pending]
      rfl
    exact Or.inl ⟨.fetching _ (Or.inr rfl) answered (stays alike) (underway.of_same cloud queued),
      not_readsCity pending (Or.inr (by simp))⟩
  | filtering pending alike underway =>
    obtain ⟨rfl, isFirst⟩ := Client.ready_singleton (pending ▸ waiting)
    cases isFirst
    refine Or.inr ⟨_, ⟨0, _, rfl, by rw [pending]; rfl, rfl⟩, ?_⟩
    refine .filtering (getDocuments ((world.clients client).localView world.cloud .cities))
      (by rw [alike.city]) ?_ (stays alike) (underway.of_same cloud queued)
    rw [same, pending]
    rfl

/-- Delivering a read of a delete before its city is asked. -/
theorem Early.deliver {platform : Platform} {start world next : World ι} {client : ι} {docId : String}
    {index : Nat} {callback : Callback} {answer : Answer} (early : Early start client docId world)
    (sound : start.Sound) (present : docId ∈ postIds start.cloud)
    (chosen : (start.clients client).selected.map Post.postId = some docId)
    (ready : (world.clients client).pending[index]? = some ⟨callback, some answer⟩)
    (same : next.clients client = ({ world.clients client with
      pending := (world.clients client).pending.eraseIdx index } : Client).answered platform callback
        answer)
    (cloud : next.cloud = world.cloud) : Early start client docId next := by
  cases early with
  | confirming waiting isRead pending alike underway =>
    obtain ⟨rfl, isFirst⟩ := Client.ready_singleton (pending ▸ ready)
    cases isFirst
    obtain none | isAnswer := isRead
    · simp at none
    · cases Option.some.inj isAnswer
      have erased : (world.clients client).pending.eraseIdx 0 = [] := by
        rw [pending, List.eraseIdx_cons_zero]
      have announced : next.clients client = { world.clients client with
          pending := [⟨.fetchPosts (start.clients client).lastUpdateDate (.delete docId), none⟩]
          outbox := (world.clients client).outbox ++ [announcement docId] } := by
        have finds : ({ world.clients client with pending := [] } : Client).Finds
            (getDocuments (start.cloud .posts)) docId :=
          finds_present sound present ((congrArg _ alike.selected).trans chosen)
        rw [same, erased]
        simp only [Client.answered, Client.onSnapshot]
        rw [Client.deleteConfirmed_found finds, Client.announce, Client.deleteAPosts,
          Client.lastUpdateDate, Client.lastUpdateDate, Client.enqueue, Client.ask, ← alike.dates]
        rfl
      refine .fetching none (Or.inl rfl) (by rw [announced]) ?_ ?_
      · rw [announced]
        exact ⟨alike.rows, alike.city, alike.dates, alike.selected⟩
      · refine underway.issued cloud (by rw [announced]) ?_
        intro write member
        rw [List.mem_singleton.mp member]
        simp [announcement, Write.selects, Write.collection]
  | fetching waiting isRead pending alike underway =>
    obtain ⟨rfl, isFirst⟩ := Client.ready_singleton (pending ▸ ready)
    cases isFirst
    obtain none | isAnswer := isRead
    · simp at none
    · cases Option.some.inj isAnswer
      have asked : next.clients client = { world.clients client with
          pending := [⟨.fetchCities (refetched start client) (.delete docId), none⟩] } := by
        rw [same]
        simp [Client.answered, Client.postsAnswered, Client.ask, pending]
      refine .filtering (by rw [asked]) ?_ (underway.of_same cloud (by rw [asked]))
      rw [asked]
      exact ⟨alike.rows, alike.city, alike.dates, alike.selected⟩
  | filtering pending =>
    obtain ⟨_, isFirst⟩ := Client.ready_singleton (pending ▸ ready)
    cases isFirst

/-- Delivering the cities read of the second search. -/
theorem Late.deliver {platform : Platform} {start world next : World ι} {client : ι} {docId : String}
    {city : Option String} {index : Nat} {callback : Callback} {answer : Answer}
    (late : Late platform start client docId city world) (sound : start.Sound)
    (ready : (world.clients client).pending[index]? = some ⟨callback, some answer⟩)
    (same : next.clients client = ({ world.clients client with
      pending := (world.clients client).pending.eraseIdx index } : Client).answered platform callback
        answer)
    (cloud : next.cloud = world.cloud) : Late platform start client docId city next := by
  cases late with
  | filtering cities titled pending alike underway =>
    obtain ⟨rfl, isFirst⟩ := Client.ready_singleton (pending ▸ ready)
    cases isFirst
    have erased : (world.clients client).pending.eraseIdx 0 = [] := by
      rw [pending, List.eraseIdx_cons_zero]
    obtain ⟨data, matched⟩ := refetched_matched platform sound client city
    have filtered : next.clients client = ({ world.clients client with
        pending := [], firebaseCity := city } : Client).removePost platform docId data := by
      rw [same, erased]
      have sameCity : lastTitle (world.clients client).firebaseCity cities = city := by
        rw [alike.city, titled]
      simp only [Client.answered, Client.citiesAnswered, Client.cityRead, sameCity, matched,
        Client.afterFetch]
    cases found : data.find? (fun post => post.postId == docId) with
    | some post =>
      have isKey : post.postId = docId := by simpa using List.find?_some found
      have removes : next.clients client = { world.clients client with
          pending := []
          firebaseCity := city
          postAmigo := deleteFromDb platform post docId (world.clients client).postAmigo
          outbox := (world.clients client).outbox ++ [.delete docId] } := by
        rw [filtered, Client.removePost, found, ← isKey]
        rfl
      refine .removed ((foundIn_iff sound matched).mp (Option.isSome_of_eq_some found))
        (by rw [removes]) ⟨post, by rw [removes, alike.rows]⟩ ?_
      refine underway.issued cloud (by rw [removes]) ?_
      intro write member
      rw [List.mem_singleton.mp member]
      simp [Write.selects, Write.collection]
    | none =>
      have misses : next.clients client =
          { world.clients client with pending := [], firebaseCity := city } := by
        rw [filtered, Client.removePost, found]
      refine .missed (fun has => ?_) (by rw [misses]) (underway.of_same cloud (by rw [misses]))
      have isFound := (foundIn_iff sound matched).mpr has
      simp [found] at isFound
  | removed found pending => simp [pending] at ready
  | missed missing pending => simp [pending] at ready

/-- A board with the announcement names the post. -/
theorem names_announced (time : Timestamp) (cloud : Cloud) (docId : String) :
    Names ((announcement docId).commit time cloud) docId := by
  refine ⟨_, mem_commit_setData.mpr (Or.inr rfl), rfl, ?_⟩
  simp [resolve_string]

/-- What a delete whose second search found the post leaves when its writes are
committed. -/
theorem removed_allOrNothing {platform : Platform} {start world : World ι} {client : ι} {docId : String}
    (sound : start.Sound) (present : docId ∈ postIds start.cloud)
    (rows : ∃ post, (world.clients client).postAmigo =
      deleteFromDb platform post docId (start.clients client).postAmigo)
    (underway : Underway client start.cloud [announcement docId, .delete docId] world)
    (drained : (world.clients client).own = []) : world.AllOrNothing client docId := by
  obtain ⟨done, isDone, kept⟩ := underway
  rw [drained, List.append_nil] at isDone
  obtain ⟨first, second, rfl⟩ : ∃ first second,
      done = [(first, announcement docId), (second, Write.delete docId)] := by
    match done, isDone with
    | [(first, _), (second, _)], isDone =>
      simp only [List.map_cons, List.map_nil, List.cons.injEq, and_true] at isDone
      exact ⟨first, second, by rw [← isDone.1, ← isDone.2]⟩
  have committed (collection : CollectionName) (noCity : collection ≠ .cities) :
      world.cloud collection = (Write.delete docId).commit second
        ((announcement docId).commit first start.cloud) collection := kept collection noCity
  have absent : docId ∉ postIds world.cloud := by
    rw [postIds, committed .posts (by decide)]
    intro member
    exact (mem_postIds_delete.mp member).2 rfl
  have named : Names world.cloud docId := by
    have board : world.cloud .deleter = (announcement docId).commit first start.cloud .deleter := by
      rw [committed .deleter (by decide)]
      exact commit_delete_other second _ .deleter docId (by decide)
    obtain ⟨notice, posted, isPost, isId⟩ := names_announced first start.cloud docId
    exact ⟨notice, board ▸ posted, isPost, isId⟩
  refine ⟨absent, ?_, named, fun both => absent both.2⟩
  intro row member isRow
  obtain ⟨document, stored, isKey⟩ := List.mem_map.mp present
  have plain := generated_plain (sound.plain docId (isKey ▸ sound.posts.known document stored))
  obtain ⟨post, rows⟩ := rows
  rw [rows, deleteFromDb_plain platform post plain, List.mem_filter] at member
  have carried : row.postId = some docId :=
    ((sound.clients client).rows row member.1).keys.symm.trans isRow
  simp [namedBy_self plain carried] at member

/-- A delete whose second search has read its city is all or nothing exactly when the
search finds the post in it. -/
theorem Late.ended {platform : Platform} {start world : World ι} {client : ι} {docId : String}
    {city : Option String} (late : Late platform start client docId city world) (sound : start.Sound)
    (present : docId ∈ postIds start.cloud) (idle : world.Idle client) :
    world.AllOrNothing client docId ↔ FoundIn platform start client docId city := by
  cases late with
  | filtering cities titled pending => simp [idle.1] at pending
  | removed found pending rows underway =>
    exact ⟨fun _ => found, fun _ => removed_allOrNothing sound present rows underway idle.2⟩
  | missed missing pending underway =>
    constructor
    · intro whole
      refine absurd ?_ whole.document
      rw [postIds, underway.posts]
      exact present
    · exact fun found => absurd found missing

/-- The city a step reads for the second search is one. -/
theorem ReadsCity.unique {client : ι} {docId : String} {world : World ι} {event : Event ι}
    {city other : Option String} (reads : ReadsCity client docId world event city)
    (again : ReadsCity client docId world event other) : other = city := by
  obtain ⟨_, _, _, _, isCity⟩ := reads
  obtain ⟨_, _, _, _, isOther⟩ := again
  exact isOther.symm.trans isCity

/-- A delete of a post that is not there: it looks for it, and that is all. -/
structure Absent (start : World ι) (client : ι) (world : World ι) : Prop where
  pending : (world.clients client).pending = [] ∨ ∃ answer,
    (answer = none ∨ answer = some (.snapshot (getDocuments (start.cloud .posts)))) ∧
    (world.clients client).pending = [⟨.confirmedDelete, answer⟩]
  alike : Alike (start.clients client) (world.clients client)
  underway : Underway client start.cloud [] world

/-- A delete of a post that is not there is all or nothing exactly when the client had no
row of it and it was announced already. -/
theorem Absent.allOrNothing_iff {start world : World ι} {client : ι} {docId : String}
    (gone : Absent start client world) (absent : docId ∉ postIds start.cloud) :
    world.AllOrNothing client docId ↔ start.NoRow client docId ∧ Names start.cloud docId := by
  have posts : world.cloud .posts = start.cloud .posts :=
    gone.underway.untouched (by decide) (by simp)
  have board : world.cloud .deleter = start.cloud .deleter :=
    gone.underway.untouched (by decide) (by simp)
  have still : docId ∉ postIds world.cloud := by
    rw [postIds, posts]
    exact absent
  constructor
  · intro whole
    refine ⟨?_, ?_⟩
    · intro row member
      exact whole.row row (gone.alike.rows ▸ member)
    · obtain ⟨notice, posted, facts⟩ := whole.announced
      exact ⟨notice, board ▸ posted, facts⟩
  · rintro ⟨noRow, notice, posted, facts⟩
    refine ⟨still, ?_, ⟨notice, board ▸ posted, facts⟩, fun both => still both.2⟩
    intro row member
    exact noRow row (gone.alike.rows ▸ member)

/-- The loop over all posts changes nothing else when the post is not there. -/
theorem Absent.deliver {platform : Platform} {start world next : World ι} {client : ι} {docId : String}
    {index : Nat} {callback : Callback} {answer : Answer} (gone : Absent start client world)
    (sound : start.Sound) (absent : docId ∉ postIds start.cloud)
    (chosen : (start.clients client).selected.map Post.postId = some docId)
    (ready : (world.clients client).pending[index]? = some ⟨callback, some answer⟩)
    (same : next.clients client = ({ world.clients client with
      pending := (world.clients client).pending.eraseIdx index } : Client).answered platform callback
        answer)
    (cloud : next.cloud = world.cloud) : Absent start client next := by
  obtain ⟨nothing | ⟨waiting, isRead, pending⟩, alike, underway⟩ := gone
  · simp [nothing] at ready
  · obtain ⟨rfl, isFirst⟩ := Client.ready_singleton (pending ▸ ready)
    cases isFirst
    obtain none | isAnswer := isRead
    · simp at none
    · cases Option.some.inj isAnswer
      have erased : (world.clients client).pending.eraseIdx 0 = [] := by
        rw [pending, List.eraseIdx_cons_zero]
      rw [erased] at same
      have missing : ∀ postid, ¬ ({ world.clients client with pending := [] } : Client).Finds
          (getDocuments (start.cloud .posts)) postid := by
        rintro postid ⟨isChosen, document, reached, carries⟩
        have stored : document ∈ start.cloud .posts :=
          mem_getDocuments.mp (List.takeWhile_subset _ reached)
        have isSelected : (start.clients client).selected.map Post.postId = some postid :=
          (congrArg _ alike.selected.symm).trans isChosen
        have isKey : document.documentID = docId := by
          rw [(sound.posts.keyed document stored).postId] at carries
          exact Option.some.inj (carries.trans (isSelected.symm.trans chosen))
        exact absent (List.mem_map.mpr ⟨document, stored, isKey⟩)
      obtain kept | stopped := Client.deleteConfirmed_missing missing
      · have result : next.clients client = { world.clients client with pending := [] } :=
          same.trans kept
        refine ⟨Or.inl (by rw [result]), ?_, underway.of_same cloud (by rw [result])⟩
        rw [result]
        exact ⟨alike.rows, alike.city, alike.dates, alike.selected⟩
      · have result : next.clients client =
            ({ world.clients client with pending := [] } : Client).crash .postField :=
          same.trans stopped
        refine ⟨Or.inl (by rw [result]; rfl), ?_, underway.of_same cloud (by rw [result]; rfl)⟩
        rw [result]
        exact ⟨alike.rows, alike.city, alike.dates, alike.selected⟩

variable [DecidableEq ι]

/-- The steps beside a confirmed delete of a client: its reads are answered and delivered
and its writes committed, and cities are selected by anybody and the selections committed. -/
def beside (client : ι) (world : World ι) (event : Event ι) : Bool :=
  match event.2 with
  | .selectPin _ => true
  | .answer _ | .deliver _ => decide (event.1 = client)
  | .commit _ => decide (event.1 = client) ||
      (world.clients event.1).outbox.head?.any Write.selects
  | _ => false

/-- The guard of a deletion: what may happen beside it. -/
def Beside (client : ι) (world : World ι) (event : Event ι) : Prop := beside client world event = true

instance (client : ι) (world : World ι) (event : Event ι) : Decidable (Beside client world event) :=
  inferInstanceAs (Decidable (_ = true))

/-- What such a step is to the client: one beside its reads, an answer or a delivery. -/
inductive Moves (platform : Platform) (client : ι) (world : World ι) (event : Event ι) (next : World ι) :
    Prop
  | aside (outbox : List Write) (settled : Nat)
      (same : next.clients client = { world.clients client with outbox := outbox, settled := settled })
      (noAnswer : ∀ index, event ≠ (client, .answer index))
      (kept : ∀ start writes, Underway client start writes world → Underway client start writes next) :
      Moves platform client world event next
  | answers (index : Nat) (callback : Callback) (isAnswer : event = (client, .answer index))
      (waiting : (world.clients client).pending[index]? = some ⟨callback, none⟩)
      (same : next.clients client = { world.clients client with
        pending := (world.clients client).pending.set index
          ⟨callback, some (.snapshot (callback.read ((world.clients client).localView world.cloud)))⟩ })
      (cloud : next.cloud = world.cloud) : Moves platform client world event next
  | delivers (index : Nat) (callback : Callback) (answer : Answer)
      (isDeliver : event = (client, .deliver index))
      (ready : (world.clients client).pending[index]? = some ⟨callback, some answer⟩)
      (same : next.clients client = ({ world.clients client with
        pending := (world.clients client).pending.eraseIdx index } : Client).answered platform callback
          answer)
      (cloud : next.cloud = world.cloud) : Moves platform client world event next

/-- The inversion of an admitted step. -/
theorem beside_moves {platform : Platform} {client : ι} {world next : World ι} {event : Event ι}
    (admitted : Beside client world event) (stepped : world.step platform event = some next) :
    Moves platform client world event next := by
  obtain ⟨actor, action⟩ := event
  obtain ⟨_, changed, acted, cloud, clients, _⟩ := step_inv stepped
  have mine (same : actor = client) : next.clients client = changed := by
    rw [clients, ← same, Function.update_self]
  have others (different : actor ≠ client) : next.clients client = world.clients client :=
    step_other stepped (Ne.symm different)
  cases Client.act_acts acted with
  | selectPin title =>
    have same : (next.clients client).own = (world.clients client).own := by
      by_cases acting : actor = client
      · rw [mine acting, acting]
        simp [Client.own, Client.enqueue, Write.selects, Write.collection]
      · rw [others acting]
    refine .aside (next.clients client).outbox (next.clients client).settled ?_ (by simp) ?_
    · by_cases acting : actor = client
      · rw [mine acting, acting]
        rfl
      · rw [others acting]
    · rintro start writes ⟨done, isDone, kept⟩
      exact ⟨done, same ▸ isDone, by rw [cloud]; exact kept⟩
  | answer index callback waiting =>
    have acting : actor = client := by simpa [Beside, beside] using admitted
    subst acting
    exact .answers index callback rfl waiting (mine rfl) cloud
  | deliver index callback answer ready =>
    have acting : actor = client := by simpa [Beside, beside] using admitted
    subst acting
    exact .delivers index callback answer rfl ready (mine rfl) cloud
  | commit time write rest queued =>
    have committed : next.cloud = write.commit time world.cloud := by
      rw [cloud]
      simp [cloudAfter, queued]
    by_cases acting : actor = client
    · subst acting
      refine .aside rest _ (mine rfl) (by simp) ?_
      intro start writes underway
      by_cases selects : write.selects = true
      · refine underway.selected selects ?_ committed
        rw [mine rfl]
        simp [Client.own, queued, selects]
      · refine underway.committed ?_ committed
        rw [mine rfl]
        simp [Client.own, queued, selects]
    · have selects : write.selects = true := by
        simpa [Beside, beside, acting, queued] using admitted
      refine .aside (world.clients client).outbox (world.clients client).settled
        (by rw [others acting]) (by simp) ?_
      intro start writes underway
      exact underway.selected selects (by rw [others acting]) committed
  | _ => simp [Beside, beside] at admitted

/-- A step beside a delete that has not read its city. -/
theorem Early.step {platform : Platform} {start world next : World ι} {client : ι} {docId : String}
    {event : Event ι} (early : Early start client docId world) (sound : start.Sound)
    (present : docId ∈ postIds start.cloud)
    (chosen : (start.clients client).selected.map Post.postId = some docId)
    (admitted : Beside client world event) (stepped : world.step platform event = some next) :
    (Early start client docId next ∧ ∀ city, ¬ ReadsCity client docId world event city) ∨
      ∃ city, ReadsCity client docId world event city ∧ Late platform start client docId city next := by
  cases beside_moves admitted stepped with
  | aside outbox settled same noAnswer kept =>
    left
    constructor
    · have stays (alike : Alike (start.clients client) (world.clients client)) :
          Alike (start.clients client) (next.clients client) := by
        rw [same]
        exact ⟨alike.rows, alike.city, alike.dates, alike.selected⟩
      cases early with
      | confirming answer isRead pending alike underway =>
        exact .confirming answer isRead (by rw [same, pending]) (stays alike) (kept _ _ underway)
      | fetching answer isRead pending alike underway =>
        exact .fetching answer isRead (by rw [same, pending]) (stays alike) (kept _ _ underway)
      | filtering pending alike underway =>
        exact .filtering (by rw [same, pending]) (stays alike) (kept _ _ underway)
    · rintro city ⟨index, _, isAnswer, _⟩
      exact noAnswer index isAnswer
  | answers index callback isAnswer waiting same cloud =>
    subst isAnswer
    exact early.answer waiting same cloud
  | delivers index callback answer isDeliver ready same cloud =>
    subst isDeliver
    refine Or.inl ⟨early.deliver sound present chosen ready same cloud, ?_⟩
    rintro city ⟨index, _, isAnswer, _⟩
    simp at isAnswer

/-- A step beside a delete whose second search has read its city: it reads none again. -/
theorem Late.step {platform : Platform} {start world next : World ι} {client : ι} {docId : String}
    {city : Option String} {event : Event ι} (late : Late platform start client docId city world)
    (sound : start.Sound) (admitted : Beside client world event)
    (stepped : world.step platform event = some next) :
    Late platform start client docId city next ∧
      ∀ other, ¬ ReadsCity client docId world event other := by
  have unread : ∀ other, ¬ ReadsCity client docId world event other := by
    cases late with
    | filtering cities titled pending => exact not_readsCity pending (Or.inl (by simp))
    | removed found pending | missed missing pending =>
      rintro other ⟨index, snapshot, _, waiting, _⟩
      simp [pending] at waiting
  refine ⟨?_, unread⟩
  cases beside_moves admitted stepped with
  | aside outbox settled same noAnswer kept =>
    cases late with
    | filtering cities titled pending alike underway =>
      refine .filtering cities titled (by rw [same, pending]) ?_ (kept _ _ underway)
      rw [same]
      exact ⟨alike.rows, alike.city, alike.dates, alike.selected⟩
    | removed found pending rows underway =>
      exact .removed found (by rw [same, pending]) (by rw [same]; exact rows) (kept _ _ underway)
    | missed missing pending underway =>
      exact .missed missing (by rw [same, pending]) (kept _ _ underway)
  | answers index callback isAnswer waiting =>
    cases late with
    | filtering cities titled pending =>
      obtain ⟨_, isFirst⟩ := Client.ready_singleton (pending ▸ waiting)
      cases isFirst
    | removed found pending | missed missing pending => simp [pending] at waiting
  | delivers index callback answer isDeliver ready same cloud => exact late.deliver sound ready same cloud

/-- Every admitted step keeps an absent document's deletion as it was. -/
theorem Absent.step {platform : Platform} {start world next : World ι} {client : ι} {docId : String}
    {event : Event ι} (gone : Absent start client world) (sound : start.Sound)
    (absent : docId ∉ postIds start.cloud)
    (chosen : (start.clients client).selected.map Post.postId = some docId)
    (admitted : Beside client world event) (stepped : world.step platform event = some next) :
    Absent start client next := by
  cases beside_moves admitted stepped with
  | aside outbox settled same noAnswer kept =>
    refine ⟨by rw [same]; exact gone.pending, ?_, kept _ _ gone.underway⟩
    rw [same]
    exact ⟨gone.alike.rows, gone.alike.city, gone.alike.dates, gone.alike.selected⟩
  | answers index callback isAnswer waiting same cloud =>
    obtain ⟨nothing | ⟨answer, isRead, pending⟩, alike, underway⟩ := gone
    · simp [nothing] at waiting
    · obtain ⟨rfl, isFirst⟩ := Client.ready_singleton (pending ▸ waiting)
      cases isFirst
      have posts : (world.clients client).localView world.cloud .posts = start.cloud .posts :=
        underway.shown (by decide) (by simp)
      refine ⟨Or.inr ⟨_, Or.inr rfl, ?_⟩, ?_, underway.of_same cloud (by rw [same])⟩
      · rw [same, ← posts, pending]
        rfl
      · rw [same]
        exact ⟨alike.rows, alike.city, alike.dates, alike.selected⟩
  | delivers index callback answer isDeliver ready same cloud =>
    exact gone.deliver sound absent chosen ready same cloud

/-- A delete that runs to its end reads one city for its second search, once. -/
theorem Early.run {platform : Platform} {start world last : World ι} {client : ι} {docId : String}
    {events : List (Event ι)} (early : Early start client docId world) (sound : start.Sound)
    (present : docId ∈ postIds start.cloud)
    (chosen : (start.clients client).selected.map Post.postId = some docId)
    (run : GuardedRuns.Runs (World.step platform) (Beside client) world events last)
    (idle : last.Idle client) :
    ∃ city, Late platform start client docId city last ∧
      (∃ before event after, (before, event, after) ∈
        GuardedRuns.transitions (World.step platform) world events ∧ ReadsCity client docId before event city) ∧
      ∀ before event after, (before, event, after) ∈
        GuardedRuns.transitions (World.step platform) world events →
        ∀ other, ReadsCity client docId before event other → other = city := by
  induction run with
  | done state =>
    cases early with
    | confirming answer isRead pending | fetching answer isRead pending | filtering pending =>
      simp [idle.1] at pending
  | @next state middle last event rest admitted stepped tail inductionHypothesis =>
    simp only [GuardedRuns.transitions, stepped, List.mem_cons, Prod.mk.injEq]
    obtain ⟨still, unread⟩ | ⟨city, reads, late⟩ := early.step sound present chosen admitted stepped
    · obtain ⟨city, late, ⟨before, other, after, member, reads⟩, once⟩ :=
        inductionHypothesis still idle
      refine ⟨city, late, ⟨before, other, after, Or.inr member, reads⟩, ?_⟩
      rintro before event after (⟨rfl, rfl, rfl⟩ | later) other reads
      · exact absurd reads (unread other)
      · exact once before event after later other reads
    · have kept (state : World ι) (event : Event ι) (next : World ι)
          (late : Late platform start client docId city state) (admitted : Beside client state event)
          (stepped : state.step platform event = some next) :
          Late platform start client docId city next := (late.step sound admitted stepped).1
      refine ⟨city, tail.invariant kept late, ⟨state, event, middle, Or.inl ⟨rfl, rfl, rfl⟩, reads⟩, ?_⟩
      rintro before later after (⟨rfl, rfl, rfl⟩ | member) other again
      · exact reads.unique again
      · have unread := tail.every_step kept
          (fun _ _ _ late admitted stepped => (late.step sound admitted stepped).2) late
        exact absurd again (unread before later after member other)

/-- A user has posted in Haifa and synced. -/
def postedAndSynced : List (Event Bool) :=
  debut false ⟨"ann", "Ann", "", ""⟩ "Haifa" "AAAAAAAAAAAAAAAAAAA1" ++ sync false 4

/-- Between the two searches of a delete another device selects a city. -/
def selectedBetween (city : String) : List (Event Bool) :=
  settle false 1 ++ select true city 4 ++ settle false 2 ++
    [(false, .commit ⟨5, 0⟩), (false, .commit ⟨6, 0⟩)]

end World

end Amigo
