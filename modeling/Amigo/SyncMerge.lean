import Amigo.FetchedPosts
import Amigo.WellFormed

/-!
# What a sync stores

A sync fetches the documents updated since the stored date, keeps those of the
city it reads next, and stores each as a row. Three laws make this lossless. The
stored date is zero in every reachable state, because the merge only ever
remembers the shadowing zero, so the incremental read is a full read of what the
client is shown: the committed documents but for those its own queued writes name, and
what these leave. The documents of a snapshot have distinct keys, so the stores of one merge overwrite
nothing but older rows and repeated copies of the same post. A row under another
key is not touched.
-/

namespace Amigo

/-- The row that holds all eight fields of a post whole. -/
def Post.columns (post : Post) : Row where
  psId := some post.id
  title := some post.title
  placeLocation := some post.placeLocation
  placeImage := some post.placeImage
  userName := some post.userName
  recText := some post.recText
  userId := some post.userId
  postId := some post.postId

/-- A string value is free of U+0000. -/
def Value.clean : Value → Bool
  | .string text => !text.toList.contains nul
  | .timestamp _ | .pendingTime _ => true

/-- Every string field of the document is free of U+0000. -/
def Document.Clean (document : Document) : Prop := ∀ field ∈ document.data, field.2.clean = true

instance (document : Document) : Decidable document.Clean :=
  inferInstanceAs (Decidable (∀ field ∈ document.data, field.2.clean = true))

/-- No string of a clean document has a U+0000. -/
theorem Document.Clean.string {document : Document} (clean : document.Clean) {name text : String}
    (carries : document.data.string name = some text) : nul ∉ text.toList := by
  unfold Fields.string Fields.get at carries
  split at carries
  · rename_i stored found
    cases Option.some.inj carries
    obtain ⟨before, after, split⟩ := List.lookup_eq_some_iff.mp found
    have field := clean (name, .string text) (by simp [split])
    simpa [Value.clean] using field
  · simp at carries

/-- The row bound for a post of a clean document holds its fields whole. -/
theorem row_eq_columns {document : Document} {post : Post} (clean : document.Clean)
    (decoded : Post.initJson document.data = some post) : post.row = post.columns := by
  simp only [Post.initJson, Option.bind_eq_some_iff] at decoded
  obtain ⟨id, hasId, image, hasImage, location, hasLocation, text, hasText, title, hasTitle,
    name, hasName, user, hasUser, postId, hasPostId, same⟩ := decoded
  cases Option.some.inj same
  simp only [Post.row, Post.columns, cString_clean (clean.string hasId),
    cString_clean (clean.string hasImage), cString_clean (clean.string hasLocation),
    cString_clean (clean.string hasText), cString_clean (clean.string hasTitle),
    cString_clean (clean.string hasName), cString_clean (clean.string hasUser),
    cString_clean (clean.string hasPostId)]

namespace Client

/-- Every document of the city is decoded into the filtered list. -/
theorem matchingPosts_complete {platform : Platform} {city : Option String}
    {snapshot : List Document} {data : List Post}
    (matched : matchingPosts platform city snapshot = some data) {document : Document} {post : Post}
    (member : document ∈ snapshot) (decoded : Post.initJson document.data = some post)
    (titled : platform.isCity city post.title = true) : post ∈ data := by
  induction snapshot generalizing data with
  | nil => exact absurd member List.not_mem_nil
  | cons head rest inductionHypothesis =>
    rw [matchingPosts, Option.bind_eq_some_iff] at matched
    obtain ⟨title, hasTitle, continued⟩ := matched
    split at continued
    · obtain ⟨first, isFirst, others⟩ := Option.bind_eq_some_iff.mp continued
      obtain ⟨later, isLater, rfl⟩ := Option.map_eq_some_iff.mp others
      obtain rfl | inRest := List.mem_cons.mp member
      · cases Option.some.inj (decoded.symm.trans isFirst)
        exact List.mem_cons_self
      · have found := inductionHypothesis isLater inRest
        exact List.mem_cons_of_mem _ (List.mem_cons_of_mem _ found)
    · rename_i otherCity
      obtain rfl | inRest := List.mem_cons.mp member
      · have same : title = post.title :=
          Option.some.inj (hasTitle.symm.trans (initJson_fields decoded).2.1)
        exact absurd (same ▸ titled) otherCity
      · exact inductionHypothesis continued inRest

/-- Two documents of a snapshot whose posts clash as rows are one document. -/
theorem snapshot_row_unique {known : String → Prop} {snapshot : List Document}
    (posts : WellKeyedPosts known snapshot) (plain : ∀ id, known id → generated id = true)
    {first second : Document} (firstIn : first ∈ snapshot) (secondIn : second ∈ snapshot)
    {post other : Post} (decoded : Post.initJson first.data = some post)
    (otherDecoded : Post.initJson second.data = some other)
    (touching : samePrimaryKey post.row other.row) : post = other := by
  have keys : some first.documentID = some second.documentID :=
    (posts.row_key plain firstIn decoded).2.symm.trans
      (touching.1.trans (posts.row_key plain secondIn otherDecoded).2)
  have one : first = second := posts.separate.eq_of_clash sameDocument_symmetric firstIn secondIn
    (Option.some.inj keys)
  subst one
  exact Option.some.inj (decoded.symm.trans otherDecoded)

/-- The merge stores the row of every document of the city. -/
theorem mergePosts_stored {platform : Platform} {known : String → Prop} {city : Option String}
    {snapshot : List Document} {data : List Post} (posts : WellKeyedPosts known snapshot)
    (plain : ∀ id, known id → generated id = true)
    (matched : matchingPosts platform city snapshot = some data) (postAmigo : List Row)
    {document : Document} {post : Post} (member : document ∈ snapshot)
    (decoded : Post.initJson document.data = some post)
    (titled : platform.isCity city post.title = true) : post.row ∈ mergePosts data postAmigo := by
  rw [mergePosts_eq]
  have isFetched := matchingPosts_complete matched member decoded titled
  refine KeyedRows.mem_upsertAll_of_stored (List.mem_map_of_mem isFetched) ?_
  intro row isStored touching
  obtain ⟨other, isOther, rfl⟩ := List.mem_map.mp isStored
  obtain ⟨source, inSnapshot, otherDecoded, _⟩ := matchingPosts_origin matched isOther
  rw [snapshot_row_unique posts plain member inSnapshot decoded otherDecoded touching]

/-- A row whose key is none of the city's documents' is there after the merge
exactly when it was there before. -/
theorem mergePosts_other {platform : Platform} {city : Option String} {snapshot : List Document}
    {data : List Post}
    (matched : matchingPosts platform city snapshot = some data) (postAmigo : List Row) {row : Row}
    (apart : ∀ document ∈ snapshot, ∀ post, Post.initJson document.data = some post →
      platform.isCity city post.title = true → row.psId ≠ post.row.psId) :
    row ∈ mergePosts data postAmigo ↔ row ∈ postAmigo := by
  have distinct : ∀ stored ∈ data.map Post.row, row.psId ≠ stored.psId := by
    intro stored isStored
    obtain ⟨post, isFetched, rfl⟩ := List.mem_map.mp isStored
    obtain ⟨document, inSnapshot, decoded, titled⟩ := matchingPosts_origin matched isFetched
    exact apart document inSnapshot post decoded titled
  rw [mergePosts_eq]
  constructor
  · intro member
    obtain stored | ⟨older, _⟩ := KeyedRows.mem_upsertAll_origin member
    · exact absurd rfl (distinct row stored)
    · exact older
  · intro older
    exact KeyedRows.mem_upsertAll_of_apart older
      (fun stored isStored touching => distinct stored isStored touching.1)

/-- Delivering the second read of a sync filters by the city it read and merges. -/
theorem deliver_merge {platform : Platform} {cloud : Cloud} {client after : Client} {index : Nat}
    {snapshot : List Document} {answer : Answer}
    (ready : client.pending[index]? = some ⟨.fetchCities snapshot .merge, some answer⟩)
    (keyed : ∀ document ∈ snapshot, WellKeyed document)
    (acted : client.act platform cloud (.deliver index) = some after) :
    client.trap = none ∧ ∃ data, matchingPosts platform (client.cityRead answer) snapshot = some data ∧
      after = { client with
        pending := client.pending.eraseIdx index
        firebaseCity := client.cityRead answer }.merge platform data := by
  obtain ⟨data, matched⟩ := matchingPosts_isSome platform (client.cityRead answer) keyed
  obtain ⟨running, performed⟩ := Option.ite_none_right_eq_some.mp acted
  simp only [perform, ready, Option.some.injEq] at performed
  refine ⟨running, data, matched, ?_⟩
  have sameCity : ({ client with pending := client.pending.eraseIdx index } : Client).cityRead answer =
      client.cityRead answer := by cases answer <;> rfl
  rw [← performed]
  simp only [answered, citiesAnswered, sameCity, matched]
  rfl

/-- A merge into complete rows calls its completion with what it reads. -/
theorem merge_delivered (platform : Platform) (client : Client) {data : List Post}
    (plain : PlainText client.postCity)
    (complete : ∀ row ∈ mergePosts data client.postAmigo, row.Complete) :
    ∃ finalData,
      getAllPostsFromDb platform client.postCity (mergePosts data client.postAmigo) = some finalData ∧
      (client.merge platform data).delivered = client.delivered ++ [finalData] := by
  obtain ⟨finalData, isRead, result⟩ := merge_complete platform client plain complete
  exact ⟨finalData, isRead, by rw [result]⟩

/-- Every stored date is zero, and so is the start of every incremental read. -/
structure Undated (client : Client) : Prop where
  dates : ∀ row ∈ client.dates, row.date = 0
  reads : ∀ pending ∈ client.pending, ∀ since next, pending.callback = .fetchPosts since next →
    since = 0

/-- With zero dates the last update date is zero. -/
theorem Undated.lastUpdateDate {client : Client} (undated : client.Undated) :
    client.lastUpdateDate = 0 := by
  unfold Client.lastUpdateDate getLastUpdateDate
  split
  · rename_i row found
    have zero : row.date = 0 := undated.dates row (List.mem_of_find?_eq_some found)
    simp [columnInt64, zero]
  · rfl

/-- A step leaves the dates alone or stores a zero. -/
theorem act_dates {platform : Platform} {cloud : Cloud} {client after : Client} {action : Action}
    (acted : client.act platform cloud action = some after) :
    after.dates = client.dates ∨ after.dates = setLastUpdate "POSTAMIGO" 0 client.dates := by
  cases act_cases acted with
  | quiet quiet => exact Or.inl quiet.dates
  | asks _ _ _ _ _ _ dates => exact Or.inl dates
  | issues | presses | posts | receives | drains => exact Or.inl rfl
  | delivers index callback answer ready delivered =>
    cases delivered with
    | quiet quiet => exact Or.inl quiet.dates
    | merged => exact Or.inr merge_dates
    | removed | fetched | announced | edited => exact Or.inl rfl

/-- A step of an undated client leaves it undated. -/
theorem Undated.act {platform : Platform} {cloud : Cloud} {client after : Client} {action : Action}
    (undated : client.Undated) (acted : client.act platform cloud action = some after) :
    after.Undated where
  dates := by
    intro row member
    obtain same | stored := act_dates acted
    · exact undated.dates row (same ▸ member)
    · rw [stored] at member
      obtain ⟨older, _⟩ | rfl := KeyedRows.mem_upsert.mp member
      · exact undated.dates row older
      · rfl
  reads := by
    intro pending member since next asks
    cases act_pending acted member with
    | kept before => exact undated.reads pending before since next asks
    | answered index callback step waiting =>
      exact undated.reads _ (List.mem_of_getElem? waiting) since next asks
    | failed callback before => exact undated.reads _ before since next asks
    | pressed callback pressed =>
      cases pressed with
      | sync =>
        cases asks
        exact undated.lastUpdateDate
      | _ => simp at asks
    | filtering => simp at asks
    | lookup => simp at asks
    | refresh => simp at asks
    | removal =>
      cases asks
      exact undated.lastUpdateDate

end Client

namespace World

variable {ι : Type*}

/-- Every post document carries the time of its last commit. -/
def Stamped (world : World ι) : Prop :=
  ∀ document ∈ world.cloud .posts, ∃ time, document.data.get "lastUpdate" = some (.timestamp time)

variable [DecidableEq ι]

/-- Reachable clients are undated. -/
theorem Reachable.undated {platform : Platform} {world : World ι} (reachable : world.Reachable platform)
    (client : ι) : (world.clients client).Undated := by
  apply reachable.invariant (fun world => ∀ client, (world.clients client).Undated)
  · intro client
    constructor <;> simp [init]
  · intro before event next undated stepped client
    obtain same | ⟨rfl, acted⟩ := client_after stepped client
    · exact same ▸ undated client
    · exact (undated _).act acted

/-- Committing a queued write keeps the posts stamped. -/
theorem Stamped.step {platform : Platform} {world next : World ι} {event : Event ι} (sound : world.Sound)
    (stamped : world.Stamped) (stepped : world.step platform event = some next) : next.Stamped := by
  intro document member
  obtain older | ⟨time, key, json, rest, _, queued, rfl⟩ := stored_after stepped member
  · exact stamped document older
  · have isQueued : .setData .posts key json ∈ (world.clients event.1).outbox := by
      rw [queued]
      exact List.mem_cons_self
    obtain ⟨post, _, _, rfl, rfl⟩ := (sound.clients event.1).queued key json isQueued
    exact ⟨time, rfl⟩

/-- Reachable posts are stamped. -/
theorem Reachable.stamped {platform : Platform} {world : World ι} (reachable : world.Reachable platform) :
    world.Stamped := by
  have both := reachable.invariant (fun world => world.Sound ∧ world.Stamped)
    ⟨sound_init, fun document member => absurd member List.not_mem_nil⟩
    (fun _ _ _ facts stepped => ⟨facts.1.step stepped, facts.2.step facts.1 stepped⟩)
  exact both.2

omit [DecidableEq ι] in
/-- Every post a client is shown carries the time of its last commit, or one to come. -/
theorem Stamped.shown {world : World ι} (stamped : world.Stamped) (sound : world.Sound) (client : ι) :
    ∀ document ∈ (world.clients client).localView world.cloud .posts,
      ∃ stamp : Stamp, document.data.get "lastUpdate" = some stamp.value := by
  apply Client.localView_forall
  · intro document member
    obtain ⟨time, updated⟩ := stamped document member
    exact ⟨.committed time, updated⟩
  · intro key json queued stamp
    obtain ⟨post, _, _, rfl, rfl⟩ := (sound.clients client).queued key json queued
    exact ⟨stamp, rfl⟩

/-- An incremental read from zero is a read of every stamped document whose time
is not before the epoch. -/
theorem read_everything {cloud : Cloud} {next : AfterFetch} {document : Document}
    (member : document ∈ cloud .posts) {stamp : Stamp}
    (stamped : document.data.get "lastUpdate" = some stamp.value)
    (epoch : ∀ time, document.data.get "lastUpdate" = some (.timestamp time) → 0 ≤ time.seconds) :
    document ∈ Callback.read cloud (.fetchPosts 0 next) := by
  refine mem_getDocumentsSince.mpr ⟨member, ?_⟩
  cases stamp with
  | committed time =>
    have positive := epoch time stamped
    have notBefore : (Timestamp.mk 0 0).notAfter time = true := by
      simp only [Timestamp.notAfter, Nat.zero_le, decide_true, Bool.and_true, Bool.or_eq_true,
        decide_eq_true_eq, beq_iff_eq]
      omega
    simp [updatedSince, stamped, Stamp.value, Value.notAfter, notBefore]
  | pending number => simp [updatedSince, stamped, Stamp.value, Value.notAfter]

/-- What a sync of a city owes the local rows when it calls its completion. -/
structure SyncedTo (platform : Platform) (city : String) (snapshot : List Document) (before after : Client) : Prop where
  completed : ∃ finalData, after.delivered = before.delivered ++ [finalData]
  stored : ∀ document ∈ snapshot, ofCity platform (some city) document = true →
    ∃ post, Post.initJson document.data = some post ∧
      after.postAmigo.filter (fun row => decide (row.psId = some post.id)) = [post.columns]
  kept : ∀ row : Row, (∀ document ∈ snapshot, ofCity platform (some city) document = true →
      row.psId ≠ document.data.string "id") →
    (row ∈ after.postAmigo ↔ row ∈ before.postAmigo)

/-- A merge of a clean snapshot into a sound client's rows. -/
theorem syncedTo_merge {platform : Platform} {known : String → Prop} {before filtering : Client}
    {snapshot : List Document} {city : String} {data : List Post}
    (posts : WellKeyedPosts known snapshot) (plain : ∀ id, known id → generated id = true)
    (clean : ∀ document ∈ snapshot, document.Clean) (sound : before.Sound known)
    (spliced : PlainText filtering.postCity)
    (matched : matchingPosts platform (some city) snapshot = some data)
    (rows : filtering.postAmigo = before.postAmigo)
    (delivered : filtering.delivered = before.delivered) :
    SyncedTo platform city snapshot before (filtering.merge platform data) where
  completed := by
    have complete : ∀ row ∈ mergePosts data filtering.postAmigo, row.Complete := by
      intro row member
      exact (Client.mergePosts_wellKeyed posts.keyed matched (rows ▸ sound.rows) row member).complete
    obtain ⟨finalData, _, called⟩ := Client.merge_delivered platform filtering spliced complete
    exact ⟨finalData, delivered ▸ called⟩
  stored := by
    intro document member isOf
    obtain ⟨post, decoded, key, _⟩ := (posts.keyed document member).decodes
    refine ⟨post, decoded, ?_⟩
    have sameTitle := ofCity_title isOf decoded
    have isStored : post.row ∈ mergePosts data before.postAmigo :=
      Client.mergePosts_stored posts plain matched _ member decoded sameTitle
    have separate : KeyedRows.Separate samePrimaryKey (mergePosts data before.postAmigo) := by
      rw [Client.mergePosts_eq]
      exact KeyedRows.upsertAll_separate sound.separate
    have touches : samePrimaryKey post.row post.row := ⟨rfl, by simp [Post.row]⟩
    have alone := separate.filter_clash samePrimaryKey_symmetric isStored touches
    have columns := row_eq_columns (clean document member) decoded
    rw [Client.merge_rows, rows, ← columns]
    rw [← alone]
    apply List.filter_congr
    intro row _
    simp [samePrimaryKey, columns, Post.columns]
  kept := by
    intro row apart
    rw [Client.merge_rows, rows]
    apply Client.mergePosts_other matched
    intro document member post decoded titled same
    have hasId := (initJson_fields decoded).1
    refine apart document member
      ((ofCity_iff ..).mpr ⟨post.title, (initJson_fields decoded).2.1, titled⟩) ?_
    rw [hasId, same, row_eq_columns (clean document member) decoded]
    rfl

/-- A sync loses no update. Every read of the posts collection that a client has
asked, whatever it synced before, will be answered with every document it is then
shown, among them each one of the cloud that no queued write of its own names; and when both reads of a sync have succeeded and the city is read,
its completion is called with each document of the city stored once and whole,
and with the rows under other keys as they were. -/
theorem sync_loses_no_update (platform : Platform) (world : World ι) (reachable : world.Reachable platform)
    (client : ι) :
    (∀ (index : Nat) since next,
      (world.clients client).pending[index]? = some ⟨.fetchPosts since next, none⟩ →
      ∀ document, (document ∈ (world.clients client).localView world.cloud .posts ∨
          document ∈ world.cloud .posts ∧ ∀ write ∈ (world.clients client).outbox,
            write.collection = .posts → write.key ≠ document.documentID) →
        (∀ time, document.data.get "lastUpdate" = some (.timestamp time) → 0 ≤ time.seconds) →
        document ∈ Callback.read ((world.clients client).localView world.cloud)
          (.fetchPosts since next)) ∧
    ∀ (index : Nat) snapshot cities city after,
      (world.clients client).pending[index]? =
        some ⟨.fetchCities snapshot .merge, some (.snapshot cities)⟩ →
      lastTitle (world.clients client).firebaseCity cities = some city →
      (∀ document ∈ snapshot, document.Clean) →
      world.step platform (client, .deliver index) = some after →
      SyncedTo platform city snapshot (world.clients client) (after.clients client) := by
  have sound := reachable.sound
  constructor
  · intro index since next asked document shownOrStored epoch
    have shown : document ∈ (world.clients client).localView world.cloud .posts :=
      shownOrStored.elim id (fun stored => overlay_keeps stored.1 stored.2)
    have zero : since = 0 := (reachable.undated client).reads ⟨.fetchPosts since next, none⟩
      (List.mem_of_getElem? asked) since next rfl
    obtain ⟨stamp, stamped⟩ := reachable.stamped.shown sound client document shown
    subst zero
    exact read_everything shown stamped epoch
  · intro index snapshot cities city after ready isCity clean stepped
    have posts := (sound.clients client).held _ (List.mem_of_getElem? ready)
    obtain ⟨_, data, matched, result⟩ := Client.deliver_merge ready posts.keyed (step_act stepped)
    have matchedCity : matchingPosts platform (some city) snapshot = some data := isCity ▸ matched
    rw [result]
    exact syncedTo_merge posts sound.plain clean (sound.clients client)
      (reachable.pinned.clients client).plain matchedCity rfl rfl

/-- The first sync of a second device, at its completion. -/
theorem sync_loses_no_update_first_sync :
    ∃ world after : World Bool, (world.clients true).postAmigo = [] ∧
      SyncedTo Platform.plain "Haifa" [⟨"AAAAAAAAAAAAAAAAAAA1", resolve (.committed ⟨3, 0⟩)
          (debutPost ⟨"ann", "Ann", "", ""⟩ "Haifa" "AAAAAAAAAAAAAAAAAAA1").toJson⟩]
        (world.clients true) (after.clients true) := by
  have ran : ((GuardedRuns.exec (step Platform.plain) (init Bool)
      (debut false ⟨"ann", "Ann", "", ""⟩ "Haifa" "AAAAAAAAAAAAAAAAAAA1" ++
        (sync true 2).dropLast)).any fun world =>
      decide ((world.clients true).postAmigo = [] ∧
        (world.clients true).pending = [⟨.fetchCities [⟨"AAAAAAAAAAAAAAAAAAA1", resolve (.committed ⟨3, 0⟩)
            (debutPost ⟨"ann", "Ann", "", ""⟩ "Haifa" "AAAAAAAAAAAAAAAAAAA1").toJson⟩] .merge,
          some (.snapshot [⟨"city", [("title", .string "Haifa")]⟩])⟩] ∧
        (step Platform.plain world (true, .deliver 0)).isSome = true)) = true := by decide +kernel
  obtain ⟨world, run, empty, waiting, isStep⟩ := GuardedRuns.exists_run ran
  obtain ⟨after, stepped⟩ := Option.isSome_iff_exists.mp isStep
  refine ⟨world, after, empty, ?_⟩
  apply (sync_loses_no_update _ world ⟨_, run⟩ true).2 0 _
    [⟨"city", [("title", .string "Haifa")]⟩] "Haifa" after
  · rw [waiting]
    rfl
  · rfl
  · decide
  · exact stepped

end World

end Amigo
