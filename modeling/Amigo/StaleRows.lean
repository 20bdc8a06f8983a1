import Amigo.FetchedPosts
import Amigo.SoloSync
import Amigo.SyncMerge

/-!
# Which deletions reach a client

A sync never compares its rows with the cloud; a deleted post's row goes only when
the one notice on the board names it, and the board is read only when the fetch
returned a post of the city. So a complete sync rids a client of the stale rows of
its city exactly when it has none, or when the fetch returned such a post and the
notice names each of them.

The notice names them in a run that keeps the board covering: a delete is
committed only while the notice names every copy of its post, a notice is
replaced only by one that names every copy of an absent post, and what a sync reads
is committed. A second deletion announced before all clients have synced the first, or
a delete committed after another announcement, breaks this.
-/

namespace Amigo

namespace World

variable {ι : Type*}

/-- A row of the city whose post is absent from the cloud. -/
def Stale (world : World ι) (client : ι) (city : String) (row : Row) : Prop :=
  row ∈ (world.clients client).postAmigo ∧ row.title = some city ∧
    ∀ key, row.psId = some key → key ∉ postIds world.cloud

/-- A sync's query returns a post of the city. -/
def Returns (platform : Platform) (world : World ι) (city : String) : Prop :=
  ∃ document ∈ Callback.read world.cloud (.fetchPosts 0 .merge),
    ofCity platform (some city) document = true

/-- The notice on the board names the row's key. -/
def Announced (world : World ι) (row : Row) : Prop :=
  ∃ key, row.psId = some key ∧ named (world.cloud .deleter) key = true

/-- The event keeps every dead copy announced: a delete is committed only while
the notice names every copy of its post, a new notice names every copy of an absent
post, and a sync's query returns committed posts only. -/
def AnnouncesDeletes (world : World ι) (event : Event ι) : Prop :=
  (∀ key ∈ world.deletesCommitted event, ∀ client, key ∈ (world.clients client).copies →
    named (world.cloud .deleter) key = true) ∧
  (∀ notice ∈ world.noticesCommitted event, ∀ client, ∀ key ∈ (world.clients client).copies,
    key ∉ postIds world.cloud → named [notice] key = true) ∧
  ∀ document ∈ world.postsRead event, document.documentID ∈ postIds world.cloud

instance [Fintype ι] (world : World ι) (event : Event ι) : Decidable (world.AnnouncesDeletes event) :=
  inferInstanceAs (Decidable ((∀ key ∈ world.deletesCommitted event, ∀ client,
    key ∈ (world.clients client).copies → named (world.cloud .deleter) key = true) ∧
  (∀ notice ∈ world.noticesCommitted event, ∀ client, ∀ key ∈ (world.clients client).copies,
    key ∉ postIds world.cloud → named [notice] key = true) ∧
  ∀ document ∈ world.postsRead event, document.documentID ∈ postIds world.cloud))

/-- A keyed row is removed exactly when its key is named. -/
theorem removed_iff_announced {world : World ι} {row : Row} (keyed : row.WellKeyed) :
    Removed (getDocuments (world.cloud .deleter)) row ↔ world.Announced row := by
  obtain ⟨key, isKey⟩ := Option.ne_none_iff_exists'.mp keyed.complete.1
  have postId : row.postId = some key := keyed.keys ▸ isKey
  constructor
  · rintro ⟨notice, member, postIds, announces, isNamed⟩
    have stored : notice ∈ world.cloud .deleter := mem_getDocuments.mp member
    refine ⟨key, isKey, (named_iff _ _).mpr ⟨notice, stored, postIds, announces, ?_⟩⟩
    exact namedBy_key postIds postId ▸ isNamed
  · rintro ⟨other, isOther, isNamed⟩
    cases Option.some.inj (isKey.symm.trans isOther)
    obtain ⟨notice, stored, postIds, announces, matched⟩ := (named_iff _ _).mp isNamed
    refine ⟨notice, mem_getDocuments.mpr stored, postIds, announces, ?_⟩
    exact (namedBy_key postIds postId).trans matched

/-- A merge leaves the stale rows of a client, and adds none. -/
theorem stale_merge {platform : Platform} {world : World ι} (sound : world.Sound) {client : ι} {city : String} {since : Int}
    {data : List Post}
    (matched : matchingPosts platform (some city) (Callback.read world.cloud (.fetchPosts since .merge)) =
      some data) {row : Row}
    (absent : ∀ key, row.psId = some key → key ∉ postIds world.cloud) :
    row ∈ mergePosts data (world.clients client).postAmigo ↔
      row ∈ (world.clients client).postAmigo := by
  apply Client.mergePosts_other matched
  intro document member post decoded _ same
  have posts : WellKeyedPosts world.Published (Callback.read world.cloud (.fetchPosts since .merge)) :=
    sound.posts.read rfl
  have isId : post.id = document.documentID := Option.some.inj
    ((initJson_fields decoded).1.symm.trans (posts.keyed document member).id)
  have whole : cString post.id = post.id :=
    cString_generated (isId ▸ sound.plain _ (posts.known document member))
  have stored : document ∈ world.cloud .posts := (mem_getDocumentsSince.mp member).1
  apply absent document.documentID
  · rw [same, ← isId]
    exact congrArg some whole
  · exact List.mem_map_of_mem stored

/-- The filtered list is not empty exactly when the query returns a post of the
city. -/
theorem fetched_iff {platform : Platform} {world : World ι} (sound : world.Sound) {city : String} {since : Int}
    {data : List Post}
    (matched : matchingPosts platform (some city) (Callback.read world.cloud (.fetchPosts since .merge)) =
      some data) :
    data ≠ [] ↔ ∃ document ∈ Callback.read world.cloud (.fetchPosts since .merge),
      ofCity platform (some city) document = true := by
  constructor
  · intro found
    obtain ⟨post, member⟩ := List.exists_mem_of_ne_nil data found
    obtain ⟨document, isRead, decoded, titled⟩ := Client.matchingPosts_origin matched member
    exact ⟨document, isRead,
      (ofCity_iff ..).mpr ⟨post.title, (initJson_fields decoded).2.1, titled⟩⟩
  · rintro ⟨document, isRead, isOf⟩ rfl
    have posts : WellKeyedPosts world.Published (Callback.read world.cloud (.fetchPosts since .merge)) :=
      sound.posts.read rfl
    obtain ⟨post, decoded, _⟩ := (posts.keyed document isRead).decodes
    exact absurd (Client.matchingPosts_complete matched isRead decoded (ofCity_title isOf decoded))
      List.not_mem_nil

variable [DecidableEq ι]

/-- A row of an idle client is stale after a complete sync exactly when it was
before, and the query returned no post of the city or the notice does not name
it. -/
theorem stale_after {platform : Platform} {world after : World ι} {client : ι} {city : String}
    (sound : world.Sound) (plain : world.PlainNotices) (undated : (world.clients client).Undated)
    (idle : (world.clients client).pending = []) (clear : (world.clients client).Clear)
    (synced : world.CompleteSync platform client city after) (row : Row) :
    after.Stale client city row ↔ world.Stale client city row ∧
      ¬ (world.Returns platform city ∧ world.Announced row) := by
  obtain ⟨sameCloud, data, matched, rows⟩ := completeSync_rows plain idle clear synced
  rw [undated.lastUpdateDate] at matched
  have found := fetched_iff sound matched
  unfold Stale
  rw [sameCloud, rows row]
  constructor
  · rintro ⟨⟨merged, kept⟩, titled, absent⟩
    have older := (stale_merge sound matched absent).mp merged
    refine ⟨⟨older, titled, absent⟩, ?_⟩
    rintro ⟨returns, announced⟩
    have keyed := (sound.clients client).rows row older
    exact kept (found.mpr returns) ((removed_iff_announced keyed).mpr announced)
  · rintro ⟨⟨older, titled, absent⟩, spared⟩
    refine ⟨⟨(stale_merge sound matched absent).mpr older, ?_⟩, titled, absent⟩
    intro nonempty removed
    have keyed := (sound.clients client).rows row older
    exact spared ⟨found.mp nonempty, (removed_iff_announced keyed).mp removed⟩

/-- An admitted step keeps the board covering. -/
theorem covering_step {platform : Platform} {world next : World ι} {event : Event ι} (sound : world.Sound)
    (covering : world.board.Covering) (admitted : world.AnnouncesDeletes event)
    (stepped : world.step platform event = some next) : next.board.Covering := by
  obtain ⟨deleting, announcing, reading⟩ := admitted
  cases step_board sound stepped with
  | works works =>
    apply works.covering covering
    rintro key ⟨_, isRead⟩
    obtain ⟨document, member, rfl⟩ := List.mem_map.mp isRead
    exact Or.inr (Or.inl (reading document member))
  | publishes key committed publishes => exact publishes.covering covering
  | retracts key committed retracts =>
    apply retracts.covering covering
    rintro other ⟨⟨client, copied⟩, rfl⟩
    exact deleting other committed client copied
  | announces notice committed announces =>
    apply announces.covering
    rintro key ⟨⟨client, copied⟩, absent⟩
    exact announcing notice committed client key copied absent
  | abandons key rejected abandons => exact abandons.covering covering

/-- In a run that keeps dead copies announced, every stale row is announced. -/
theorem stale_announced {platform : Platform} {events : List (Event ι)} {world : World ι}
    (run : GuardedRuns.Runs (step platform) AnnouncesDeletes (init ι) events world) {client : ι}
    {city : String} {row : Row} (stale : world.Stale client city row) : world.Announced row := by
  have kept (before : World ι) (event : Event ι) (after : World ι)
      (holds : before.Sound ∧ before.board.Covering) (admitted : before.AnnouncesDeletes event)
      (stepped : before.step platform event = some after) : after.Sound ∧ after.board.Covering :=
    ⟨holds.1.step stepped, covering_step holds.1 holds.2 admitted stepped⟩
  have initial : (init ι).Sound ∧ (init ι).board.Covering := by
    refine ⟨sound_init, ?_⟩
    rintro key ⟨client, copied⟩
    exact absurd copied List.not_mem_nil
  obtain ⟨sound, covering⟩ := run.invariant kept initial
  obtain ⟨key, isKey⟩ := Option.ne_none_iff_exists'.mp
    ((sound.clients client).rows row stale.1).complete.1
  have copied : key ∈ (world.clients client).copies :=
    List.mem_append_left _ (List.mem_filterMap.mpr ⟨row, stale.1, isKey⟩)
  obtain live | isNamed := covering ⟨client, copied⟩
  · exact absurd live (stale.2.2 key isKey)
  · exact ⟨key, isKey, isNamed⟩

/-- Reachable notices are plain. -/
theorem Reachable.plainNotices {platform : Platform} {world : World ι} (reachable : world.Reachable platform) :
    world.PlainNotices := by
  have both := reachable.invariant (fun world => world.Sound ∧ world.PlainNotices)
    ⟨sound_init, plainNotices_init⟩
    (fun _ _ _ holds stepped => ⟨holds.1.step stepped, holds.2.step holds.1 stepped⟩)
  exact both.2

/-- A complete sync of an idle client, none of whose own writes to the posts or the
notices is queued, leaves no stale row of its city exactly when its query returns a post
of the city and the notice names each such row, unless there is none. In a run that keeps dead copies announced the notice names them,
and only the query decides. -/
theorem deletions_reach_client (platform : Platform) {events : List (Event ι)} {world after : World ι}
    {client : ι} {city : String}
    (run : GuardedRuns.Runs (step platform) GuardedRuns.unguarded (init ι) events world)
    (idle : (world.clients client).pending = []) (clear : (world.clients client).Clear)
    (synced : world.CompleteSync platform client city after) :
    ((∀ row, ¬ after.Stale client city row) ↔
      ∀ row, world.Stale client city row → world.Returns platform city ∧ world.Announced row) ∧
    (GuardedRuns.Runs (step platform) AnnouncesDeletes (init ι) events world →
      ((∀ row, ¬ after.Stale client city row) ↔
        ((∃ row, world.Stale client city row) → world.Returns platform city))) := by
  have reachable : world.Reachable platform := ⟨events, run⟩
  have remains := stale_after reachable.sound reachable.plainNotices (reachable.undated client) idle
    clear synced
  have exact : (∀ row, ¬ after.Stale client city row) ↔
      ∀ row, world.Stale client city row → world.Returns platform city ∧ world.Announced row := by
    constructor
    · intro none row stale
      by_contra spared
      exact none row ((remains row).mpr ⟨stale, spared⟩)
    · intro clears row staleAfter
      obtain ⟨stale, spared⟩ := (remains row).mp staleAfter
      exact spared (clears row stale)
  refine ⟨exact, ?_⟩
  intro announces
  rw [exact]
  constructor
  · rintro clears ⟨row, stale⟩
    exact (clears row stale).1
  · intro returns row stale
    exact ⟨returns ⟨row, stale⟩, stale_announced announces stale⟩

/-- The only post is synced by a second client and then deleted. -/
def lastPostDeleted : List (Event Bool) :=
  debut false ⟨"ann", "Ann", "", ""⟩ "Haifa" "AAAAAAAAAAAAAAAAAAA1" ++ sync false 4 ++ sync true 4 ++
    remove false (debutPost ⟨"ann", "Ann", "", ""⟩ "Haifa" "AAAAAAAAAAAAAAAAAAA1") 4

/-- A deletion need not reach a client: with no post of the city left, the board
is not read. -/
theorem deletion_not_always_seen : ¬ ∀ (events : List (Event Bool)) (world after : World Bool)
    (client : Bool) (city : String),
    GuardedRuns.Runs (step Platform.plain) GuardedRuns.unguarded (init Bool) events world →
    world.Quiescent → world.CompleteSync Platform.plain client city after →
    ∀ row, ¬ after.Stale client city row := by
  have ran : (GuardedRuns.exec (step Platform.plain) (init Bool) lastPostDeleted).any (fun world =>
      decide ((∀ client, (world.clients client).pending = [] ∧ (world.clients client).uploads = [] ∧
          (world.clients client).outbox = []) ∧
        (world.step Platform.plain (true, .getAllPosts)).any (fun middle =>
          (GuardedRuns.execGuarded (step Platform.plain) (ReadsOf true) middle (settle true 3)).any
            (fun after => decide ((after.clients true).pending = [] ∧ (after.clients true).trap = none ∧
              (after.clients true).firebaseCity = some "Haifa" ∧ after.cloud .posts = [] ∧
              (after.clients true).postAmigo =
                [(debutPost ⟨"ann", "Ann", "", ""⟩ "Haifa" "AAAAAAAAAAAAAAAAAAA1").row]))) = true)) =
      true := by decide +kernel
  obtain ⟨world, run, quiescent, started⟩ := GuardedRuns.exists_run ran
  obtain ⟨middle, begun, continued⟩ := (Option.any_eq_true _ _).mp started
  obtain ⟨after, reads, emptied, running, city, empty, rows⟩ :=
    GuardedRuns.exists_guarded_run continued
  intro always
  apply always _ world after true "Haifa" run quiescent
    ⟨middle, _, begun, reads, emptied, running, city⟩
    (debutPost ⟨"ann", "Ann", "", ""⟩ "Haifa" "AAAAAAAAAAAAAAAAAAA1").row
  refine ⟨by simp [rows], by decide, ?_⟩
  intro key _
  simp [postIds, empty]

/-- With another post of the city in the cloud the deletion reaches the client. -/
theorem deletions_reach_client_second_post : ∃ world after : World Bool,
    (∃ row, world.Stale true "Haifa" row) ∧
    world.CompleteSync Platform.plain true "Haifa" after ∧ ∀ row, ¬ after.Stale true "Haifa" row := by
  have ran : (GuardedRuns.execGuarded (step Platform.plain) AnnouncesDeletes (init Bool)
      (lastPostDeleted ++ publish false 1 "AAAAAAAAAAAAAAAAAAA2" 5)).any (fun world =>
      decide ((world.clients true).pending = [] ∧ (world.clients true).outbox = [] ∧
        postIds world.cloud = ["AAAAAAAAAAAAAAAAAAA2"] ∧
        (world.clients true).postAmigo =
          [(debutPost ⟨"ann", "Ann", "", ""⟩ "Haifa" "AAAAAAAAAAAAAAAAAAA1").row] ∧
        (Callback.read world.cloud (.fetchPosts 0 .merge)).any
          (ofCity Platform.plain (some "Haifa")) = true ∧
        (world.step Platform.plain (true, .getAllPosts)).any (fun middle =>
          (GuardedRuns.execGuarded (step Platform.plain) (ReadsOf true) middle (settle true 4)).any
            (fun after => decide ((after.clients true).pending = [] ∧ (after.clients true).trap = none ∧
              (after.clients true).firebaseCity = some "Haifa"))) = true)) = true := by
    decide +kernel
  obtain ⟨world, run, idle, drained, live, rows, found, started⟩ := GuardedRuns.exists_guarded_run ran
  obtain ⟨middle, begun, continued⟩ := (Option.any_eq_true _ _).mp started
  obtain ⟨after, reads, emptied, running, city⟩ := GuardedRuns.exists_guarded_run continued
  have synced : world.CompleteSync Platform.plain true "Haifa" after :=
    ⟨middle, _, begun, reads, emptied, running, city⟩
  have returns : world.Returns Platform.plain "Haifa" := List.any_eq_true.mp found
  refine ⟨world, after, ⟨(debutPost ⟨"ann", "Ann", "", ""⟩ "Haifa" "AAAAAAAAAAAAAAAAAAA1").row, ?_⟩,
    synced, ?_⟩
  · refine ⟨by simp [rows], by decide, ?_⟩
    intro key isKey
    cases Option.some.inj (show some "AAAAAAAAAAAAAAAAAAA1" = some key from isKey)
    simp [live]
  · have clear : (world.clients true).Clear := by simp [Client.Clear, drained]
    exact ((deletions_reach_client _ run.forget idle clear synced).2 run).mpr (fun _ => returns)

end World

end Amigo
