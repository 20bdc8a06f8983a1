import Amigo.SyncMerge

/-!
# Which rows a sync delivers

A sync filters the cloud documents by the city it has just read, but reads its
local rows by the copy of the city kept in `Post.city`. That copy is refreshed by
a read the sync starts and does not await, so it is the one an earlier sync asked
for, or the empty string of a fresh start; and it is compared by LIKE.

The delivered list is therefore exact under one condition on the state in which
the merge runs, stated for the rows the merge leaves: the pattern made of
`Post.city` selects those titles, and only those, that are the city. The law is
an equivalence at every completed sync of every run.
-/

namespace Amigo

namespace Client

/-- The rows a merge leaves: those of the city's documents in the snapshot, and
the old rows under other keys. -/
def Leaves (platform : Platform) (client : Client) (city : Option String) (snapshot : List Document) (row : Row) : Prop :=
  (∃ document ∈ snapshot, ∃ post, Post.initJson document.data = some post ∧
    platform.isCity city post.title = true ∧ row = post.row) ∨
  (row ∈ client.postAmigo ∧ ∀ document ∈ snapshot, ∀ post,
    Post.initJson document.data = some post → platform.isCity city post.title = true →
      row.psId ≠ post.row.psId)

/-- The stale copy of the city selects, among the rows the merge leaves, exactly
those of the city the sync read. -/
def Fits (platform : Platform) (client : Client) (snapshot : List Document) (answer : Answer) : Prop :=
  ∀ row, client.Leaves platform (client.cityRead answer) snapshot row →
    (inCity client.postCity row = true ↔ row.title = client.cityRead answer)

/-- The completion was called with exactly the rows of a city. -/
def DeliversCity (city : Option String) (before after : Client) : Prop :=
  ∃ finalData, after.delivered = before.delivered ++ [finalData] ∧
    ∀ post, post ∈ finalData ↔ ∃ row ∈ after.postAmigo, row.title = city ∧ readRow row = some post

end Client

namespace Client

/-- The rows a merge leaves are the rows after it. -/
theorem leaves_iff {platform : Platform} {known : String → Prop} {client : Client} {city : Option String}
    {snapshot : List Document} {data : List Post} (posts : WellKeyedPosts known snapshot)
    (plain : ∀ id, known id → generated id = true)
    (matched : matchingPosts platform city snapshot = some data) (row : Row) :
    row ∈ mergePosts data client.postAmigo ↔ client.Leaves platform city snapshot row := by
  constructor
  · intro member
    by_cases stored : ∃ document ∈ snapshot, ∃ post, Post.initJson document.data = some post ∧
        platform.isCity city post.title = true ∧ row.psId = post.row.psId
    · obtain ⟨document, inSnapshot, post, decoded, titled, sameKey⟩ := stored
      refine Or.inl ⟨document, inSnapshot, post, decoded, titled, ?_⟩
      have isStored := mergePosts_stored posts plain matched client.postAmigo inSnapshot decoded titled
      rw [mergePosts_eq] at member isStored
      obtain ours | ⟨_, apart⟩ := KeyedRows.mem_upsertAll_origin member
      · obtain ⟨other, isOther, rfl⟩ := List.mem_map.mp ours
        obtain ⟨source, sourceIn, otherDecoded, _⟩ := matchingPosts_origin matched isOther
        rw [snapshot_row_unique posts plain sourceIn inSnapshot otherDecoded decoded
          ⟨sameKey, by simp [Post.row]⟩]
      · have isFetched := matchingPosts_complete matched inSnapshot decoded titled
        exact absurd ⟨sameKey, by simp [Post.row]⟩ (apart _ (List.mem_map_of_mem isFetched))
    · have apart : ∀ document ∈ snapshot, ∀ post, Post.initJson document.data = some post →
          platform.isCity city post.title = true → row.psId ≠ post.row.psId := by
        intro document inSnapshot post decoded titled same
        exact stored ⟨document, inSnapshot, post, decoded, titled, same⟩
      exact Or.inr ⟨(mergePosts_other matched _ apart).mp member, apart⟩
  · rintro (⟨document, inSnapshot, post, decoded, titled, rfl⟩ | ⟨older, apart⟩)
    · exact mergePosts_stored posts plain matched _ inSnapshot decoded titled
    · exact (mergePosts_other matched _ apart).mpr older

/-- Two rows of a separate table with generated keys that read as one post are
one row. -/
theorem readRow_unique {known : String → Prop} {rows : List Row}
    (plain : ∀ id, known id → generated id = true)
    (named : ∀ row ∈ rows, ∃ id, known id ∧ row.psId = some (cString id))
    (separate : KeyedRows.Separate samePrimaryKey rows) {first second : Row}
    (firstIn : first ∈ rows) (secondIn : second ∈ rows) {post : Post}
    (firstRead : readRow first = some post) (secondRead : readRow second = some post) :
    first = second := by
  have key {row : Row} (member : row ∈ rows) (isRead : readRow row = some post) :
      row.psId = some post.id := by
    obtain ⟨id, isKnown, isNamed⟩ := named row member
    have whole : cString id = id := cString_generated (plain id isKnown)
    have column := (readRow_columns isRead).1
    rw [isNamed, columnText, Option.map_some, whole, whole] at column
    rw [isNamed, whole, column]
  apply separate.eq_of_clash samePrimaryKey_symmetric firstIn secondIn
  exact ⟨(key firstIn firstRead).trans (key secondIn secondRead).symm, by
    rw [key secondIn secondRead]
    simp⟩

end Client

namespace World

variable {ι : Type*}

/-- The step delivers the second read of a sync, and with it calls the sync's
completion. -/
def Completes (world : World ι) (event : Event ι) (client : ι) (snapshot : List Document)
    (answer : Answer) : Prop :=
  ∃ index : Nat, event = (client, .deliver index) ∧
    (world.clients client).pending[index]? = some ⟨.fetchCities snapshot .merge, some answer⟩

/-- The rows after a completed sync, and what it delivers of them. -/
theorem completed_feed [DecidableEq ι] {platform : Platform} {world after : World ι} {event : Event ι}
    (sound : world.Sound) (pinned : world.Pinned platform)
    (stepped : world.step platform event = some after) {client : ι} {snapshot : List Document} {answer : Answer}
    (completes : world.Completes event client snapshot answer) :
    (∀ row, row ∈ (after.clients client).postAmigo ↔
      (world.clients client).Leaves platform ((world.clients client).cityRead answer) snapshot row) ∧
    ∃ finalData, (after.clients client).delivered = (world.clients client).delivered ++ [finalData] ∧
      ∀ post, post ∈ finalData ↔ ∃ row ∈ (after.clients client).postAmigo,
        inCity (world.clients client).postCity row = true ∧ readRow row = some post := by
  obtain ⟨index, rfl, ready⟩ := completes
  have posts := (sound.clients client).held _ (List.mem_of_getElem? ready)
  obtain ⟨_, data, matched, result⟩ := Client.deliver_merge ready posts.keyed (step_act stepped)
  have complete : ∀ row ∈ mergePosts data (world.clients client).postAmigo, row.Complete :=
    fun row member =>
      (Client.mergePosts_wellKeyed posts.keyed matched (sound.clients client).rows row member).complete
  rw [result]
  constructor
  · intro row
    rw [Client.merge_rows]
    exact Client.leaves_iff posts sound.plain matched row
  · obtain ⟨finalData, isRead, called⟩ := Client.merge_delivered platform
      { world.clients client with
        pending := (world.clients client).pending.eraseIdx index
        firebaseCity := (world.clients client).cityRead answer } (pinned.clients client).plain complete
    refine ⟨finalData, called, ?_⟩
    intro post
    rw [Client.merge_rows, mem_readRows isRead post,
      selectedRows_plain platform (pinned.clients client).plain]
    simp only [List.mem_filter, and_assoc]

/-- At every completed sync of every run the delivered list is the list of the
city the sync filtered by, exactly when the copy of the city kept since an
earlier sync selects that city's rows among those the merge leaves. -/
theorem delivered_list_iff [DecidableEq ι] (platform : Platform) {events : List (Event ι)}
    {last : World ι} (run : GuardedRuns.Runs (step platform) GuardedRuns.unguarded (init ι) events last) :
    ∀ before event after, (before, event, after) ∈ GuardedRuns.transitions (step platform) (init ι) events →
      ∀ client snapshot answer, before.Completes event client snapshot answer →
        (Client.DeliversCity ((before.clients client).cityRead answer) (before.clients client)
            (after.clients client) ↔
          (before.clients client).Fits platform snapshot answer) := by
  have kept (before : World ι) (event : Event ι) (after : World ι)
      (holds : before.Sound ∧ before.Pinned platform) (_ : GuardedRuns.unguarded before event)
      (stepped : before.step platform event = some after) : after.Sound ∧ after.Pinned platform :=
    ⟨holds.1.step stepped, holds.2.step stepped⟩
  refine run.every_step kept ?_ ⟨sound_init, pinned_init platform⟩
  rintro before event after ⟨sound, pinned⟩ _ stepped client snapshot answer completes
  obtain ⟨leaves, finalData, called, feed⟩ := completed_feed sound pinned stepped completes
  have afterSound := (sound.step stepped).clients client
  have readable : ∀ row ∈ (after.clients client).postAmigo, ∃ post, readRow row = some post :=
    fun row member => Option.isSome_iff_exists.mp
      ((readRow_isSome_iff row).mpr (afterSound.rows row member).complete)
  have unique {first second : Row} {post : Post} (firstIn : first ∈ (after.clients client).postAmigo)
      (secondIn : second ∈ (after.clients client).postAmigo) (firstRead : readRow first = some post)
      (secondRead : readRow second = some post) : first = second :=
    Client.readRow_unique (sound.step stepped).plain afterSound.named afterSound.separate firstIn
      secondIn firstRead secondRead
  constructor
  · rintro ⟨claimed, isCalled, exact⟩ row left
    have same : claimed = finalData := by
      rw [called] at isCalled
      exact (List.cons.inj (List.append_cancel_left isCalled)).1.symm
    subst same
    have member := (leaves row).mpr left
    obtain ⟨post, isRead⟩ := readable row member
    have shown : post ∈ claimed ↔ inCity (before.clients client).postCity row = true := by
      rw [feed post]
      constructor
      · rintro ⟨other, otherIn, selected, otherRead⟩
        exact unique otherIn member otherRead isRead ▸ selected
      · intro selected
        exact ⟨row, member, selected, isRead⟩
    rw [← shown, exact post]
    constructor
    · rintro ⟨other, otherIn, titled, otherRead⟩
      exact unique otherIn member otherRead isRead ▸ titled
    · intro titled
      exact ⟨row, member, titled, isRead⟩
  · intro fits
    refine ⟨finalData, called, ?_⟩
    intro post
    rw [feed post]
    constructor
    · rintro ⟨row, member, selected, isRead⟩
      exact ⟨row, member, (fits row ((leaves row).mp member)).mp selected, isRead⟩
    · rintro ⟨row, member, titled, isRead⟩
      exact ⟨row, member, (fits row ((leaves row).mp member)).mpr titled, isRead⟩

/-- A second device syncs one city, and then, when another client has selected a
second city and posted there, syncs that one. -/
def twoCities : List (Event Bool) :=
  debut false ⟨"ann", "Ann", "", ""⟩ "Haifa" "AAAAAAAAAAAAAAAAAAA1" ++ sync true 4 ++
    select false "Eilat" 4 ++ publish false 1 "AAAAAAAAAAAAAAAAAAA2" 5 ++ (sync true 2).dropLast

/-- The state before the second sync's completion, and what the completion gets:
the post of the first city and none of the second. -/
theorem twoCities_feed : ∃ before after : World Bool,
    GuardedRuns.Runs (step Platform.plain) GuardedRuns.unguarded (init Bool)
      (twoCities ++ [(true, .deliver 0)]) after ∧
    (before, (true, .deliver 0), after) ∈ GuardedRuns.transitions (step Platform.plain) (init Bool)
      (twoCities ++ [(true, .deliver 0)]) ∧
    (∃ snapshot answer, before.Completes (true, .deliver 0) true snapshot answer ∧
      (before.clients true).cityRead answer = some "Eilat") ∧
    (before.clients true).delivered.length = 1 ∧
    (after.clients true).delivered.map (List.map Post.title) = [["Haifa"], ["Haifa"]] ∧
    (after.clients true).postAmigo.map Row.title = [some "Haifa", some "Eilat"] := by
  have ran : ((GuardedRuns.exec (step Platform.plain) (init Bool) twoCities).any fun before =>
      (before.step Platform.plain (true, .deliver 0)).any fun after =>
        decide (((before.clients true).pending =
            [⟨.fetchCities (getDocumentsSince 0 (before.cloud .posts)) .merge,
              some (.snapshot (getDocuments (before.cloud .cities)))⟩] ∧
          (before.clients true).cityRead (.snapshot (getDocuments (before.cloud .cities))) =
            some "Eilat" ∧ (before.clients true).delivered.length = 1) ∧
          (after.clients true).delivered.map (List.map Post.title) = [["Haifa"], ["Haifa"]] ∧
          (after.clients true).postAmigo.map Row.title = [some "Haifa", some "Eilat"])) = true := by
    decide +kernel
  obtain ⟨before, after, run, transition, ⟨pending, city, count⟩, delivered, rows⟩ :=
    GuardedRuns.exists_transition ran
  refine ⟨before, after, run, transition, ?_, count, delivered, rows⟩
  have ready : (before.clients true).pending[0]? =
      some ⟨.fetchCities (getDocumentsSince 0 (before.cloud .posts)) .merge,
        some (.snapshot (getDocuments (before.cloud .cities)))⟩ := by
    rw [pending]
    rfl
  exact ⟨_, _, ⟨0, rfl, ready⟩, city⟩

/-- The equivalence at the second sync of that run. -/
theorem delivered_list_iff_twoCities : ∃ before after : World Bool, ∃ snapshot answer,
    before.Completes (true, .deliver 0) true snapshot answer ∧
    (Client.DeliversCity ((before.clients true).cityRead answer) (before.clients true)
        (after.clients true) ↔
      (before.clients true).Fits Platform.plain snapshot answer) := by
  obtain ⟨before, after, run, transition, ⟨snapshot, answer, completes, _⟩, _⟩ := twoCities_feed
  refine ⟨before, after, snapshot, answer, completes, ?_⟩
  exact delivered_list_iff _ run before (true, .deliver 0) after transition true snapshot answer
    completes

/-- Not every completed sync delivers the list of the city it filtered by. -/
theorem delivered_list_not_always : ¬ ∀ (events : List (Event Bool)) (last : World Bool),
    GuardedRuns.Runs (step Platform.plain) GuardedRuns.unguarded (init Bool) events last →
    ∀ before event after,
      (before, event, after) ∈ GuardedRuns.transitions (step Platform.plain) (init Bool) events →
      ∀ client snapshot answer, before.Completes event client snapshot answer →
        Client.DeliversCity ((before.clients client).cityRead answer) (before.clients client)
          (after.clients client) := by
  intro always
  obtain ⟨before, after, run, transition, ⟨snapshot, answer, completes, city⟩, count, titles, _⟩ :=
    twoCities_feed
  obtain ⟨finalData, called, exact⟩ :=
    always _ _ run before _ after transition true snapshot answer completes
  have shown : finalData.map Post.title = ["Haifa"] := by
    rw [called, List.map_append] at titles
    have split : (before.clients true).delivered.map (List.map Post.title) ++
        [finalData].map (List.map Post.title) = [["Haifa"]] ++ [["Haifa"]] := titles
    have last := (List.append_inj split (by simpa using count)).2
    exact (List.cons.inj last).1
  cases finalData with
  | nil => simp at shown
  | cons post others =>
    have haifa : post.title = "Haifa" := (List.cons.inj shown).1
    obtain ⟨row, _, titled, isRead⟩ := (exact post).mp List.mem_cons_self
    have column := (readRow_columns isRead).2.1
    rw [titled, city, haifa] at column
    exact absurd column (by decide)

end World

end Amigo
