import Amigo.Overtaking

/-!
# A user's own delete

Deleting a post removes its row and queues the removal of its document. A sync that
read the document before it was gone knows nothing of this: when it ends later it
stores the row again and lists the post. The lookup that would remove the row is
asked by the same completion and answered after the list was handed over.

Rows come only from what a sync stores, and lists only from rows. So the post stays
off the screen as long as no sync of the client stores a version of it; and once its
document is gone and no sync of the client holds a version, none can, unless an edit
brings the post back.
-/

namespace Amigo

namespace World

variable {ι : Type*}

/-- The posts whose row a step removes and whose document it queues to be removed. -/
def removedOwn (platform : Platform) (world : World ι) (event : Event ι) : List String :=
  match event.2 with
  | .deliver index =>
    match (world.clients event.1).pending[index]? with
    | some ⟨.fetchCities snapshot (.delete postIds), some answer⟩ =>
      if (matchingPosts platform ((world.clients event.1).cityRead answer) snapshot).any
          (fun data => data.any (fun post => post.postId == postIds)) then [postIds]
      else []
    | _ => []
  | _ => []

/-- A removal is the search of `Model.deleteAPosts` that finds the post. -/
theorem removedOwn_found {platform : Platform} {world : World ι} {event : Event ι} {docId : String}
    (removes : docId ∈ world.removedOwn platform event) :
    ∃ (index : Nat) (snapshot : List Document) (answer : Answer) (data : List Post),
      event.2 = .deliver index ∧ (world.clients event.1).pending[index]? =
        some ⟨.fetchCities snapshot (.delete docId), some answer⟩ ∧
      matchingPosts platform ((world.clients event.1).cityRead answer) snapshot = some data ∧
      ∃ post ∈ data, post.postId = docId := by
  obtain ⟨client, action⟩ := event
  cases action with
  | deliver index =>
    simp only [removedOwn] at removes
    split at removes
    · rename_i snapshot postIds answer ready
      split at removes
      · rename_i found
        rw [List.mem_singleton.mp removes]
        obtain ⟨data, matched, has⟩ := (Option.any_eq_true _ _).mp found
        obtain ⟨post, isFetched, same⟩ := List.any_eq_true.mp has
        exact ⟨index, snapshot, answer, data, rfl, ready, matched, post, isFetched, by simpa using same⟩
      · exact absurd removes List.not_mem_nil
    · exact absurd removes List.not_mem_nil
  | _ => exact absurd removes List.not_mem_nil

/-- The step stores no version of the post at the client. -/
def StoresNone (platform : Platform) (client : ι) (docId : String) (world : World ι)
    (event : Event ι) : Prop :=
  event.1 = client → ∀ document ∈ world.merged platform event, document.documentID ≠ docId

instance [DecidableEq ι] (platform : Platform) (client : ι) (docId : String) (world : World ι)
    (event : Event ι) : Decidable (StoresNone platform client docId world event) :=
  inferInstanceAs (Decidable (event.1 = client →
    ∀ document ∈ world.merged platform event, document.documentID ≠ docId))

/-- The client has no row of the post. -/
def NoRow (world : World ι) (client : ι) (docId : String) : Prop :=
  ∀ row ∈ (world.clients client).postAmigo, row.psId ≠ some docId

/-- The post is gone, and no sync of the client holds a version of it. -/
structure Unread (world : World ι) (client : ι) (docId : String) : Prop where
  gone : world.Gone docId
  held : ∀ pending ∈ (world.clients client).pending, ∀ document ∈ pending.merging,
    document.documentID ≠ docId

variable [DecidableEq ι]

/-- A row after a step was there, or is that of a version the step stores. -/
theorem step_rows {platform : Platform} {world next : World ι} {event : Event ι}
    (stepped : world.step platform event = some next) {client : ι} {row : Row}
    (member : row ∈ (next.clients client).postAmigo) :
    row ∈ (world.clients client).postAmigo ∨ (event.1 = client ∧
      ∃ document ∈ world.merged platform event, ∃ post, Post.initJson document.data = some post ∧ row = post.row) := by
  obtain same | ⟨rfl, acted⟩ := client_after stepped client
  · exact Or.inl (same ▸ member)
  · obtain ⟨client, action⟩ := event
    obtain older | ⟨index, snapshot, answer, rfl, ready, document, inSnapshot, post, decoded, titled,
      isRow⟩ := Client.act_stored acted member
    · exact Or.inl older
    · refine Or.inr ⟨rfl, document, ?_, post, decoded, isRow⟩
      refine mem_merged.mpr ⟨snapshot, answer, ⟨index, rfl, ready⟩, inSnapshot, ?_⟩
      exact (ofCity_iff ..).mpr ⟨post.title, (initJson_fields decoded).2.1, titled⟩

/-- A step that stores no version of the post gives the client no row of it. -/
theorem NoRow.step {platform : Platform} {world next : World ι} {event : Event ι} {client : ι}
    {docId : String} (noRow : world.NoRow client docId) (sound : world.Sound)
    (storesNone : StoresNone platform client docId world event)
    (stepped : world.step platform event = some next) : next.NoRow client docId := by
  intro row member isKey
  obtain older | ⟨isClient, document, merged, post, decoded, rfl⟩ := step_rows stepped member
  · exact noRow row older isKey
  · obtain ⟨snapshot, answer, ⟨index, _, ready⟩, inSnapshot, _⟩ := mem_merged.mp merged
    have posts := (sound.clients event.1).held _ (List.mem_of_getElem? ready)
    have named := (posts.row_key sound.plain inSnapshot decoded).2
    have isDocument : document.documentID = docId := Option.some.inj (named.symm.trans isKey)
    exact storesNone isClient document merged isDocument

/-- The local removal leaves no row of the post. -/
theorem noRow_of_removes {platform : Platform} {world next : World ι} {event : Event ι}
    {docId : String} (sound : world.Sound)
    (removes : docId ∈ world.removedOwn platform event)
    (stepped : world.step platform event = some next) : next.NoRow event.1 docId := by
  obtain ⟨client, action⟩ := event
  obtain ⟨index, snapshot, answer, data, rfl, ready, matched, searched, isFetched, isSearched⟩ :=
    removedOwn_found removes
  have posts := (sound.clients client).held _ (List.mem_of_getElem? ready)
  have isGenerated : generated docId = true := by
    obtain ⟨document, inSnapshot, decoded, _⟩ := Client.matchingPosts_origin matched isFetched
    have carried := (posts.keyed document inSnapshot).postId
    rw [(initJson_fields decoded).2.2, isSearched] at carried
    rw [Option.some.inj carried]
    exact sound.plain _ (posts.known document inSnapshot)
  obtain ⟨post, found⟩ : ∃ post, data.find? (fun other => other.postId == docId) = some post := by
    refine Option.isSome_iff_exists.mp (List.find?_isSome.mpr ⟨searched, isFetched, ?_⟩)
    simp [isSearched]
  have isKey : post.postId = docId := by simpa using List.find?_some found
  have plain : PlainText post.postId := isKey ▸ generated_plain isGenerated
  have sameCity : ({ world.clients client with
      pending := (world.clients client).pending.eraseIdx index } : Client).cityRead answer =
        (world.clients client).cityRead answer := by cases answer <;> rfl
  have rows : (next.clients client).postAmigo =
      deleteFromDb platform post post.postId (world.clients client).postAmigo := by
    rw [deliver_answered stepped ready]
    simp only [Client.answered, Client.citiesAnswered, sameCity, matched, Client.afterFetch,
      Client.removePost, found]
    rfl
  intro row member named
  rw [rows, deleteFromDb_plain platform post plain] at member
  obtain ⟨before, unnamed⟩ := List.mem_filter.mp member
  have postId : row.postId = some post.postId :=
    isKey ▸ ((sound.clients client).rows row before).keys ▸ named
  have isNamed := namedBy_self plain postId
  simp [isNamed] at unnamed

/-- A client without a row of the post is shown none. -/
theorem NoRow.unlisted {platform : Platform} {world after : World ι} {event : Event ι} {client : ι}
    {docId : String} {snapshot : List Document} {answer : Answer} {finalData : List Post}
    (noRow : after.NoRow client docId) (sound : world.Sound) (pinned : world.Pinned platform)
    (stepped : world.step platform event = some after)
    (completes : world.Completes event client snapshot answer)
    (called : (after.clients client).delivered = (world.clients client).delivered ++ [finalData]) :
    ∀ post ∈ finalData, post.id ≠ docId ∧ post.postId ≠ docId := by
  obtain ⟨_, listed, calledWith, feed⟩ := completed_feed sound pinned stepped completes
  have same : finalData = listed := by
    rw [called] at calledWith
    exact (List.cons.inj (List.append_cancel_left calledWith)).1
  subst same
  intro post member
  obtain ⟨row, isRow, _, isRead⟩ := (feed post).mp member
  have soundAfter := (sound.step stepped).clients client
  obtain ⟨id, isKnown, named⟩ := soundAfter.named row isRow
  have whole : cString id = id := cString_generated ((sound.step stepped).plain id isKnown)
  obtain ⟨hasId, _, _, hasPostId⟩ := readRow_columns isRead
  have keys := (soundAfter.rows row isRow).keys
  rw [← keys, named, columnText, Option.map_some, whole, whole] at hasPostId
  rw [named, columnText, Option.map_some, whole, whole] at hasId
  have distinct : id ≠ docId := by
    rintro rfl
    exact noRow row isRow (whole ▸ named)
  exact ⟨Option.some.inj hasId ▸ distinct, Option.some.inj hasPostId ▸ distinct⟩

/-- After a client has removed a post, in a run in which no sync of that client stores
a version of it, no completion of the client is called with a list that holds the
post. -/
theorem own_delete_not_undone (platform : Platform) {before later : List (Event ι)}
    {world next last : World ι} {removal : Event ι} {docId : String}
    (history : GuardedRuns.Runs (step platform) GuardedRuns.unguarded (init ι) before world)
    (removes : docId ∈ world.removedOwn platform removal) (stepped : world.step platform removal = some next)
    (continued : GuardedRuns.Runs (step platform) (StoresNone platform removal.1 docId) next later last) :
    ∀ earlier event after,
      (earlier, event, after) ∈ GuardedRuns.transitions (step platform) next later →
      ∀ snapshot answer, earlier.Completes event removal.1 snapshot answer →
      ∀ finalData, (after.clients removal.1).delivered =
          (earlier.clients removal.1).delivered ++ [finalData] →
        ∀ post ∈ finalData, post.id ≠ docId ∧ post.postId ≠ docId := by
  have reachable : world.Reachable platform := ⟨before, history⟩
  have sound := reachable.sound
  have kept (state : World ι) (action : Event ι) (following : World ι)
      (facts : (state.Sound ∧ state.Pinned platform) ∧ state.NoRow removal.1 docId)
      (admitted : StoresNone platform removal.1 docId state action)
      (moved : state.step platform action = some following) :
      (following.Sound ∧ following.Pinned platform) ∧ following.NoRow removal.1 docId :=
    ⟨⟨facts.1.1.step moved, facts.1.2.step moved⟩, facts.2.step facts.1.1 admitted moved⟩
  refine continued.every_step kept ?_
    ⟨⟨sound.step stepped, reachable.pinned.step stepped⟩, noRow_of_removes sound removes stepped⟩
  intro earlier action after facts admitted moved snapshot answer completes finalData called
  exact NoRow.unlisted (facts.2.step facts.1.1 admitted moved) facts.1.1 facts.1.2 moved completes
    called

omit [DecidableEq ι] in
/-- No client is shown a post that is gone. -/
theorem Gone.unshown {world : World ι} {docId : String} (gone : world.Gone docId) (client : ι) :
    ∀ document ∈ (world.clients client).localView world.cloud .posts, document.documentID ≠ docId := by
  rintro document shown rfl
  obtain stored | ⟨index, key, json, queued, rfl⟩ := Client.mem_localView shown
  · exact gone.absent (List.mem_map_of_mem stored)
  · exact gone.unwritten client _ (List.mem_of_getElem? queued) rfl

/-- A step that brings no deleted post back leaves one unread. -/
theorem Unread.step {platform : Platform} {world next : World ι} {event : Event ι} {client : ι}
    {docId : String} (unread : world.Unread client docId) (standing : world.StandingEdits event)
    (stepped : world.step platform event = some next) : next.Unread client docId where
  gone := unread.gone.step standing stepped
  held := by
    intro pending member document merging
    obtain same | ⟨rfl, acted⟩ := client_after stepped client
    · exact unread.held pending (same ▸ member) document merging
    · obtain ⟨older, before, inOlder⟩ | isRead := Client.act_merging acted member merging
      · exact unread.held older before document inOlder
      · exact unread.gone.unshown _ document (Client.mem_postsRead isRead)

/-- A client none of whose syncs holds a post that is gone stores none, in every run in
which no edit brings it back. -/
theorem unread_stores_none {platform : Platform} {later : List (Event ι)} {world last : World ι}
    {client : ι} {docId : String} (unread : world.Unread client docId)
    (run : GuardedRuns.Runs (step platform) StandingEdits world later last) :
    GuardedRuns.Runs (step platform) (StoresNone platform client docId) world later last := by
  apply run.forget.guarded
  refine run.every_step (fun _ _ _ facts standing moved => Unread.step facts standing moved)
    ?_ unread
  intro state event next facts _ _ isClient document merged
  obtain ⟨snapshot, answer, ⟨index, _, ready⟩, inSnapshot, _⟩ := mem_merged.mp merged
  rw [isClient] at ready
  exact facts.held _ (List.mem_of_getElem? ready) document inSnapshot

/-- The author lists a post and deletes it, up to the removal; the reads of the delete
are at an index behind what waits already. -/
def deleting (waiting : List (Event Bool)) (index : Nat) : List (Event Bool) :=
  debut false ⟨"ann", "Ann", "", ""⟩ "Haifa" "AAAAAAAAAAAAAAAAAAA1" ++ sync false 4 ++ waiting ++
    (false, .confirmDelete (debutPost ⟨"ann", "Ann", "", ""⟩ "Haifa" "AAAAAAAAAAAAAAAAAAA1")) ::
      ((List.replicate 3 [(false, .answer index), (false, .deliver index)]).flatten).dropLast

/-- The removal is committed, and a later sync lists nothing. -/
theorem own_delete_not_undone_later_sync : ∃ earlier after : World Bool,
    (earlier.clients false).postAmigo = [] ∧ ∃ finalData,
      (after.clients false).delivered = (earlier.clients false).delivered ++ [finalData] ∧
        ∀ post ∈ finalData, post.id ≠ "AAAAAAAAAAAAAAAAAAA1" := by
  have ran : ((GuardedRuns.exec (step Platform.plain) (init Bool) (deleting [] 0)).any fun world =>
      decide ("AAAAAAAAAAAAAAAAAAA1" ∈ world.removedOwn Platform.plain (false, .deliver 0) ∧
        (world.step Platform.plain (false, .deliver 0)).any (fun next =>
          (GuardedRuns.execGuarded (step Platform.plain) (StoresNone Platform.plain false
            "AAAAAAAAAAAAAAAAAAA1") next [(false, .commit ⟨5, 0⟩), (false, .commit ⟨6, 0⟩), (false, .getAllPosts), (false, .answer 0),
              (false, .deliver 0), (false, .answer 0)]).any fun earlier =>
            decide (((earlier.clients false).postAmigo = [] ∧ StoresNone Platform.plain false
                "AAAAAAAAAAAAAAAAAAA1" earlier (false, .deliver 0) ∧ (earlier.clients false).pending[0]? = some ⟨.fetchCities []
                  .merge, some (.snapshot (getDocuments (earlier.cloud .cities)))⟩) ∧
              (earlier.step Platform.plain (false, .deliver 0)).any (fun after =>
                decide ((after.clients false).delivered =
                  (earlier.clients false).delivered ++ [[]])) = true)) = true)) = true := by
    decide +kernel
  obtain ⟨world, history, removes, continued⟩ := GuardedRuns.exists_run ran
  obtain ⟨next, stepped, following⟩ := (Option.any_eq_true _ _).mp continued
  obtain ⟨earlier, later, ⟨empty, admitted, ready⟩, finishing⟩ :=
    GuardedRuns.exists_guarded_run following
  obtain ⟨after, finished, called⟩ := (Option.any_eq_true _ _).mp finishing
  refine ⟨earlier, after, empty, [], of_decide_eq_true called, ?_⟩
  intro post member
  have executed := (GuardedRuns.runs_iff_exec _ _ _).mp later.forget
  exact (own_delete_not_undone _ history removes stepped
    (later.append (.next admitted finished (.done after))) earlier (false, .deliver 0) after
    (GuardedRuns.transition_after executed finished) _ _ ⟨0, rfl, ready⟩ [] (of_decide_eq_true called)
    post member).1

/-- A delete can be undone on the author's screen: a sync that read the post before
ends after its document is gone. -/
theorem own_delete_can_be_undone : ¬ ∀ (before between later : List (Event Bool))
    (world next middle gone last : World Bool) (removal : Event Bool) (time : Timestamp)
    (docId : String),
    GuardedRuns.Runs (step Platform.plain) GuardedRuns.unguarded (init Bool) before world →
    docId ∈ world.removedOwn Platform.plain removal → world.step Platform.plain removal = some next →
    GuardedRuns.Runs (step Platform.plain) GuardedRuns.unguarded next between middle →
    (middle.clients removal.1).outbox.head? = some (.delete docId) →
    middle.step Platform.plain (removal.1, .commit time) = some gone →
    GuardedRuns.Runs (step Platform.plain) GuardedRuns.unguarded gone later last →
    ∀ earlier event after,
      (earlier, event, after) ∈ GuardedRuns.transitions (step Platform.plain) gone later →
      ∀ snapshot answer, earlier.Completes event removal.1 snapshot answer →
      ∀ finalData, (after.clients removal.1).delivered =
          (earlier.clients removal.1).delivered ++ [finalData] →
        ∀ post ∈ finalData, post.id ≠ docId ∧ post.postId ≠ docId := by
  have ran : ((GuardedRuns.exec (step Platform.plain) (init Bool)
      (deleting [(false, .getAllPosts), (false, .answer 0), (false, .deliver 0)] 1)).any fun world =>
      decide ("AAAAAAAAAAAAAAAAAAA1" ∈ world.removedOwn Platform.plain (false, .deliver 1) ∧
        (world.step Platform.plain (false, .deliver 1)).any (fun next =>
          (GuardedRuns.exec (step Platform.plain) next [(false, .commit ⟨5, 0⟩)]).any fun middle =>
            decide ((middle.clients false).outbox.head? = some (.delete "AAAAAAAAAAAAAAAAAAA1") ∧
              (middle.step Platform.plain (false, .commit ⟨6, 0⟩)).any (fun gone =>
                (GuardedRuns.exec (step Platform.plain) gone [(false, .answer 0)]).any fun earlier =>
                  (earlier.step Platform.plain (false, .deliver 0)).any fun after =>
                    decide ((earlier.clients false).pending = [⟨.fetchCities
                        [⟨"AAAAAAAAAAAAAAAAAAA1", resolve (.committed ⟨3, 0⟩) (debutPost ⟨"ann", "Ann", "", ""⟩ "Haifa"
                          "AAAAAAAAAAAAAAAAAAA1").toJson⟩] .merge,
                        some (.snapshot (getDocuments (earlier.cloud .cities)))⟩] ∧
                      (after.clients false).delivered = (earlier.clients false).delivered ++
                        [[debutPost ⟨"ann", "Ann", "", ""⟩ "Haifa" "AAAAAAAAAAAAAAAAAAA1"]])) =
                true)) = true)) = true := by
    decide +kernel
  obtain ⟨world, history, removes, continued⟩ := GuardedRuns.exists_run ran
  obtain ⟨next, stepped, following⟩ := (Option.any_eq_true _ _).mp continued
  obtain ⟨middle, between, queued, committing⟩ := GuardedRuns.exists_run following
  obtain ⟨gone, committed, waiting⟩ := (Option.any_eq_true _ _).mp committing
  obtain ⟨earlier, after, later, transition, pending, called⟩ := GuardedRuns.exists_transition waiting
  intro always
  have unlisted := always _ _ _ world next middle gone after _ _ _ history removes stepped between queued
    committed later earlier _ after transition _ _ ⟨0, rfl, by rw [pending]; rfl⟩ _ called _
    List.mem_cons_self
  exact unlisted.1 rfl

end World

end Amigo
