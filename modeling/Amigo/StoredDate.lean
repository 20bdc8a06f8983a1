import Amigo.FeedCity
import Amigo.FetchedPosts

/-!
# The stored date of the last update

A sync is meant to remember the newest update it merged and to ask the next time
only for what came since. The decoder does not read the update of a post, and the
completion stores a variable of its own, declared zero, that nothing raises. The
stored date is zero in every reachable state. It keeps what it should only when
nothing that was merged was updated after the epoch.
-/

namespace Amigo

/-- The second of the document's update, once it is committed. -/
def updatedSeconds (document : Document) : Option Int :=
  match document.data.get "lastUpdate" with
  | some (.timestamp time) => some time.seconds
  | _ => none

/-- The newest update among documents. -/
def newestUpdate (documents : List Document) : Option Int :=
  (documents.filterMap updatedSeconds).max?

/-- The stored date does not decrease, and when something was merged it is the later
of what it was and the newest update merged. -/
structure TracksUpdates (before after : Client) (merged : List Document) : Prop where
  grows : before.lastUpdateDate ≤ after.lastUpdateDate
  newest : ∀ seconds, newestUpdate merged = some seconds →
    after.lastUpdateDate = max before.lastUpdateDate seconds

/-- No document is updated after its newest update. -/
theorem newestUpdate_le_iff {documents : List Document} {bound : Int} :
    (∀ seconds, newestUpdate documents = some seconds → seconds ≤ bound) ↔
      ∀ document ∈ documents, ∀ second ∈ updatedSeconds document, second ≤ bound := by
  constructor
  · intro bounded document member second isSecond
    have listed : second ∈ documents.filterMap updatedSeconds :=
      List.mem_filterMap.mpr ⟨document, member, isSecond⟩
    obtain ⟨newest, isNewest⟩ :=
      Option.isSome_iff_exists.mp (List.isSome_max?_of_ne_nil (List.ne_nil_of_mem listed))
    exact (List.max?_le_iff isNewest).mp (bounded newest isNewest) second listed
  · intro bounded seconds isNewest
    refine (List.max?_le_iff isNewest).mpr ?_
    intro second listed
    obtain ⟨document, member, isSecond⟩ := List.mem_filterMap.mp listed
    exact bounded document member second isSecond

namespace World

variable {ι : Type*} [DecidableEq ι]

/-- At every completed sync of every run the stored date keeps up with the merged
documents exactly when none of them was updated after the epoch. -/
theorem stored_date_tracks_iff (platform : Platform) {events : List (Event ι)} {last : World ι}
    (run : GuardedRuns.Runs (step platform) GuardedRuns.unguarded (init ι) events last) :
    ∀ before event after, (before, event, after) ∈ GuardedRuns.transitions (step platform) (init ι) events →
      ∀ client snapshot answer, before.Completes event client snapshot answer →
        (TracksUpdates (before.clients client) (after.clients client)
            (snapshot.filter (ofCity platform ((before.clients client).cityRead answer))) ↔
          ∀ document ∈ snapshot.filter (ofCity platform ((before.clients client).cityRead answer)),
            ∀ second ∈ updatedSeconds document, second ≤ 0) := by
  have kept (before : World ι) (event : Event ι) (after : World ι)
      (reachable : before.Reachable platform) (_ : GuardedRuns.unguarded before event)
      (stepped : before.step platform event = some after) : after.Reachable platform := by
    obtain ⟨history, ran⟩ := reachable
    exact ⟨history ++ [event], ran.append (.next trivial stepped (.done after))⟩
  refine run.every_step kept ?_ ⟨[], .done _⟩
  intro before event after reachable admitted stepped client snapshot answer completes
  have earlier : (before.clients client).lastUpdateDate = 0 :=
    (reachable.undated client).lastUpdateDate
  have later : (after.clients client).lastUpdateDate = 0 :=
    ((kept before event after reachable admitted stepped).undated client).lastUpdateDate
  rw [← newestUpdate_le_iff]
  constructor
  · intro tracks seconds isNewest
    have raised := tracks.newest seconds isNewest
    rw [earlier, later] at raised
    exact raised ▸ le_max_right 0 seconds
  · intro old
    refine ⟨by rw [earlier, later], fun seconds isNewest => ?_⟩
    rw [earlier, later, max_eq_left (old seconds isNewest)]

/-- A second device syncs, up to the completion of its sync. -/
def firstSync : List (Event Bool) :=
  debut false ⟨"ann", "Ann", "", ""⟩ "Haifa" "AAAAAAAAAAAAAAAAAAA1" ++ (sync true 2).dropLast

/-- The event, with a server clock that stands at the epoch. -/
def atEpoch (event : Event Bool) : Event Bool :=
  match event with
  | (client, .commit _) => (client, .commit ⟨0, 0⟩)
  | (client, action) => (client, action)

/-- A post written at the epoch is merged, and the date keeps up with it. -/
theorem stored_date_tracks_iff_epoch : ∃ before after : World Bool, ∃ snapshot answer,
    before.Completes (true, .deliver 0) true snapshot answer ∧
      newestUpdate (snapshot.filter
        (ofCity Platform.plain ((before.clients true).cityRead answer))) = some 0 ∧
      TracksUpdates (before.clients true) (after.clients true)
        (snapshot.filter (ofCity Platform.plain ((before.clients true).cityRead answer))) := by
  have ran : ((GuardedRuns.exec (step Platform.plain) (init Bool) (firstSync.map atEpoch)).any
      fun before => (before.step Platform.plain (true, .deliver 0)).any fun _ =>
        decide ((before.clients true).pending =
            [⟨.fetchCities (getDocumentsSince 0 (before.cloud .posts)) .merge,
              some (.snapshot (getDocuments (before.cloud .cities)))⟩] ∧
          newestUpdate ((getDocumentsSince 0 (before.cloud .posts)).filter
            (ofCity Platform.plain ((before.clients true).cityRead
              (.snapshot (getDocuments (before.cloud .cities)))))) = some 0 ∧
          ∀ document ∈ getDocumentsSince 0 (before.cloud .posts),
            ∀ second ∈ updatedSeconds document, second ≤ 0)) = true := by
    decide +kernel
  obtain ⟨before, after, run, transition, pending, newest, old⟩ := GuardedRuns.exists_transition ran
  have completes : before.Completes (true, .deliver 0) true _ _ := ⟨0, rfl, by rw [pending]; rfl⟩
  refine ⟨before, after, _, _, completes, newest, ?_⟩
  rw [stored_date_tracks_iff _ run before (true, .deliver 0) after transition true _ _ completes]
  intro document member
  exact old document (List.mem_filter.mp member).1

/-- The stored date does not always keep up with the merged documents. -/
theorem stored_date_not_always_tracks : ¬ ∀ (events : List (Event Bool)) (last : World Bool),
    GuardedRuns.Runs (step Platform.plain) GuardedRuns.unguarded (init Bool) events last →
    ∀ before event after,
      (before, event, after) ∈ GuardedRuns.transitions (step Platform.plain) (init Bool) events →
      ∀ client snapshot answer, before.Completes event client snapshot answer →
        TracksUpdates (before.clients client) (after.clients client)
          (snapshot.filter (ofCity Platform.plain ((before.clients client).cityRead answer))) := by
  intro always
  have ran : ((GuardedRuns.exec (step Platform.plain) (init Bool) firstSync).any fun before =>
      (before.step Platform.plain (true, .deliver 0)).any fun after =>
        decide ((before.clients true).pending =
            [⟨.fetchCities (getDocumentsSince 0 (before.cloud .posts)) .merge,
              some (.snapshot (getDocuments (before.cloud .cities)))⟩] ∧
          newestUpdate ((getDocumentsSince 0 (before.cloud .posts)).filter
            (ofCity Platform.plain ((before.clients true).cityRead
              (.snapshot (getDocuments (before.cloud .cities)))))) = some 3 ∧
          (before.clients true).lastUpdateDate = 0 ∧ (after.clients true).lastUpdateDate = 0)) =
      true := by
    decide +kernel
  obtain ⟨before, after, run, transition, pending, newest, earlier, later⟩ :=
    GuardedRuns.exists_transition ran
  have completes : before.Completes (true, .deliver 0) true _ _ := ⟨0, rfl, by rw [pending]; rfl⟩
  have tracks := always _ _ run before _ after transition true _ _ completes
  have raised := tracks.newest 3 newest
  rw [earlier, later] at raised
  simp at raised

end World

end Amigo
