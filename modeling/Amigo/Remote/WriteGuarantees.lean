import Amigo.Local.MemoryQueueScans
import Amigo.Remote.Draining

/-!
# What the writing client guarantees

Of every run of the client, from whatever an earlier session has left: which assertion
can fail, and when; that every call is answered once and the writes of a user in their
order; that what is told as done is committed; that no stream mixes users or leaves a
gap; and what a wait for pending writes waits for.
-/

namespace Amigo.Firestore

open LawfulMutationQueue

variable {Store User M : Type} [DecidableEq User] [MutationQueue Store User M]

namespace System

/-- A run of the client: it starts with the queues of a store, and events happen. -/
def run (user : User) (store : Store) (events : List (Event User M)) :
    Option (System Store User M) := do
  let first ← initialized user store
  events.foldlM step first

variable [LawfulMutationQueue Store User M] {user : User} {store : Store}

/-- The client starts, and its books are those of an outbox that starts. -/
theorem initialized_sound (valid : Valid store) (user : User) :
    ∃ first : System Store User M, initialized user store = some first ∧ first.Sound ∧
      Outbox.Starts first.outbox ∧ ∀ owner, Outbox.contents (first.outbox.queue owner) =
        (pending store owner).map MutationBatch.mutations := by
  obtain ⟨started, owner, same⟩ := start_spec valid user
  have quiet : FirestoreClient.Quiet (awaited ([] : List (Task User M)))
      (FirestoreClient.fresh user store).remote :=
    ⟨⟨by simp [FirestoreClient.fresh], by simp [FirestoreClient.fresh], rfl, nofun, fun _ _ => rfl⟩,
      rfl, rfl, rfl, rfl, rfl⟩
  have fresh : FirestoreClient.Sound (awaited []) (FirestoreClient.fresh user store) :=
    quiet.sound started owner false []
  obtain ⟨remote, enables, settled, _, stream, credentials, _, answered, opens⟩ :=
    fresh.enable nofun
  have tidy : (FirestoreClient.fresh user store).engine.Tidy := ⟨nofun, List.nodup_nil, nofun⟩
  refine ⟨⟨⟨(FirestoreClient.fresh user store).engine, remote⟩, [], [], []⟩, ?_,
    ⟨settled, tidy, credentials.symm, nofun⟩,
    ⟨credentials, rfl, rfl, rfl, congrArg List.length answered, rfl, ?_⟩, fun owner => ?_⟩
  · rw [initialized]
    exact congrArg (fun result : Option (FirestoreClient Store User M) => result.bind fun client =>
      some (System.mk client [] [] [])) enables
  · intro owner entry member
    obtain ⟨batch, _, rfl⟩ := List.mem_map.mp member
    refine ⟨rfl, ?_⟩
    show (if _ then _ else _) = []
    split <;> rfl
  · show ((pending _ owner).map _).map _ = _
    rw [List.map_map, FirestoreClient.fresh, same]
    rfl

/-- Every run is a run of outboxes. -/
theorem run_sound (valid : Valid store) {events : List (Event User M)}
    {system : System Store User M} (runs : run user store events = some system) :
    ∃ first : System Store User M, initialized user store = some first ∧
      Outbox.Starts first.outbox ∧ (∀ owner, Outbox.contents (first.outbox.queue owner) =
        (pending store owner).map MutationBatch.mutations) ∧
      system.Sound ∧ Outbox.Steps verdicts first.outbox system.outbox := by
  obtain ⟨first, starts, sound, begins, left⟩ := initialized_sound valid user
  refine ⟨first, starts, begins, left, ?_⟩
  have steps : events.foldlM step first = some system := by simpa [run, starts] using runs
  clear runs
  induction events using List.reverseRecOn generalizing system with
  | nil =>
    obtain rfl := Option.some.inj steps
    exact ⟨sound, .refl⟩
  | append_singleton before event inductionHypothesis =>
    rw [List.foldlM_append, Option.bind_eq_bind, Option.bind_eq_some_iff] at steps
    obtain ⟨reached, earlier, last⟩ := steps
    obtain ⟨kept, path⟩ := inductionHypothesis earlier
    have happens : reached.step event = some system := by simpa using last
    have fine : ¬ reached.EndsWithWork event := by
      intro ends
      rw [kept.step_none ends] at happens
      cases happens
    obtain ⟨after, isAfter, final, more⟩ := kept.step fine
    obtain rfl := Option.some.inj (isAfter.symm.trans happens)
    exact ⟨final, path.trans more⟩

/-- The client writes one document and waits for it, over a queue in memory. -/
def writesOne : List (Event Nat (Mutation DocumentKey Nat)) :=
  [.api (.write [⟨⟨[[112], [49]], rfl⟩, 7⟩]), .api .waitForPendingWrites, .runTask, .runTask,
    .tokenAnswered 0 none, .runTask, .serverReads [], .deliver, .serverReads [], .deliver]

/-- That run fails no assertion. -/
theorem writesOne_runs : ∃ system : System (MemoryPersistence Nat Nat) Nat _,
    run 0 (MemoryPersistence.create 0) writesOne = some system :=
  Option.isSome_iff_exists.mp (by decide +kernel)

/-- A run stops with a failed assertion exactly where a call ends well while batches are in
the pipeline. The pipeline is always the first ten batches of the queue of the current user,
and none while the network is off; and the open call is that user's, and carries, after its
handshake, what is in the pipeline, in order. -/
theorem pipeline_is_front (valid : Valid store) {events : List (Event User M)}
    {system : System Store User M} (runs : run user store events = some system) :
    (∀ event, system.step event = none ↔ system.EndsWithWork event) ∧
    system.client.remote.writePipeline =
      (pending system.client.engine.store system.client.engine.currentUser).take
        (if system.client.remote.isNetworkEnabled then kMaxPendingWrites else 0) ∧
    (∀ call, system.client.remote.call = some call →
      call.user = system.client.engine.currentUser ∧
      if system.client.remote.handshakeComplete = true
        then call.Carries system.client.remote.writePipeline else call.Shakes) ∧
    (system.client.remote.isNetworkEnabled = true → system.client.remote.writePipeline ≠ [] →
      system.client.remote.isStarted = true) := by
  obtain ⟨first, _, _, _, sound, _⟩ := run_sound valid runs
  refine ⟨fun event => ⟨fun fails => ?_, sound.step_none⟩, sound.client.full,
    sound.client.carried, sound.client.needed⟩
  by_contra fine
  obtain ⟨after, happens, _⟩ := sound.step fine
  rw [fails] at happens
  cases happens

/-- One user's one write, up to its acknowledgement. -/
theorem pipeline_is_front_one : ∃ system : System (MemoryPersistence Nat Nat) Nat _,
    run 0 (MemoryPersistence.create 0) writesOne = some system ∧
      ∀ event, system.step event = none ↔ system.EndsWithWork event := by
  obtain ⟨system, runs⟩ := writesOne_runs
  exact ⟨system, runs, (pipeline_is_front (MemoryPersistence.valid_create 0) runs).1⟩

/-- The calls of the app whose tasks have not run yet. -/
def unrun (system : System Store User M) : List Nat := Outbox.taskCalls system.outbox.tasks

/-- The calls are those that have been carried out and those whose tasks have not run. -/
theorem range_calls {executed : Nat} {system : System Store User M}
    (sound : Outbox.Sound verdicts executed system.outbox) :
    List.range system.calls.length = List.range executed ++ system.unrun := by
  have count : system.outbox.calls.length = system.calls.length := List.length_map _
  have ran : executed ≤ system.calls.length := count ▸ sound.ran
  have joined : List.range' 0 executed ++ List.range' (0 + executed)
      (system.calls.length - executed) =
        List.range' 0 (executed + (system.calls.length - executed)) := List.range'_append_1
  rw [Nat.zero_add, Nat.add_sub_cancel' ran] at joined
  rw [unrun, sound.remaining, count, List.range_eq_range', List.range_eq_range', joined]

/-- Each call of a user is told once, or is kept once with a pending batch of that user, or
waits once as a task: none is lost, and none is told twice. The writes among them are told
in the order of the calls, then come those that are pending, in order, and then those whose
tasks have not run. -/
theorem every_call_once (valid : Valid store) {events : List (Event User M)}
    {system : System Store User M} (runs : run user store events = some system) (owner : User) :
    ((List.range system.calls.length).filter (Outbox.isBy system.outbox.calls owner)).Perm
      ((system.client.engine.told.map Prod.fst).filter (Outbox.isBy system.outbox.calls owner) ++
        (system.client.engine.queue owner).flatMap Outbox.Entry.callbacks ++
        system.unrun.filter (Outbox.isBy system.outbox.calls owner)) ∧
    (List.range system.calls.length).filter (Outbox.isWrite system.outbox.calls owner) =
      (system.client.engine.told.map Prod.fst).filter
          (Outbox.isWrite system.outbox.calls owner) ++
        (system.client.engine.queue owner).filterMap Outbox.Entry.callback ++
        system.unrun.filter (Outbox.isWrite system.outbox.calls owner) := by
  obtain ⟨first, _, begins, _, _, steps⟩ := run_sound valid runs
  obtain ⟨executed, sound, _, _⟩ := Outbox.Streamed.run begins steps
  have booked := sound.booked owner
  rw [range_calls sound, List.filter_append, List.filter_append]
  refine ⟨booked.once.append_right _, ?_⟩
  rw [booked.inOrder]
  rfl

/-- The one call is told once. -/
theorem every_call_once_one : ∃ system : System (MemoryPersistence Nat Nat) Nat _,
    run 0 (MemoryPersistence.create 0) writesOne = some system ∧
      ((List.range system.calls.length).filter (Outbox.isBy system.outbox.calls 0)).Perm
        ((system.client.engine.told.map Prod.fst).filter (Outbox.isBy system.outbox.calls 0) ++
          (system.client.engine.queue 0).flatMap Outbox.Entry.callbacks ++
          system.unrun.filter (Outbox.isBy system.outbox.calls 0)) := by
  obtain ⟨system, runs⟩ := writesOne_runs
  exact ⟨system, runs, (every_call_once (MemoryPersistence.valid_create 0) runs 0).1⟩

/-- What a user was told as done is committed under that user, each write by a commit of its
own, and in the order in which it was told. -/
theorem done_is_committed (valid : Valid store) {events : List (Event User M)}
    {system : System Store User M} (runs : run user store events = some system) (owner : User) :
    (Outbox.doneWrites verdicts system.outbox.calls owner system.client.engine.told).Sublist
      (Outbox.commitsOf owner system.outbox.committed) := by
  obtain ⟨first, _, begins, _, _, steps⟩ := run_sound valid runs
  obtain ⟨_, _, delivered, _⟩ := Outbox.Streamed.run begins steps
  exact delivered.others owner

/-- The write told done is the one committed. -/
theorem done_is_committed_one : ∃ system : System (MemoryPersistence Nat Nat) Nat _,
    run 0 (MemoryPersistence.create 0) writesOne = some system ∧
      (Outbox.doneWrites verdicts system.outbox.calls 0 system.client.engine.told).Sublist
        (Outbox.commitsOf 0 system.outbox.committed) := by
  obtain ⟨system, runs⟩ := writesOne_runs
  exact ⟨system, runs, done_is_committed (MemoryPersistence.valid_create 0) runs 0⟩

/-- A wait for pending writes is told as done only after every earlier write of its user was
told. -/
theorem wait_comes_last (valid : Valid store) {events : List (Event User M)}
    {system : System Store User M} (runs : run user store events = some system) :
    Outbox.Heeded verdicts system.outbox.calls system.client.engine.told := by
  obtain ⟨first, _, begins, _, _, steps⟩ := run_sound valid runs
  obtain ⟨_, sound, _, _⟩ := Outbox.Streamed.run begins steps
  exact sound.heeded

/-- No wait is told before it. -/
theorem wait_comes_last_one : ∃ system : System (MemoryPersistence Nat Nat) Nat _,
    run 0 (MemoryPersistence.create 0) writesOne = some system ∧
      Outbox.Heeded verdicts system.outbox.calls system.client.engine.told := by
  obtain ⟨system, runs⟩ := writesOne_runs
  exact ⟨system, runs, wait_comes_last (MemoryPersistence.valid_create 0) runs⟩

/-- What the server commits on one stream are writes of one user, without gaps and in order:
a stretch of what an earlier session has left, followed by the writes of the calls. -/
theorem stream_commits_stretch (valid : Valid store) {events : List (Event User M)}
    {system : System Store User M} (runs : run user store events = some system) (stream : Nat) :
    ∃ owner part, part <:+: (pending store owner).map MutationBatch.mutations ++
        Outbox.writesOf system.outbox.calls owner system.calls.length ∧
      system.committed.filter (fun commit => commit.stream = stream) =
        part.map (Commit.mk stream owner) := by
  obtain ⟨first, _, begins, left, _, steps⟩ := run_sound valid runs
  obtain ⟨executed, sound, _, streamed⟩ := Outbox.Streamed.run begins steps
  obtain ⟨owner, part, stretch, commits⟩ := streamed.everyStream stream
  refine ⟨owner, part, stretch.trans ?_, ?_⟩
  · rw [Outbox.history, left, Outbox.writesOf, Outbox.writesOf, range_calls sound,
      List.filterMap_append, ← List.append_assoc]
    exact (List.prefix_append _ _).isInfix
  · have same : (system.committed.filter (fun commit => commit.stream = stream)).map Commit.plain =
        (part.map (Commit.mk stream owner)).map Commit.plain := by
      rw [List.map_map]
      refine Eq.trans ?_ commits
      rw [Outbox.commitsOn, outbox, List.filter_map]
      rfl
    have injective : Function.Injective (Commit.plain : Commit User M → Outbox.Commit User M) := by
      rintro ⟨_, _, _⟩ ⟨_, _, _⟩ equal
      cases equal
      rfl
    exact List.map_injective_iff.mpr injective same

/-- Its stream commits it. -/
theorem stream_commits_stretch_one : ∃ system : System (MemoryPersistence Nat Nat) Nat _,
    run 0 (MemoryPersistence.create 0) writesOne = some system ∧
      ∃ owner part, part <:+: (pending (MemoryPersistence.create 0) owner).map
          MutationBatch.mutations ++
            Outbox.writesOf system.outbox.calls owner system.calls.length ∧
        system.committed.filter (fun commit => commit.stream = 0) =
          part.map (Commit.mk 0 owner) := by
  obtain ⟨system, runs⟩ := writesOne_runs
  exact ⟨system, runs, stream_commits_stretch (MemoryPersistence.valid_create 0) runs 0⟩

/-- The client never gets stuck: after any run, with no more than a wish to be online and the
network, the timers and the server doing their part, the tasks run out, the user signed in
has no write pending, and every call of that user was told. -/
theorem can_always_drain (valid : Valid store) {events : List (Event User M)}
    {system : System Store User M} (runs : run user store events = some system) :
    ∃ more final, (∀ event ∈ more, event.helps = true) ∧
      run user store (events ++ more) = some final ∧ final.tasks = [] ∧
      final.client.remote.credentials = system.client.remote.credentials ∧
      pending final.client.engine.store final.client.remote.credentials = [] ∧
      ((List.range final.calls.length).filter
          (Outbox.isBy final.outbox.calls final.client.remote.credentials)).Perm
        ((final.client.engine.told.map Prod.fst).filter
          (Outbox.isBy final.outbox.calls final.client.remote.credentials)) := by
  obtain ⟨first, starts, _, _, sound, _⟩ := run_sound valid runs
  obtain ⟨final, ⟨more, helpful, leads⟩, ready⟩ := sound.drains
  have whole : run user store (events ++ more) = some final := by
    simp only [run, starts, Option.bind_eq_bind, Option.bind_some, List.foldlM_append] at runs ⊢
    rw [runs]
    exact leads
  have empty : pending final.client.engine.store final.client.remote.credentials = [] := by
    have waiting := ready.waiting
    rwa [SyncEngine.waiting, ready.current, ← ready.credentials] at waiting
  refine ⟨more, final, helpful, whole, ready.tasks, ready.credentials, empty, ?_⟩
  obtain ⟨_, _, begins, _, _, steps⟩ := run_sound valid whole
  obtain ⟨executed, booked, _, _⟩ := Outbox.Streamed.run begins steps
  have none : final.unrun = [] := by simp [unrun, outbox, ready.tasks, Outbox.taskCalls]
  have held : final.outbox.queue final.client.remote.credentials = [] := by
    show (pending _ _).map _ = []
    rw [empty, List.map_nil]
  have once := (booked.booked final.client.remote.credentials).once
  rw [held, List.flatMap_nil, List.append_nil] at once
  rw [range_calls booked, none, List.append_nil]
  exact once

/-- What it leaves can drain. -/
theorem can_always_drain_one : ∃ system : System (MemoryPersistence Nat Nat) Nat _,
    run 0 (MemoryPersistence.create 0) writesOne = some system ∧
      ∃ more final, run 0 (MemoryPersistence.create 0) (writesOne ++ more) = some final ∧
        final.tasks = [] ∧
        pending final.client.engine.store final.client.remote.credentials = [] := by
  obtain ⟨system, runs⟩ := writesOne_runs
  obtain ⟨more, final, _, goesOn, done, _, empty, _⟩ :=
    can_always_drain (MemoryPersistence.valid_create 0) runs
  exact ⟨system, runs, more, final, goesOn, done, empty⟩

/-- Over queues in memory the index of each queue is exact in every run: its scans find the
batches that write to a document, to any of some documents or to a collection, no more and
no fewer, in the order of the queue, and none of its assertions fails. -/
theorem scans_find_all {Change : Type} {starter : User} {events : List (Event User _)}
    {system : System (MemoryPersistence User Change) User (Mutation DocumentKey Change)}
    (runs : run user (MemoryPersistence.create starter) events = some system) (owner : User) :
    let queue := system.client.engine.store.queues owner
    (∀ key, queue.allMutationBatchesAffectingDocumentKey key =
      some (queue.queue.filter (MemoryMutationQueue.writesTo key))) ∧
    (∀ keys, queue.allMutationBatchesAffectingDocumentKeys keys =
      some (queue.queue.filter fun batch =>
        keys.any fun key => MemoryMutationQueue.writesTo key batch)) ∧
    (∀ query, queue.allMutationBatchesAffectingQuery query =
      if query.collectionGroup = none
        then some (queue.queue.filter (MemoryMutationQueue.writesInto query.path)) else none) ∧
    ∀ key, queue.containsKey key =
      some (queue.queue.any (MemoryMutationQueue.writesTo key)) := by
  obtain ⟨_, _, _, _, sound, _⟩ := run_sound (MemoryPersistence.valid_create starter) runs
  have valid : (system.client.engine.store.queues owner).Valid := sound.client.valid owner
  exact ⟨valid.affectingDocumentKey, valid.affectingDocumentKeys, valid.affectingQuery,
    valid.containsKey_eq⟩

/-- The index of the queue after it. -/
theorem scans_find_all_one : ∃ system : System (MemoryPersistence Nat Nat) Nat _,
    run 0 (MemoryPersistence.create 0) writesOne = some system ∧
      ∀ key, (system.client.engine.store.queues 0).containsKey key =
        some ((system.client.engine.store.queues 0).queue.any
          (MemoryMutationQueue.writesTo key)) := by
  obtain ⟨system, runs⟩ := writesOne_runs
  exact ⟨system, runs, (scans_find_all runs 0).2.2.2⟩

end System

end Amigo.Firestore
