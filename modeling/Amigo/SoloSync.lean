import Amigo.LivePosts

/-!
# One sync on its own

A client with nothing pending, and no write to the posts or the notices queued, starts
a sync; then only its own reads are answered and delivered, in any order, until none is
pending. The cloud does not change meanwhile, and is what the client is shown. Such a sync goes through four phases: its posts are being fetched, its
city is being read, its notices are being looked up, or all that can be left is
the refresh of the local copy of the city. The lookup is started only when the
fetch returned a post of the city; without it the rows stay as the merge left
them, and a merge of nothing leaves them as they were.
-/

namespace Amigo

/-- Some of the notices names the row. -/
def Removed (notices : List Document) (row : Row) : Prop :=
  ∃ notice ∈ notices, ∃ postIds, notice.data.string "idPost" = some postIds ∧
    namedBy postIds row = true

namespace Client

/-- A lookup of plain notices that does not trap removes exactly the rows they name. -/
theorem deleterAnswered_rows {platform : Platform} {receiver : Post} {notices : List Document}
    {client : Client} (plain : ∀ notice ∈ notices, PlainNotice notice)
    (running : (deleterAnswered platform receiver notices client).trap = none) :
    (∀ row, row ∈ (deleterAnswered platform receiver notices client).postAmigo ↔
      row ∈ client.postAmigo ∧ ¬ Removed notices row) ∧
    (deleterAnswered platform receiver notices client).pending = client.pending ∧
    (deleterAnswered platform receiver notices client).firebaseCity = client.firebaseCity := by
  induction notices generalizing client with
  | nil => simp [deleterAnswered, Removed]
  | cons notice rest inductionHypothesis =>
    rw [deleterAnswered] at running ⊢
    split at running
    · simp [crash] at running
    · rename_i postIds announces
      obtain ⟨here, later⟩ := List.forall_mem_cons.mp plain
      obtain ⟨rows, pending, city⟩ := inductionHypothesis later running
      refine ⟨?_, pending, city⟩
      intro row
      rw [rows row]
      simp only [deleteFromDb_plain platform receiver (generated_plain (here postIds announces)),
        List.mem_filter, Bool.not_eq_true', Removed, List.mem_cons,
        exists_eq_or_imp, announces, Option.some.injEq, exists_eq_left', not_or, and_assoc,
        Bool.not_eq_true]

/-- A refresh that does not trap touches neither rows, reads nor the filter's city. -/
theorem cityRefreshed_rows {documents : List Document} {client : Client}
    (running : (cityRefreshed documents client).trap = none) :
    (cityRefreshed documents client).postAmigo = client.postAmigo ∧
      (cityRefreshed documents client).pending = client.pending ∧
      (cityRefreshed documents client).firebaseCity = client.firebaseCity := by
  induction documents generalizing client with
  | nil => simp [cityRefreshed]
  | cons document rest inductionHypothesis =>
    rw [cityRefreshed] at running ⊢
    split at running
    · simp [crash] at running
    · exact inductionHypothesis running

/-- What a merge that does not trap leaves pending. -/
theorem merge_running {platform : Platform} {data : List Post} {client : Client}
    (running : (client.merge platform data).trap = none) :
    (client.merge platform data).pending = client.pending ++
        (mergeReads data).map (fun callback => ⟨callback, none⟩) ∧
      (client.merge platform data).firebaseCity = client.firebaseCity := by
  obtain ⟨_, result⟩ | ⟨finalData, _, result⟩ := merge_form platform data client
  · simp [result, crash] at running
  · rw [result]
    exact ⟨rfl, rfl⟩

/-- No write of the client to the posts or the notices is queued. -/
def Clear (client : Client) : Prop :=
  ∀ write ∈ client.outbox, write.collection ≠ .posts ∧ write.collection ≠ .deleter

/-- A clear client reads the committed posts. -/
theorem Clear.posts {client : Client} (clear : client.Clear) (cloud : Cloud) (since : Int)
    (next : AfterFetch) :
    Callback.read (client.localView cloud) (.fetchPosts since next) =
      Callback.read cloud (.fetchPosts since next) :=
  read_congr _ (localView_other fun write queued => (clear write queued).1.symm)

/-- It reads the committed notices. -/
theorem Clear.notices {client : Client} (clear : client.Clear) (cloud : Cloud) (receiver : Post) :
    Callback.read (client.localView cloud) (.deleterLookup receiver) = getDocuments (cloud .deleter) :=
  read_congr (.deleterLookup receiver)
    (localView_other fun write queued => (clear write queued).2.symm)

/-- The read is one of a sync. -/
inductive OfSync : Callback → Prop
  | posts (since : Int) : OfSync (.fetchPosts since .merge)
  | cities (snapshot : List Document) : OfSync (.fetchCities snapshot .merge)
  | notices (receiver : Post) : OfSync (.deleterLookup receiver)
  | refresh : OfSync .refreshCity

/-- A delivered read of a sync queues nothing. -/
theorem OfSync.outbox {platform : Platform} {client : Client} {callback : Callback} {answer : Answer}
    (ofSync : OfSync callback) : (client.answered platform callback answer).outbox = client.outbox := by
  generalize isAfter : client.answered platform callback answer = after
  have delivered := isAfter ▸ (answered_answers platform client callback answer).delivered
  cases delivered with
  | quiet quiet => exact quiet.outbox
  | fetched | edited => rfl
  | merged => exact merge_outbox
  | removed snapshot postIds data asked => cases asked ▸ ofSync
  | announced documents document postIds asked => cases asked ▸ ofSync

/-- Only the refresh of the local copy of the city can be pending. -/
def Refreshing (pending : List Pending) : Prop :=
  pending = [] ∨ ∃ answer, pending = [⟨.refreshCity, answer⟩]

/-- The phases of a sync that a client began with nothing pending. -/
inductive Phase (platform : Platform) (cloud : Cloud) (start client : Client) : Prop
  | fetching (answer : Option Answer)
      (pending : client.pending = [⟨.fetchPosts start.lastUpdateDate .merge, answer⟩])
      (isRead : answer = none ∨
        answer = some (.snapshot (Callback.read cloud (.fetchPosts start.lastUpdateDate .merge))))
      (rows : client.postAmigo = start.postAmigo) : Phase platform cloud start client
  | filtering (answer : Option Answer)
      (pending : client.pending = [⟨.fetchCities
        (Callback.read cloud (.fetchPosts start.lastUpdateDate .merge)) .merge, answer⟩])
      (rows : client.postAmigo = start.postAmigo) : Phase platform cloud start client
  | looking (data : List Post) (receiver : Post) (answer : Option Answer) (rest : List Pending)
      (matched : matchingPosts platform client.firebaseCity
        (Callback.read cloud (.fetchPosts start.lastUpdateDate .merge)) = some data)
      (found : data ≠ []) (pending : client.pending = ⟨.deleterLookup receiver, answer⟩ :: rest)
      (isRead : answer = none ∨ answer = some (.snapshot (getDocuments (cloud .deleter))))
      (refreshing : Refreshing rest) (rows : client.postAmigo = mergePosts data start.postAmigo) :
      Phase platform cloud start client
  | settled (data : List Post)
      (matched : matchingPosts platform client.firebaseCity
        (Callback.read cloud (.fetchPosts start.lastUpdateDate .merge)) = some data)
      (refreshing : Refreshing client.pending)
      (rows : ∀ row, row ∈ client.postAmigo ↔ row ∈ mergePosts data start.postAmigo ∧
        (data ≠ [] → ¬ Removed (getDocuments (cloud .deleter)) row)) :
      Phase platform cloud start client

/-- The only pending read is the one at index zero. -/
theorem ready_singleton {pending : Pending} {index : Nat} {callback : Callback}
    {answer : Option Answer} (ready : [pending][index]? = some ⟨callback, answer⟩) :
    index = 0 ∧ pending = ⟨callback, answer⟩ := by
  cases index with
  | zero => exact ⟨rfl, Option.some.inj ready⟩
  | succ index => simp at ready

/-- A refresh stays a refresh when it is answered, and nothing once delivered. -/
theorem Refreshing.moves {pending : List Pending} (refreshing : Refreshing pending) {index : Nat}
    {callback : Callback} {answer : Option Answer}
    (ready : pending[index]? = some ⟨callback, answer⟩) :
    callback = .refreshCity ∧ (∀ other, Refreshing (pending.set index ⟨callback, other⟩)) ∧
      Refreshing (pending.eraseIdx index) := by
  obtain rfl | ⟨refreshed, rfl⟩ := refreshing
  · simp at ready
  · obtain ⟨rfl, same⟩ := ready_singleton ready
    cases same
    exact ⟨rfl, fun other => Or.inr ⟨other, rfl⟩, Or.inl rfl⟩

/-- Answering a read of a sync keeps its phase. -/
theorem Phase.answer {platform : Platform} {cloud : Cloud} {start client after : Client} {index : Nat}
    (phase : Phase platform cloud start client) (clear : client.Clear)
    (received : client.receive index
      (fun callback => .snapshot (callback.read (client.localView cloud))) = some after) :
    Phase platform cloud start after := by
  unfold receive at received
  split at received
  · rename_i callback ready
    cases Option.some.inj received
    cases phase with
    | fetching answer pending isRead rows =>
      obtain ⟨rfl, same⟩ := ready_singleton (pending ▸ ready)
      cases same
      refine .fetching _ (by rw [pending]; rfl) (Or.inr ?_) rows
      exact congrArg (fun documents => some (Answer.snapshot documents)) (clear.posts cloud _ _)
    | filtering answer pending rows =>
      obtain ⟨rfl, same⟩ := ready_singleton (pending ▸ ready)
      cases same
      exact .filtering _ (by simp [pending]; rfl) rows
    | looking data receiver answer rest matched found pending isRead refreshing rows =>
      rw [pending] at ready
      cases index with
      | zero =>
        cases Option.some.inj ready
        refine .looking data receiver _ rest matched found
          (by rw [pending]; rfl) (Or.inr ?_) refreshing rows
        exact congrArg (fun documents => some (Answer.snapshot documents)) (clear.notices cloud receiver)
      | succ index =>
        have later : rest[index]? = some ⟨callback, none⟩ := ready
        obtain ⟨_, set, _⟩ := refreshing.moves later
        have refreshed := set (some (.snapshot (callback.read (client.localView cloud))))
        exact .looking data receiver answer _ matched found (by simp [pending]) isRead refreshed rows
    | settled data matched refreshing rows =>
      obtain ⟨_, set, _⟩ := refreshing.moves ready
      exact .settled data matched (set _) rows
  · simp at received

/-- The merge of a sync starts its lookup or settles it. -/
theorem Phase.merged {platform : Platform} {cloud : Cloud} {start client : Client} {data : List Post}
    (pending : client.pending = []) (rows : client.postAmigo = start.postAmigo)
    (matched : matchingPosts platform client.firebaseCity
      (Callback.read cloud (.fetchPosts start.lastUpdateDate .merge)) = some data)
    (running : (client.merge platform data).trap = none) :
    Phase platform cloud start (client.merge platform data) := by
  obtain ⟨leaves, sameCity⟩ := merge_running running
  have stored : (client.merge platform data).postAmigo = mergePosts data start.postAmigo := by
    rw [merge_rows, rows]
  rw [pending, List.nil_append] at leaves
  rw [← sameCity] at matched
  cases data with
  | nil =>
    refine .settled [] matched (Or.inr ⟨none, leaves⟩) ?_
    intro row
    rw [stored]
    simp
  | cons post others =>
    exact .looking (post :: others) post none [⟨.refreshCity, none⟩] matched (List.cons_ne_nil _ _)
      leaves (Or.inl rfl) (Or.inr ⟨none, rfl⟩) stored

/-- A delivered lookup of plain notices that does not trap removes exactly the rows they
name. -/
theorem lookup_rows {platform : Platform} {client : Client} {receiver : Post}
    {notices : List Document} (plain : ∀ notice ∈ notices, PlainNotice notice)
    (running : (client.answered platform (.deleterLookup receiver) (.snapshot notices)).trap = none) :
    let after := client.answered platform (.deleterLookup receiver) (.snapshot notices)
    (∀ row, row ∈ after.postAmigo ↔ row ∈ client.postAmigo ∧ ¬ Removed notices row) ∧
      after.pending = client.pending ∧ after.firebaseCity = client.firebaseCity :=
  deleterAnswered_rows plain running

/-- A delivered refresh that does not trap touches neither rows, reads nor the
filter's city. -/
theorem refresh_rows {platform : Platform} {client : Client} {answer : Answer}
    (running : (client.answered platform .refreshCity answer).trap = none) :
    (client.answered platform .refreshCity answer).postAmigo = client.postAmigo ∧
      (client.answered platform .refreshCity answer).pending = client.pending ∧
      (client.answered platform .refreshCity answer).firebaseCity = client.firebaseCity := by
  cases answer with
  | failed => exact ⟨rfl, rfl, rfl⟩
  | snapshot documents => exact cityRefreshed_rows running

/-- Delivering a read of a sync moves it to its next phase, unless it traps. -/
theorem Phase.deliver {platform : Platform} {cloud : Cloud} {start client : Client} {index : Nat}
    {callback : Callback} {answer : Answer} (phase : Phase platform cloud start client)
    (plain : ∀ notice ∈ cloud .deleter, PlainNotice notice)
    (ready : client.pending[index]? = some ⟨callback, some answer⟩)
    (running : ({ client with pending := client.pending.eraseIdx index }.answered platform callback
      answer).trap = none) :
    Phase platform cloud start
      ({ client with pending := client.pending.eraseIdx index }.answered platform callback answer) := by
  cases phase with
  | fetching waiting pending isRead rows =>
    obtain ⟨rfl, same⟩ := ready_singleton (pending ▸ ready)
    cases same
    obtain none | isAnswer := isRead
    · simp at none
    · cases Option.some.inj isAnswer
      exact .filtering none (by simp [answered, postsAnswered, ask, pending]) rows
  | filtering waiting pending rows =>
    obtain ⟨rfl, same⟩ := ready_singleton (pending ▸ ready)
    cases same
    simp only [answered, citiesAnswered] at running ⊢
    split at running
    · simp [crash] at running
    · rename_i data matched
      have erased : client.pending.eraseIdx 0 = [] := by rw [pending, List.eraseIdx_cons_zero]
      exact Phase.merged erased rows matched running
  | looking data receiver waiting rest matched found pending isRead refreshing rows =>
    rw [pending] at ready
    cases index with
    | zero =>
      cases Option.some.inj ready
      obtain none | isAnswer := isRead
      · simp at none
      · cases Option.some.inj isAnswer
        obtain ⟨removed, left, city⟩ := lookup_rows
          (fun notice member => plain notice (mem_getDocuments.mp member)) running
        refine .settled data (by rw [city]; exact matched) ?_ ?_
        · rw [left]
          simpa [pending] using refreshing
        · intro row
          rw [removed row, rows]
          simp [found]
    | succ index =>
      have later : rest[index]? = some ⟨callback, some answer⟩ := ready
      obtain ⟨rfl, _, erased⟩ := refreshing.moves later
      obtain ⟨sameRows, left, city⟩ := refresh_rows running
      refine .looking data receiver waiting _ (by rw [city]; exact matched) found ?_ isRead erased
        (by rw [sameRows]; exact rows)
      rw [left]
      simp [pending]
  | settled data matched refreshing rows =>
    obtain ⟨rfl, _, erased⟩ := refreshing.moves ready
    obtain ⟨sameRows, left, city⟩ := refresh_rows running
    refine .settled data (by rw [city]; exact matched) (by rw [left]; exact erased) ?_
    intro row
    rw [sameRows]
    exact rows row

/-- What a client reads in a phase of a sync is of a sync. -/
theorem Phase.ofSync {platform : Platform} {cloud : Cloud} {start client : Client} {index : Nat}
    {callback : Callback} {answer : Option Answer} (phase : Phase platform cloud start client)
    (ready : client.pending[index]? = some ⟨callback, answer⟩) : OfSync callback := by
  cases phase with
  | fetching waiting pending =>
    obtain ⟨_, same⟩ := ready_singleton (pending ▸ ready)
    cases same
    exact .posts _
  | filtering waiting pending =>
    obtain ⟨_, same⟩ := ready_singleton (pending ▸ ready)
    cases same
    exact .cities _
  | looking data receiver waiting rest matched found pending isRead refreshing =>
    rw [pending] at ready
    cases index with
    | zero =>
      cases Option.some.inj ready
      exact .notices receiver
    | succ index =>
      have later : rest[index]? = some ⟨callback, answer⟩ := ready
      exact (refreshing.moves later).1 ▸ .refresh
  | settled data matched refreshing => exact (refreshing.moves ready).1 ▸ .refresh

/-- With nothing pending, a running client's sync has settled. -/
theorem Phase.ended {platform : Platform} {cloud : Cloud} {start client : Client}
    (phase : Phase platform cloud start client) (emptied : client.pending = []) :
    ∃ data, matchingPosts platform client.firebaseCity
        (Callback.read cloud (.fetchPosts start.lastUpdateDate .merge)) = some data ∧
      ∀ row, row ∈ client.postAmigo ↔ row ∈ mergePosts data start.postAmigo ∧
        (data ≠ [] → ¬ Removed (getDocuments (cloud .deleter)) row) := by
  cases phase with
  | fetching answer pending => simp [emptied] at pending
  | filtering answer pending => simp [emptied] at pending
  | looking data receiver answer rest matched found pending => simp [emptied] at pending
  | settled data matched refreshing rows => exact ⟨data, matched, rows⟩

end Client

namespace World

variable {ι : Type*}

/-- The action answers or delivers a read. -/
def answersOrDelivers : Action → Bool
  | .answer _ | .deliver _ => true
  | _ => false

/-- The event answers or delivers a read of the client. -/
def ReadsOf (client : ι) (_ : World ι) (event : Event ι) : Prop :=
  event.1 = client ∧ answersOrDelivers event.2 = true

variable [DecidableEq ι]

instance (client : ι) (world : World ι) (event : Event ι) : Decidable (ReadsOf client world event) :=
  inferInstanceAs (Decidable (event.1 = client ∧ answersOrDelivers event.2 = true))

/-- One complete sync of a client for a city, with no error: it is started, only
the client's reads are answered and delivered, and at the end none is pending and
nothing has trapped. -/
def CompleteSync (platform : Platform) (world : World ι) (client : ι) (city : String)
    (after : World ι) : Prop :=
  ∃ middle events, world.step platform (client, .getAllPosts) = some middle ∧
    GuardedRuns.Runs (step platform) (ReadsOf client) middle events after ∧
    (after.clients client).pending = [] ∧ (after.clients client).trap = none ∧
    (after.clients client).firebaseCity = some city

/-- An answer or a delivery keeps the cloud and the queue, and the phase of a sync that
does not trap. -/
theorem phase_step {platform : Platform} {cloud : Cloud} {start : Client} {client : ι}
    {world next : World ι} {event : Event ι} (sameCloud : world.cloud = cloud)
    (plain : ∀ notice ∈ cloud .deleter, PlainNotice notice)
    (phase : (world.clients client).trap = none →
      (world.clients client).Clear ∧ Client.Phase platform cloud start (world.clients client))
    (admitted : ReadsOf client world event) (stepped : world.step platform event = some next) :
    next.cloud = cloud ∧ ((next.clients client).trap = none →
      (next.clients client).Clear ∧ Client.Phase platform cloud start (next.clients client)) := by
  obtain ⟨actor, action⟩ := event
  obtain ⟨rfl, isRead⟩ := admitted
  obtain ⟨_, _, _, cloudAfter, _, _⟩ := step_inv stepped
  have acted := step_act stepped
  subst sameCloud
  cases action with
  | answer index =>
    obtain ⟨running, performed⟩ := Option.ite_none_right_eq_some.mp acted
    obtain ⟨clear, reading⟩ := phase running
    refine ⟨cloudAfter, fun _ => ⟨?_, reading.answer clear performed⟩⟩
    simp only [Client.perform, Client.receive] at performed
    split at performed
    · rw [← Option.some.inj performed]
      exact clear
    · simp at performed
  | deliver index =>
    obtain ⟨running, performed⟩ := Option.ite_none_right_eq_some.mp acted
    refine ⟨cloudAfter, ?_⟩
    simp only [Client.perform] at performed
    split at performed
    · rename_i callback answer ready
      obtain ⟨clear, reading⟩ := phase running
      rw [← Option.some.inj performed]
      refine fun stillRunning => ⟨?_, reading.deliver plain ready stillRunning⟩
      intro write queued
      rw [(reading.ofSync ready).outbox] at queued
      exact clear write queued
    · simp at performed
  | _ => simp [answersOrDelivers] at isRead

/-- What a complete sync of an idle client leaves: the merge of the fetched posts
of the city, less the rows the notices name when there was such a post. -/
theorem completeSync_rows {platform : Platform} {world after : World ι} {client : ι} {city : String}
    (plain : world.PlainNotices) (idle : (world.clients client).pending = [])
    (clear : (world.clients client).Clear)
    (synced : world.CompleteSync platform client city after) :
    after.cloud = world.cloud ∧ ∃ data, matchingPosts platform (some city)
        (Callback.read world.cloud (.fetchPosts (world.clients client).lastUpdateDate .merge)) =
          some data ∧
      ∀ row, row ∈ (after.clients client).postAmigo ↔
        row ∈ mergePosts data (world.clients client).postAmigo ∧
        (data ≠ [] → ¬ Removed (getDocuments (world.cloud .deleter)) row) := by
  obtain ⟨middle, events, started, run, emptied, running, isCity⟩ := synced
  obtain ⟨_, _, _, cloud, _, _⟩ := step_inv started
  have asked : middle.clients client = (world.clients client).getAllPosts := by
    obtain ⟨_, performed⟩ := Option.ite_none_right_eq_some.mp (step_act started)
    exact (Option.some.inj performed).symm
  have initial : middle.cloud = world.cloud ∧ ((middle.clients client).trap = none →
      (middle.clients client).Clear ∧
        Client.Phase platform world.cloud (world.clients client) (middle.clients client)) := by
    refine ⟨cloud, fun _ => ?_⟩
    rw [asked]
    exact ⟨clear, .fetching none (by simp [Client.getAllPosts, Client.ask, idle]) (Or.inl rfl) rfl⟩
  have kept (state : World ι) (event : Event ι) (next : World ι)
      (holds : state.cloud = world.cloud ∧ ((state.clients client).trap = none →
        (state.clients client).Clear ∧
          Client.Phase platform world.cloud (world.clients client) (state.clients client)))
      (admitted : ReadsOf client state event)
      (stepped : state.step platform event = some next) :
      next.cloud = world.cloud ∧ ((next.clients client).trap = none →
        (next.clients client).Clear ∧
          Client.Phase platform world.cloud (world.clients client) (next.clients client)) :=
    phase_step holds.1 plain.board holds.2 admitted stepped
  obtain ⟨sameCloud, phase⟩ := run.invariant kept initial
  obtain ⟨data, matched, rows⟩ := (phase running).2.ended emptied
  exact ⟨sameCloud, data, isCity ▸ matched, rows⟩

end World

end Amigo
