import Amigo.EditFlow
import Amigo.SelectedCities

/-!
# What another user's map selection can reach

The selected city is one document that every client writes and reads. To say what
one client's own selection is, a run is watched: beside the world it carries the
writes that the watched client's commits have made, the pins it has selected, and those
of them that were the last one when it read the cities. Replayed alone, its commits and
its queue leave the cities document of its last selection, as long as that one is not
rejected.

An observer of a run sees the watched client's actions and the commits of all other
clients outside the cities collection; their selections, and whatever they do without
committing, it does not see. What it sees determines the watched client, the lists it was
delivered, all its writes and every other collection, as long as each answer to a cities
read of that client shows its own documents. The city it works in is then a pin of its
own, the last one it had selected when it read. Nothing in the app sees to that: between
a selection and the reads that follow it the document may be any other client's.
-/

namespace Amigo

/-- A read of the cities is a plain one. -/
theorem read_cities {callback : Callback} (ofCities : callback.collection = .cities) (cloud : Cloud) :
    callback.read cloud = getDocuments (cloud .cities) := by
  cases callback with
  | fetchCities | refreshCity | addCity => rfl
  | _ => cases ofCities

/-- The pin a write selects. -/
def Write.pin : Write → Option String
  | .setData .cities _ json =>
    match json.lookup "title" with
    | some (.value (.string title)) => some title
    | _ => none
  | _ => none

/-- The pins an action selects. -/
def Action.picks : Action → List String
  | .selectPin title => [title]
  | _ => []

/-- The documents of the cities collection after the selection of a pin, or of none. -/
def shownPin : Option String → List Document
  | none => []
  | some title => [⟨"city", [("title", .string title)]⟩]

/-- A write to another collection selects no pin. -/
theorem pin_other {write : Write} (others : write.collection ≠ .cities) : write.pin = none := by
  cases write with
  | setData collection document json =>
    cases collection with
    | cities => exact absurd rfl others
    | posts | deleter | users => rfl
  | delete document => rfl

/-- Over the document of one pin a write leaves that of the pin it selects. -/
theorem apply_selection {write : Write} (selects : write.collection = .cities → ∃ title, write = selection title)
    (stamp : Stamp) {cloud : Cloud} {pin : Option String} (shows : cloud .cities = shownPin pin) :
    write.apply stamp cloud .cities = shownPin (write.pin.or pin) := by
  by_cases ofCities : write.collection = .cities
  · obtain ⟨title, rfl⟩ := selects ofCities
    cases pin <;> simp [selection, Write.apply, shows, shownPin, KeyedRows.upsert, sameDocument, Write.pin,
      resolve, FieldValue.resolve]
  · rw [apply_other stamp cloud (Ne.symm ofCities), pin_other ofCities, Option.none_or, shows]

/-- The last of some pins and then of others. -/
theorem last_or (first : Option String) (others : List String) (before : Option String) :
    others.getLast?.or (first.or before) = (first.toList ++ others).getLast?.or before := by
  rw [List.getLast?_append, Option.or_assoc]
  cases first <;> rfl

/-- Queued selections show the last of them. -/
theorem overlay_selections {writes : List Write}
    (selects : ∀ write ∈ writes, write.collection = .cities → ∃ title, write = selection title)
    (number : Nat) {cloud : Cloud} {pin : Option String} (shows : cloud .cities = shownPin pin) :
    overlay cloud number writes .cities = shownPin ((writes.filterMap Write.pin).getLast?.or pin) := by
  induction writes generalizing cloud number pin with
  | nil => exact shows
  | cons write rest inductionHypothesis =>
    obtain ⟨first, later⟩ := List.forall_mem_cons.mp selects
    rw [overlay, inductionHypothesis later _ (apply_selection first _ shows), last_or]
    cases pinned : write.pin <;> simp [pinned]

namespace Client

/-- The pins a queue selects, and those of one more write. -/
theorem enqueue_pins (write : Write) (client : Client) :
    (client.enqueue write).outbox.filterMap Write.pin =
      client.outbox.filterMap Write.pin ++ write.pin.toList := by
  rw [enqueue, List.filterMap_append]
  cases pinned : write.pin <;> simp [pinned]

/-- The end of an upload selects no pin. -/
theorem Finishes.pins {url : String} {client after : Client} {upload : Upload}
    (finishes : Finishes url client upload after) :
    after.outbox.filterMap Write.pin = client.outbox.filterMap Write.pin := by
  cases finishes with
  | silent | unfilled | signedOut => rfl
  | posts post => exact (enqueue_pins post.write client).trans (List.append_nil _)

/-- A delivered read selects no pin. -/
theorem Delivered.pins {platform : Platform} {client after : Client} {callback : Callback}
    {answer : Answer} (delivered : Delivered platform client callback answer after) :
    after.outbox.filterMap Write.pin = client.outbox.filterMap Write.pin := by
  cases delivered with
  | quiet quiet => rw [quiet.outbox]
  | fetched | edited => rfl
  | merged => rw [merge_outbox]
  | removed snapshot postIds => exact (enqueue_pins (.delete postIds) client).trans (List.append_nil _)
  | announced documents document postIds =>
    exact (enqueue_pins (.setData .deleter "Post" [("idPost", .value (.string postIds))]) client).trans
      (List.append_nil _)

/-- A step that leaves the head of the queue adds its pins behind it. -/
theorem act_pins {platform : Platform} {cloud : Cloud} {client after : Client} {action : Action}
    (acted : client.act platform cloud action = some after) (noCommit : ∀ time, action ≠ .commit time)
    (noReject : action ≠ .reject) :
    after.outbox.filterMap Write.pin = client.outbox.filterMap Write.pin ++ action.picks := by
  have kept {other : Client} (same : other.outbox.filterMap Write.pin = client.outbox.filterMap Write.pin) :
      other.outbox.filterMap Write.pin = client.outbox.filterMap Write.pin ++ [] := by
    rw [same, List.append_nil]
  cases act_acts acted with
  | selectPin title isPin => exact enqueue_pins (selection title) client
  | addUser user => exact enqueue_pins user.write client
  | didSelectRowAt => exact kept (by rw [(reloadPost_reloads _).quiet.outbox])
  | infoAppears => exact kept (by rw [(reloadPost_reloads client).quiet.outbox])
  | uploaded index url placeText recText upload =>
    exact kept (uploaded_finishes url placeText recText _ upload).pins
  | deliver index callback answer =>
    exact kept (answered_answers platform _ callback answer).delivered.pins
  | commit time => exact absurd rfl (noCommit time)
  | reject => exact absurd rfl noReject
  | _ => exact kept rfl

/-- An action depends on the cloud only through the read it answers. -/
theorem act_congr (platform : Platform) {cloud other : Cloud} {client : Client} {action : Action}
    (same : ∀ (index : Nat) callback, action = .answer index →
      client.pending[index]? = some ⟨callback, none⟩ →
      callback.read (client.localView cloud) = callback.read (client.localView other)) :
    client.act platform cloud action = client.act platform other action := by
  cases action with
  | answer index =>
    have received :
        client.receive index (fun callback => .snapshot (callback.read (client.localView cloud))) =
          client.receive index (fun callback => .snapshot (callback.read (client.localView other))) := by
      unfold receive
      split
      · rename_i callback waiting
        simp only [same index callback rfl waiting]
      · rfl
    simp only [act, perform, received]
  | _ => rfl

/-- The action answers a read of the cities collection. -/
def readsCities (client : Client) : Action → Bool
  | .answer index =>
    match client.pending[index]? with
    | some ⟨callback, none⟩ => decide (callback.collection = .cities)
    | _ => false
  | _ => false

/-- The action drops the client's last selection from the queue. -/
def dropsSelection (client : Client) : Action → Bool
  | .reject =>
    match client.outbox with
    | write :: rest =>
      decide (write.collection = .cities) &&
        rest.all (fun later => decide (later.collection ≠ .cities))
    | [] => false
  | _ => false

/-- The action changes the user the app has signed in. -/
def changesUser (client : Client) : Action → Bool
  | .signIn uid => decide (client.currentUser ≠ some uid)
  | .signOut => client.currentUser.isSome
  | _ => false

/-- The action leaves a queued selection to the user before: the library keeps a queue for
each user, and what is left there is not committed in its turn. -/
def leavesSelection (client : Client) (action : Action) : Bool :=
  client.changesUser action && client.outbox.any (fun write => decide (write.collection = .cities))

end Client

/-- A world, the writes the watched client's commits have made, the pins it has selected
and those of them it had selected last when a read of the cities was answered, oldest
first. -/
structure Watched (ι : Type*) where
  world : World ι
  commits : List (Timestamp × Write)
  pins : List String
  read : List String

namespace Watched

variable {ι : Type*}

/-- What an observer sees of a step. -/
inductive Label where
  | own (action : Action)
  | foreign (time : Timestamp) (write : Write)
deriving DecidableEq

/-- What an observer knows: the watched client and its writes, and the cloud
without the others' selections. -/
structure View where
  cloud : Cloud
  client : Client
  commits : List (Timestamp × Write)

/-- The write an action commits, from the queue of the client that takes it. -/
def committing : Action → List Write → Option (Timestamp × Write)
  | .commit time, write :: _ => some (time, write)
  | _, _ => none

/-- The cloud after a client's action, from the client's queue. -/
def committed (action : Action) (outbox : List Write) (cloud : Cloud) : Cloud :=
  match committing action outbox with
  | some (time, write) => write.commit time cloud
  | none => cloud

/-- The cloud that writes leave by themselves. -/
def replay (commits : List (Timestamp × Write)) : Cloud :=
  commits.foldl (fun cloud commit => commit.2.commit commit.1 cloud) (fun _ => [])

/-- Replay one more action. -/
theorem replay_committed (commits : List (Timestamp × Write)) (action : Action)
    (outbox : List Write) :
    replay (commits ++ (committing action outbox).toList) =
      committed action outbox (replay commits) := by
  cases commit : committing action outbox with
  | none => simp only [committed, commit, Option.toList_none, List.append_nil]
  | some write => simp only [replay, committed, commit, Option.toList_some, List.foldl_append,
      List.foldl_cons, List.foldl_nil]

/-- The observer follows what it sees. -/
def follow (platform : Platform) (view : View) : Label → Option View
  | .own action => (view.client.act platform view.cloud action).map fun client =>
      { cloud := committed action view.client.outbox view.cloud
        client := client
        commits := view.commits ++ (committing action view.client.outbox).toList }
  | .foreign time write => some { view with cloud := write.commit time view.cloud }

/-- The start of a watched run. -/
def init (ι : Type*) : Watched ι := ⟨World.init ι, [], [], []⟩

variable [DecidableEq ι]

/-- One step, watched. -/
def step (platform : Platform) (watcher : ι) (state : Watched ι) (event : Event ι) :
    Option (Watched ι) :=
  (state.world.step platform event).map fun next =>
    { world := next
      commits := if event.1 = watcher then
          state.commits ++ (committing event.2 (state.world.clients watcher).outbox).toList
        else state.commits
      pins := if event.1 = watcher then state.pins ++ event.2.picks else state.pins
      read := if event.1 = watcher ∧ (state.world.clients watcher).readsCities event.2 = true then
          state.read ++ state.pins.getLast?.toList
        else state.read }

/-- Own actions are seen, and other clients' commits outside the cities. -/
def observed (watcher : ι) (state : Watched ι) (event : Event ι) : Option Label :=
  if event.1 = watcher then some (.own event.2)
  else match committing event.2 (state.world.clients event.1).outbox with
    | some (time, write) =>
      if write.collection = .cities then none else some (.foreign time write)
    | none => none

/-- The cities as the watched client would see them if nobody else wrote to them. -/
def ownCities (watcher : ι) (state : Watched ι) : List Document :=
  (state.world.clients watcher).localView (replay state.commits) .cities

/-- An answer to a cities read of the watched client shows the documents its own writes
leave, its last selection is not rejected, and none is left to another of its users. -/
structure OwnSelection (watcher : ι) (state : Watched ι) (event : Event ι) : Prop where
  shows : event.1 = watcher → (state.world.clients watcher).readsCities event.2 = true →
    getDocuments ((state.world.clients watcher).localView state.world.cloud .cities) =
      getDocuments (ownCities watcher state)
  keeps : event.1 = watcher → (state.world.clients watcher).dropsSelection event.2 = false
  stays : event.1 = watcher → (state.world.clients watcher).leavesSelection event.2 = false

instance (watcher : ι) (state : Watched ι) (event : Event ι) :
    Decidable (OwnSelection watcher state event) :=
  decidable_of_iff ((event.1 = watcher → (state.world.clients watcher).readsCities event.2 = true →
      getDocuments ((state.world.clients watcher).localView state.world.cloud .cities) =
        getDocuments (ownCities watcher state)) ∧
    (event.1 = watcher → (state.world.clients watcher).dropsSelection event.2 = false) ∧
    (event.1 = watcher → (state.world.clients watcher).leavesSelection event.2 = false))
    ⟨fun all => ⟨all.1, all.2.1, all.2.2⟩, fun own => ⟨own.shows, own.keeps, own.stays⟩⟩

omit [DecidableEq ι] in
/-- The observer's knowledge is right. -/
structure Sees (watcher : ι) (state : Watched ι) (view : View) : Prop where
  client : view.client = state.world.clients watcher
  commits : view.commits = state.commits
  cities : view.cloud .cities = replay state.commits .cities
  others : ∀ collection, collection ≠ .cities → view.cloud collection = state.world.cloud collection

/-- The cloud after a step of the world. -/
theorem world_committed {platform : Platform} {world next : World ι} {event : Event ι}
    (stepped : world.step platform event = some next) :
    next.cloud = committed event.2 (world.clients event.1).outbox world.cloud := by
  obtain ⟨_, _, _, cloud, _, _⟩ := World.step_inv stepped
  obtain ⟨actor, action⟩ := event
  rw [cloud]
  cases action with
  | commit time =>
    cases queued : (world.clients actor).outbox with
    | nil => simp only [World.cloudAfter, committed, committing, queued]
    | cons write rest => simp only [World.cloudAfter, committed, committing, queued]
  | _ => rfl

/-- A committed write acts on each collection by itself. -/
theorem committed_congr (action : Action) (outbox : List Write) {cloud other : Cloud}
    {collection : CollectionName} (same : cloud collection = other collection) :
    committed action outbox cloud collection = committed action outbox other collection := by
  cases commits : committing action outbox with
  | none => simpa only [committed, commits] using same
  | some committedWrite => simpa only [committed, commits] using commit_congr _ _ same

omit [DecidableEq ι] in
/-- On an own action that is admitted, the observer's cloud answers alike. -/
theorem own_acts {platform : Platform} {watcher : ι} {state : Watched ι} {view : View} {action : Action}
    (sees : Sees watcher state view) (admitted : OwnSelection watcher state (watcher, action)) :
    view.client.act platform view.cloud action =
      (state.world.clients watcher).act platform state.world.cloud action := by
  rw [sees.client]
  apply Client.act_congr
  intro index callback isAnswer waiting
  by_cases cities : callback.collection = .cities
  · have reads : (state.world.clients watcher).readsCities action = true := by
      simp [Client.readsCities, isAnswer, waiting, cities]
    have own : (state.world.clients watcher).localView view.cloud .cities = ownCities watcher state :=
      overlay_congr _ _ sees.cities
    rw [read_cities cities, read_cities cities, own]
    exact (admitted.shows rfl reads).symm
  · exact read_congr callback (overlay_congr _ _ (sees.others _ cities))

/-- The observer follows every step it sees. -/
theorem follows_seen {platform : Platform} {watcher : ι} {state next : Watched ι} {event : Event ι}
    {view : View} {seen : Label} (admitted : OwnSelection watcher state event)
    (stepped : step platform watcher state event = some next) (sees : Sees watcher state view)
    (isSeen : observed watcher state event = some seen) :
    ∃ after, follow platform view seen = some after ∧ Sees watcher next after := by
  obtain ⟨world, worldStep, rfl⟩ := Option.map_eq_some_iff.mp stepped
  obtain ⟨actor, action⟩ := event
  have cloud := world_committed worldStep
  unfold observed at isSeen
  by_cases isOwn : actor = watcher
  · subst isOwn
    simp only [↓reduceIte, Option.some.injEq] at isSeen
    subst isSeen
    obtain ⟨_, client, acted, _, clients, _⟩ := World.step_inv worldStep
    refine ⟨_, by rw [follow, own_acts sees admitted, acted]; rfl, ?_, ?_, ?_, ?_⟩
    · simp only [clients, Function.update_self]
    · simp only [↓reduceIte, sees.client, sees.commits]
    · simp only [↓reduceIte, sees.client, replay_committed]
      exact committed_congr _ _ sees.cities
    · intro collection different
      simp only [cloud, sees.client]
      exact committed_congr _ _ (sees.others collection different)
  · simp only [isOwn, ↓reduceIte] at isSeen
    cases commits : committing action (state.world.clients actor).outbox with
    | none => simp [commits] at isSeen
    | some committedWrite =>
      obtain ⟨time, write⟩ := committedWrite
      by_cases selects : write.collection = .cities
      · simp [commits, selects] at isSeen
      · simp only [commits, selects, ↓reduceIte, Option.some.injEq] at isSeen
        subst isSeen
        refine ⟨_, rfl, ?_, ?_, ?_, ?_⟩
        · rw [World.step_other worldStep (Ne.symm isOwn)]
          exact sees.client
        · simp only [isOwn, ↓reduceIte]
          exact sees.commits
        · simp only [isOwn, ↓reduceIte]
          rw [commit_other time view.cloud (Ne.symm selects)]
          exact sees.cities
        · intro collection different
          simp only [cloud, committed, commits]
          exact commit_congr write time (sees.others collection different)

/-- A step the observer does not see changes nothing it knows. -/
theorem blind_unseen {platform : Platform} {watcher : ι} {state next : Watched ι} {event : Event ι}
    {view : View} (stepped : step platform watcher state event = some next)
    (sees : Sees watcher state view) (unseen : observed watcher state event = none) :
    Sees watcher next view := by
  obtain ⟨world, worldStep, rfl⟩ := Option.map_eq_some_iff.mp stepped
  obtain ⟨actor, action⟩ := event
  have cloud := world_committed worldStep
  unfold observed at unseen
  by_cases isOwn : actor = watcher
  · simp [isOwn] at unseen
  · simp only [isOwn, ↓reduceIte] at unseen
    refine ⟨?_, ?_, ?_, ?_⟩
    · rw [World.step_other worldStep (Ne.symm isOwn)]
      exact sees.client
    · simp only [isOwn, ↓reduceIte]
      exact sees.commits
    · simp only [isOwn, ↓reduceIte]
      exact sees.cities
    · intro collection different
      rw [sees.others collection different, cloud]
      cases commits : committing action (state.world.clients actor).outbox with
      | none => simp only [committed, commits]
      | some committedWrite =>
        obtain ⟨time, write⟩ := committedWrite
        have selects : write.collection = .cities := by
          simpa [commits] using unseen
        simp only [committed, commits]
        rw [commit_other time _ (selects ▸ different)]

omit [DecidableEq ι] in
/-- The watched client's own writes leave its last selection, and the cities it works in
or holds an answer of were its last selection when it read them. -/
structure Own (watcher : ι) (state : Watched ι) : Prop where
  selects : ∀ commit ∈ state.commits, commit.2.collection = .cities →
    ∃ title, commit.2 = selection title
  last : state.pins.getLast? = ((state.commits.map Prod.snd ++
    (state.world.clients watcher).outbox).filterMap Write.pin).getLast?
  held : ∀ callback documents,
    ⟨callback, some (.snapshot documents)⟩ ∈ (state.world.clients watcher).pending →
    callback.collection = .cities → ∀ city, Client.Titles documents city → city ∈ state.read
  works : ∀ city, (state.world.clients watcher).WorksIn city → city ∈ state.read

omit [DecidableEq ι] in
/-- Committed selections leave the last of them. -/
theorem replay_selections {commits : List (Timestamp × Write)}
    (selects : ∀ commit ∈ commits, commit.2.collection = .cities → ∃ title, commit.2 = selection title) :
    replay commits .cities = shownPin ((commits.map Prod.snd).filterMap Write.pin).getLast? := by
  induction commits using List.reverseRecOn with
  | nil => rfl
  | append_singleton commits commit inductionHypothesis =>
    have earlier := inductionHypothesis (fun other member => selects other (List.mem_append_left _ member))
    have here := selects commit (List.mem_append_right _ (List.mem_singleton.mpr rfl))
    have replayed : replay (commits ++ [commit]) = commit.2.commit commit.1 (replay commits) := by
      simp only [replay, List.foldl_append, List.foldl_cons, List.foldl_nil]
    rw [replayed, Write.commit, apply_selection here _ earlier, List.map_append, List.filterMap_append,
      List.getLast?_append]
    cases pinned : commit.2.pin <;> simp [pinned]

omit [DecidableEq ι] in
/-- If nobody else wrote to them, the client would see its last selection in the cities. -/
theorem Own.ownCities {platform : Platform} {watcher : ι} {state : Watched ι} (own : Own watcher state)
    (pinned : state.world.Pinned platform) : ownCities watcher state = shownPin state.pins.getLast? := by
  have queued (write : Write) (member : write ∈ (state.world.clients watcher).outbox)
      (ofCities : write.collection = .cities) : ∃ title, write = selection title := by
    obtain ⟨title, _, selects⟩ := (pinned.clients watcher).queued write member ofCities
    exact ⟨title, selects⟩
  rw [own.last, List.filterMap_append, List.getLast?_append]
  exact overlay_selections queued _ (replay_selections own.selects)

omit [DecidableEq ι] in
/-- An answered read of the cities shows the last selection. -/
theorem Own.answer {platform : Platform} {watcher : ι} {state : Watched ι} {index : Nat}
    {callback : Callback} (own : Own watcher state) (pinned : state.world.Pinned platform)
    (admitted : OwnSelection watcher state (watcher, .answer index))
    (waiting : (state.world.clients watcher).pending[index]? = some ⟨callback, none⟩)
    (ofCities : callback.collection = .cities) :
    callback.read ((state.world.clients watcher).localView state.world.cloud) =
      shownPin state.pins.getLast? := by
  have reads : (state.world.clients watcher).readsCities (.answer index) = true := by
    simp [Client.readsCities, waiting, ofCities]
  rw [read_cities ofCities, admitted.shows rfl reads, own.ownCities pinned]
  cases state.pins.getLast? <;> rfl

/-- The watched client's step appends its pins behind those its writes leave. -/
theorem Own.last_step {platform : Platform} {watcher : ι} {state : Watched ι} {next : World ι}
    {action : Action} (own : Own watcher state) (pinned : state.world.Pinned platform)
    (admitted : OwnSelection watcher state (watcher, action))
    (stepped : state.world.step platform (watcher, action) = some next) :
    (state.pins ++ action.picks).getLast? =
      (((state.commits ++ (committing action (state.world.clients watcher).outbox).toList).map Prod.snd ++
        (next.clients watcher).outbox).filterMap Write.pin).getLast? := by
  have acted := World.step_act stepped
  have drained {write : Write} {rest : List Write} (queued : (state.world.clients watcher).outbox = write :: rest)
      (after : some ((state.world.clients watcher).settle rest) = some (next.clients watcher)) :
      (next.clients watcher).outbox = rest := by
    rw [← Option.some.inj after]
    rfl
  cases action with
  | commit time =>
    cases queued : (state.world.clients watcher).outbox with
    | nil => simp [Client.act, queued] at acted
    | cons write rest =>
      simp only [Client.act, queued] at acted
      have none : (Action.commit time).picks = [] := rfl
      rw [none, List.append_nil, own.last, drained queued acted, queued]
      simp [committing]
  | reject =>
    cases queued : (state.world.clients watcher).outbox with
    | nil => simp [Client.act, queued] at acted
    | cons write rest =>
      simp only [Client.act, queued] at acted
      have keeps := admitted.keeps rfl
      have none : Action.reject.picks = [] := rfl
      rw [none, List.append_nil, own.last, drained queued acted, queued]
      simp only [committing, Option.toList_none, List.append_nil, List.filterMap_append,
        List.getLast?_append, List.filterMap_cons]
      cases pin : write.pin with
      | none => rfl
      | some title =>
        -- a rejected selection has a later one behind it
        have ofCities : write.collection = .cities := by
          by_contra others
          rw [pin_other others] at pin
          cases pin
        simp only [Client.dropsSelection, queued, ofCities, decide_true, Bool.true_and,
          List.all_eq_false, decide_eq_true_eq, not_not] at keeps
        obtain ⟨later, member, selectsLater⟩ := keeps
        obtain ⟨other, _, rfl⟩ := (pinned.clients watcher).queued later
          (queued ▸ List.mem_cons_of_mem _ member) selectsLater
        have behind : rest.filterMap Write.pin ≠ [] :=
          List.ne_nil_of_mem (List.mem_filterMap.mpr ⟨_, member, rfl⟩)
        rw [List.getLast?_cons_of_ne_nil behind]
  | _ =>
    have queue := Client.act_pins acted (by simp) (by simp)
    simp only [committing, Option.toList_none, List.append_nil, List.filterMap_append, queue]
    rw [List.getLast?_append, List.getLast?_append, List.getLast?_append, own.last,
      List.filterMap_append, List.getLast?_append, Option.or_assoc]

/-- An admitted step of a watched run keeps the client to its own pins. -/
theorem Own.step {platform : Platform} {watcher : ι} {state next : Watched ι} {event : Event ι}
    (own : Own watcher state) (pinned : state.world.Pinned platform)
    (admitted : OwnSelection watcher state event)
    (stepped : step platform watcher state event = some next) : Own watcher next := by
  obtain ⟨world, worldStep, rfl⟩ := Option.map_eq_some_iff.mp stepped
  obtain ⟨actor, action⟩ := event
  by_cases isOwn : actor = watcher
  · subst isOwn
    have grows {city : String} (older : city ∈ state.read) : city ∈ (if actor = actor ∧
        (state.world.clients actor).readsCities action = true then
          state.read ++ state.pins.getLast?.toList else state.read) := by
      split
      · exact List.mem_append_left _ older
      · exact older
    have acted := World.step_act worldStep
    refine ⟨?_, ?_, ?_, ?_⟩
    · intro commit member ofCities
      simp only [↓reduceIte] at member
      obtain older | new := List.mem_append.mp member
      · exact own.selects commit older ofCities
      · cases action with
        | commit time =>
          cases queued : (state.world.clients actor).outbox with
          | nil => simp [committing, queued] at new
          | cons write rest =>
            simp only [committing, queued, Option.toList_some, List.mem_singleton] at new
            subst new
            obtain ⟨title, _, selects⟩ := (pinned.clients actor).queued write
              (queued ▸ List.mem_cons_self) ofCities
            exact ⟨title, selects⟩
        | _ => simp [committing] at new
    · simpa only [↓reduceIte] using own.last_step pinned admitted worldStep
    · intro callback documents member ofCities city titles
      generalize isPending : (⟨callback, some (.snapshot documents)⟩ : Pending) = pending at member
      cases Client.act_pending acted member with
      | kept before => exact grows (own.held callback documents (isPending ▸ before) ofCities city titles)
      | answered index other isAnswer waiting =>
        cases isPending
        subst isAnswer
        have reads : (state.world.clients actor).readsCities (.answer index) = true := by
          simp [Client.readsCities, waiting, ofCities]
        rw [own.answer pinned admitted waiting ofCities] at titles
        simp only [reads, and_self, ↓reduceIte]
        obtain ⟨document, shown, hasTitle⟩ := titles
        cases last : state.pins.getLast? with
        | none => simp [last, shownPin] at shown
        | some title =>
          rw [last] at shown
          cases List.mem_singleton.mp shown
          cases Option.some.inj hasTitle
          exact List.mem_append_right _ (List.mem_singleton.mpr rfl)
      | failed | pressed | filtering | lookup | refresh | removal => simp at isPending
    · intro city works
      obtain same | ⟨callback, documents, asked, ofCities, titles⟩ := Client.act_worksIn acted works
      · exact grows (own.works city same)
      · exact grows (own.held callback documents asked ofCities city titles)
  · have same := World.step_other worldStep (Ne.symm isOwn)
    constructor
    · simpa only [isOwn, ↓reduceIte] using own.selects
    · simpa only [isOwn, ↓reduceIte, same] using own.last
    · simpa only [isOwn, false_and, ↓reduceIte, same] using own.held
    · simpa only [isOwn, false_and, ↓reduceIte, same] using own.works

omit [DecidableEq ι] in
/-- At the start the client has selected nothing and works in no city. -/
theorem own_init (watcher : ι) : Own watcher (init ι) where
  selects := by simp [init]
  last := by simp [init, World.init]
  held := by simp [init, World.init]
  works := by
    intro city works
    cases works with
    | filters kept => simp [init, World.init] at kept
    | splices kept read => exact absurd kept.symm read
    | titles index screen shown => simp [init, World.init] at shown

/-- The city the watched client works in across a step is the pin it selected last: an
answer to its read of the cities holds that pin alone, and every city it works in, reads
its table with or titles a new post with was its last pin when it was read. -/
structure OwnCity (platform : Platform) (watcher : ι) (before : Watched ι) (event : Event ι)
    (after : Watched ι) : Prop where
  reads : ∀ index callback, event = (watcher, .answer index) → callback.collection = .cities →
    (before.world.clients watcher).pending[index]? = some ⟨callback, none⟩ →
      (after.world.clients watcher).pending[index]? =
        some ⟨callback, some (.snapshot (shownPin before.pins.getLast?))⟩
  works : ∀ city, (after.world.clients watcher).WorksIn city → city ∈ after.read
  lists : ∀ data ∈ (after.world.clients watcher).delivered,
    data ∈ (before.world.clients watcher).delivered ∨ ∃ city, (city = "" ∨ city ∈ before.read) ∧
      getAllPostsFromDb platform city (after.world.clients watcher).postAmigo = some data
  titles : ∀ index url placeText recText screen idPost,
    event = (watcher, .uploaded index url placeText recText) →
    (before.world.clients watcher).uploads[index]? = some (.newPost screen idPost) →
      ∀ write ∈ (after.world.clients watcher).outbox,
        write ∈ (before.world.clients watcher).outbox ∨
          ∃ post : Post, write = post.write ∧ post.title ∈ before.read

/-- A new list is read with a city the client works in. -/
theorem Own.lists {platform : Platform} {watcher : ι} {state : Watched ι} {next : World ι}
    {event : Event ι} (own : Own watcher state) (stepped : state.world.step platform event = some next)
    {data : List Post} (handed : data ∈ (next.clients watcher).delivered) :
    data ∈ (state.world.clients watcher).delivered ∨ ∃ city, (city = "" ∨ city ∈ state.read) ∧
      getAllPostsFromDb platform city (next.clients watcher).postAmigo = some data := by
  obtain same | ⟨_, acted⟩ := World.client_after stepped watcher
  · exact Or.inl (same ▸ handed)
  · obtain same | ⟨list, grown, sameCity, isRead⟩ := Client.act_lists acted
    · exact Or.inl (same ▸ handed)
    · rw [grown, List.mem_append, List.mem_singleton] at handed
      obtain older | rfl := handed
      · exact Or.inl older
      · refine Or.inr ⟨_, ?_, isRead⟩
        rw [sameCity]
        by_cases empty : (state.world.clients watcher).postCity = ""
        · exact Or.inl empty
        · exact Or.inr (own.works _ (.splices rfl empty))

/-- A new post is titled with a city the client works in. -/
theorem Own.titles {platform : Platform} {watcher : ι} {state : Watched ι} {next : World ι}
    {index : Nat} {url placeText recText idPost : String} {screen : Nat} (own : Own watcher state)
    (stepped : state.world.step platform (watcher, .uploaded index url placeText recText) = some next)
    (running : (state.world.clients watcher).uploads[index]? = some (.newPost screen idPost))
    {write : Write} (queued : write ∈ (next.clients watcher).outbox) :
    write ∈ (state.world.clients watcher).outbox ∨
      ∃ post : Post, write = post.write ∧ post.title ∈ state.read := by
  have performed := (Option.ite_none_right_eq_some.mp (World.step_act stepped)).2
  obtain ⟨upload, isUpload, result⟩ := Option.map_eq_some_iff.mp performed
  cases Option.some.inj (running.symm.trans isUpload)
  rw [← result] at queued
  obtain same | ⟨post, composed, issued⟩ := Client.uploaded_composes
    { state.world.clients watcher with uploads := (state.world.clients watcher).uploads.eraseIdx index }
    url placeText recText (.newPost screen idPost)
  · exact Or.inl (same ▸ queued)
  · rw [issued, List.mem_append, List.mem_singleton] at queued
    refine queued.imp id (fun isPost => ⟨post, isPost, ?_⟩)
    obtain ⟨view, shown, filled⟩ := Option.bind_eq_some_iff.mp composed.signature
    obtain ⟨city, hasCity, named⟩ := Option.bind_eq_some_iff.mp filled
    obtain ⟨name, _, signed⟩ := Option.map_eq_some_iff.mp named
    cases signed
    exact own.works post.title (.titles screen view shown hasCity)

/-- An admitted step leaves the watched client in the pin it selected last. -/
theorem Own.city {platform : Platform} {watcher : ι} {state next : Watched ι} {event : Event ι}
    (own : Own watcher state) (pinned : state.world.Pinned platform)
    (admitted : OwnSelection watcher state event)
    (stepped : Watched.step platform watcher state event = some next) :
    OwnCity platform watcher state event next where
  reads := by
    rintro index callback rfl ofCities waiting
    obtain ⟨world, worldStep, rfl⟩ := Option.map_eq_some_iff.mp stepped
    have performed := (Option.ite_none_right_eq_some.mp (World.step_act worldStep)).2
    simp only [Client.perform, Client.receive, waiting, Option.some.injEq] at performed
    rw [← performed, own.answer pinned admitted waiting ofCities, List.getElem?_set_self]
    exact (List.getElem?_eq_some_iff.mp waiting).1
  works := (own.step pinned admitted stepped).works
  lists := by
    obtain ⟨world, worldStep, rfl⟩ := Option.map_eq_some_iff.mp stepped
    exact fun data handed => own.lists worldStep handed
  titles := by
    rintro index url placeText recText screen idPost rfl running write queued
    obtain ⟨world, worldStep, rfl⟩ := Option.map_eq_some_iff.mp stepped
    exact own.titles worldStep running queued

/-- In an admitted run the watched client works in the pin it selected last. -/
theorem own_city_run {platform : Platform} {watcher : ι} {events : List (Event ι)} {last : Watched ι}
    (run : GuardedRuns.Runs (step platform watcher) (OwnSelection watcher) (init ι) events last) :
    ∀ before event after,
      (before, event, after) ∈ GuardedRuns.transitions (step platform watcher) (init ι) events →
        OwnCity platform watcher before event after := by
  have kept (state : Watched ι) (event : Event ι) (next : Watched ι)
      (holds : state.world.Pinned platform ∧ Own watcher state) (admitted : OwnSelection watcher state event)
      (stepped : step platform watcher state event = some next) :
      next.world.Pinned platform ∧ Own watcher next := by
    have own := holds.2.step holds.1 admitted stepped
    obtain ⟨world, worldStep, rfl⟩ := Option.map_eq_some_iff.mp stepped
    exact ⟨holds.1.step worldStep, own⟩
  have lawful (state : Watched ι) (event : Event ι) (next : Watched ι)
      (holds : state.world.Pinned platform ∧ Own watcher state) (admitted : OwnSelection watcher state event)
      (stepped : step platform watcher state event = some next) :
      OwnCity platform watcher state event next := holds.2.city holds.1 admitted stepped
  exact run.every_step kept lawful ⟨World.pinned_init platform, own_init watcher⟩

/-- A user selects a city and writes a post there; in between, the steps of others
before and after the reads of the new post's screen. -/
def selectAndPost (before after : List (Event Bool)) : List (Event Bool) :=
  World.enroll false ⟨"ann", "Ann", "", ""⟩ 1 ++ World.select false "Haifa" 2 ++ before ++
    (false, .openAdd) :: World.settle false 2 ++ after ++
    [(false, .postBtn 0 "AAAAAAAAAAAAAAAAAAA1"), (false, .uploaded 0 "url" "place" "text"),
      (false, .commit ⟨4, 0⟩)]

end Watched

end Amigo
