import Mathlib.Data.List.Perm.Basic
import Amigo.FeedCity

/-!
# Calls whose queries fail

A call of `Model.getAllPosts` or `Model.deleteAPosts` asks up to four reads, each
of which may fail on its own. A failed read of the cities or of the deleter
collection is passed over. A failed read of the posts is passed on as nil, and
both calls unwrap what they are passed.

In a run in which no read of the posts fails, no closure of a call traps: every
document the app casts a field of was written with that field. A call then calls
its completion exactly once, with a list.
-/

namespace Amigo

/-- The string fields the app casts by force in a document of a collection. -/
def castFields : CollectionName → List String
  | .posts => postFields
  | .cities => ["title"]
  | .deleter => ["idPost"]
  | .users => ["fullname"]

/-- The document has every field that is cast by force. -/
def Castable (collection : CollectionName) (document : Document) : Prop :=
  ∀ name ∈ castFields collection, (document.data.string name).isSome = true

/-- The closures of `Model.getAllPosts` and `Model.deleteAPosts`. -/
def Callback.ofCall : Callback → Bool
  | .fetchPosts _ _ | .fetchCities _ _ | .deleterLookup _ | .refreshCity => true
  | _ => false

/-- The read a call of `Model.getAllPosts` waits for before its completion. -/
def Pending.isSync (pending : Pending) : Bool :=
  match pending.callback with
  | .fetchPosts _ .merge | .fetchCities _ .merge => true
  | _ => false

namespace Client

/-- The calls of `Model.getAllPosts` whose completion is still to be called. -/
def inFlight (client : Client) : Nat := client.pending.countP Pending.isSync

/-- What a step called completions of `Model.getAllPosts` with, oldest first. -/
def passed (before after : Client) : List (Option (List Post)) :=
  (after.delivered.drop before.delivered.length).map some

/-- Every answer a client has not yet delivered, and every write it has queued, has
the fields that are cast by force. -/
structure CastSafe (client : Client) : Prop where
  answered : ∀ pending ∈ client.pending, ∀ documents, pending.answer = some (.snapshot documents) →
    ∀ document ∈ documents, Castable pending.callback.collection document
  queued : ∀ collection document json, .setData collection document json ∈ client.outbox →
    ∀ stamp, Castable collection ⟨document, resolve stamp json⟩

/-- A step of a client keeps this, when the cloud it reads has the fields. -/
theorem CastSafe.act {platform : Platform} {cloud : Cloud} {client after : Client} {action : Action}
    (safe : client.CastSafe)
    (stored : ∀ collection, ∀ document ∈ cloud collection, Castable collection document)
    (acted : client.act platform cloud action = some after) : after.CastSafe where
  answered := by
    intro pending member documents isAnswer document inDocuments
    cases act_pending acted member with
    | kept before => exact safe.answered pending before documents isAnswer document inDocuments
    | answered index callback =>
      cases isAnswer
      have shown : document ∈ client.localView cloud callback.collection := mem_read inDocuments
      exact localView_forall (stored _) (safe.queued callback.collection) document shown
    | failed => simp at isAnswer
    | pressed | filtering | lookup | refresh | removal => simp at isAnswer
  queued := by
    intro collection document json member stamp
    generalize isWrite : Write.setData collection document json = write at member
    cases act_outbox acted member with
    | kept before => exact safe.queued collection document json (isWrite ▸ before) stamp
    | pressed pressed =>
      cases pressed with
      | pin title =>
        cases isWrite
        simp [Castable, castFields, resolve, Fields.string, Fields.get, FieldValue.resolve]
      | user user =>
        cases isWrite
        simp [Castable, castFields, resolve, Fields.string, Fields.get, FieldValue.resolve,
          User.toJson, List.lookup_cons]
    | posted =>
      cases isWrite
      simp [Castable, castFields, postFields, resolve, Fields.string, Fields.get,
        FieldValue.resolve, Post.toJson, List.lookup_cons]
    | announced =>
      cases isWrite
      simp [Castable, castFields, resolve, Fields.string, Fields.get, FieldValue.resolve]
    | removed => cases isWrite

end Client

namespace World

variable {ι : Type*}

/-- Every document of the world has the fields that are cast by force. -/
structure CastSafe (world : World ι) : Prop where
  stored : ∀ collection, ∀ document ∈ world.cloud collection, Castable collection document
  clients : ∀ client, (world.clients client).CastSafe

/-- At the start nothing is stored. -/
theorem castSafe_init : (init ι).CastSafe where
  stored := by simp [init]
  clients := by
    intro client
    constructor <;> simp [init]

variable [DecidableEq ι]

/-- One step keeps this. -/
theorem CastSafe.step {platform : Platform} {world next : World ι} {event : Event ι}
    (safe : world.CastSafe) (stepped : world.step platform event = some next) : next.CastSafe where
  stored := by
    intro collection document member
    obtain older | ⟨time, key, json, rest, _, queued, rfl⟩ := stored_after stepped member
    · exact safe.stored collection document older
    · apply (safe.clients event.1).queued collection key json
      rw [queued]
      exact List.mem_cons_self
  clients := by
    intro client
    obtain same | ⟨rfl, acted⟩ := client_after stepped client
    · exact same ▸ safe.clients client
    · exact (safe.clients _).act safe.stored acted

end World

namespace Client

/-- The number of a list's calls does not depend on the answers. -/
theorem countP_set_answer {pending : List Pending} {index : Nat} {callback : Callback}
    {answer : Option Answer} (waiting : pending[index]? = some ⟨callback, answer⟩)
    (other : Option Answer) :
    (pending.set index ⟨callback, other⟩).countP Pending.isSync = pending.countP Pending.isSync := by
  obtain ⟨inside, same⟩ := List.getElem?_eq_some_iff.mp waiting
  have before := (List.getElem_cons_eraseIdx_perm inside).countP_eq Pending.isSync
  have after := (List.getElem_cons_eraseIdx_perm (l := pending.set index ⟨callback, other⟩)
    (by simpa using inside)).countP_eq Pending.isSync
  have unanswered : (Pending.mk callback other).isSync = (Pending.mk callback answer).isSync := rfl
  rw [← before, ← after, same, List.getElem_set_self, List.eraseIdx_set_eq, List.countP_cons,
    List.countP_cons, unanswered]

/-- A delivered read is counted no more. -/
theorem countP_eraseIdx {pending : List Pending} {index : Nat} {delivered : Pending}
    (ready : pending[index]? = some delivered) :
    (pending.eraseIdx index).countP Pending.isSync + (if delivered.isSync then 1 else 0) =
      pending.countP Pending.isSync := by
  obtain ⟨inside, same⟩ := List.getElem?_eq_some_iff.mp ready
  have before := (List.getElem_cons_eraseIdx_perm inside).countP_eq Pending.isSync
  rw [← before, same, List.countP_cons]

/-- A number of calls was started, and each in flight before or started is in flight
still or has called its completion. -/
def Counts (started : Nat) (before after : Client) : Prop :=
  after.trap = none → ∃ lists, after.delivered = before.delivered ++ lists ∧
    after.inFlight + lists.length = before.inFlight + started

/-- What delivers and asks nothing counts nothing. -/
theorem Counts.of_same {before after : Client} (delivered : after.delivered = before.delivered)
    (pending : after.pending = before.pending) : Counts 0 before after :=
  fun _ => ⟨[], by simp [delivered], by simp [inFlight, pending]⟩

/-- A stopped app counts nothing. -/
theorem counts_crash (started : Nat) (trap : Trap) (before after : Client) :
    Counts started before (after.crash trap) := fun running => by simp [crash] at running

/-- Asking a read that is no call's leaves the count. -/
theorem counts_ask {callback : Callback} {before after : Client}
    (other : (Pending.mk callback none).isSync = false)
    (delivered : after.delivered = before.delivered)
    (pending : after.pending = before.pending ++ [⟨callback, none⟩]) : Counts 0 before after :=
  fun _ => ⟨[], by simp [delivered], by simp [inFlight, pending, other]⟩

/-- Opening a post counts nothing. -/
theorem Reloads.counts {client after : Client} (reloads : Reloads client after) :
    Counts 0 client after := by
  cases reloads with
  | closed | signedOut => exact counts_crash _ _ _ _
  | shown => exact .of_same rfl rfl

/-- Nor does the end of an upload. -/
theorem Finishes.counts {url : String} {client after : Client} {upload : Upload}
    (finishes : Finishes url client upload after) : Counts 0 client after := by
  cases finishes with
  | silent | posts => exact .of_same rfl rfl
  | unfilled | signedOut => exact counts_crash _ _ _ _

/-- A merge that does not trap calls one completion. -/
theorem merge_calls {platform : Platform} {data : List Post} {client : Client}
    (running : (client.merge platform data).trap = none) :
    ∃ finalData, (client.merge platform data).delivered = client.delivered ++ [finalData] ∧
      (client.merge platform data).inFlight = client.inFlight := by
  obtain ⟨_, result⟩ | ⟨finalData, _, result⟩ := merge_form platform data client
  · simp [result, crash] at running
  · rw [result]
    refine ⟨finalData, rfl, ?_⟩
    cases data <;> simp [merging, mergeReads, inFlight, Pending.isSync]

/-- Nor do the loops that only bring fields up to date. -/
theorem counts_touches {client after : Client} (touches : Relation.ReflTransGen Touch client after) :
    Counts 0 client after := by
  obtain ⟨rows, city, adds, _, rfl | ⟨trap, rfl⟩⟩ := touches_form touches
  · exact .of_same rfl rfl
  · exact counts_crash _ _ _ _

/-- Delivering a read of a call continues or completes it; delivering another read
leaves the calls alone. -/
theorem Answers.counts {platform : Platform} {client after : Client} {callback : Callback}
    {answer : Answer} (answers : Answers platform client callback answer after) :
    Counts (if (Pending.mk callback (some answer)).isSync then 1 else 0) client after := by
  cases answers with
  | silent reads =>
    obtain rfl | ⟨screen, rfl⟩ | ⟨screen, rfl⟩ := reads <;> exact .of_same rfl rfl
  | refreshes loop =>
    have counts := counts_touches (touches_answered platform loop answer client)
    obtain ⟨receiver, rfl⟩ | rfl | ⟨screen, rfl⟩ | ⟨screen, uid, rfl⟩ := loop <;> exact counts
  | stops | uncast => exact counts_crash _ _ _ _
  | fetched since next documents asked =>
    subst asked
    intro _
    cases next with
    | merge => exact ⟨[], by simp [ask], by simp [ask, inFlight, Pending.isSync]⟩
    | delete postIds => exact ⟨[], by simp [ask], by simp [ask, inFlight, Pending.isSync]⟩
  | merged snapshot data asked =>
    subst asked
    intro running
    obtain ⟨finalData, called, flying⟩ := merge_calls running
    exact ⟨[finalData], called, by
      rw [List.length_singleton]
      exact congrArg (· + 1) flying⟩
  | missed snapshot postIds asked | removed snapshot postIds data asked =>
    subst asked
    exact .of_same rfl rfl
  | announced documents document postIds asked =>
    subst asked
    exact counts_ask rfl rfl rfl
  | edited screen view documents document title userName asked =>
    subst asked
    exact .of_same rfl rfl

/-- A step of an app that goes on running loses no call and completes none twice. -/
theorem act_counts {platform : Platform} {cloud : Cloud} {client after : Client} {action : Action}
    (acted : client.act platform cloud action = some after) (launched : action ≠ .relaunch) :
    Counts (if action = .getAllPosts then 1 else 0) client after := by
  cases act_acts acted with
  | relaunch => exact absurd rfl launched
  | getAllPosts =>
    exact fun _ => ⟨[], by simp [getAllPosts, ask], by
      simp [getAllPosts, ask, inFlight, Pending.isSync]⟩
  | confirmDelete | openEdit | podtEditButtom => exact counts_ask rfl rfl rfl
  | openAdd => exact fun _ => ⟨[], by simp [ask], by simp [ask, inFlight, Pending.isSync]⟩
  | didSelectRowAt => exact (reloadPost_reloads _).counts
  | infoAppears => exact (reloadPost_reloads client).counts
  | uploaded index url placeText recText upload =>
    exact (uploaded_finishes url placeText recText _ upload).counts
  | answer index callback waiting | fail index callback waiting =>
    exact fun _ => ⟨[], by simp, by simp [inFlight, countP_set_answer waiting]⟩
  | deliver index callback answer ready =>
    intro running
    obtain ⟨lists, called, flying⟩ := (answered_answers platform { client with
      pending := client.pending.eraseIdx index } callback answer).counts running
    refine ⟨lists, called, flying.trans ?_⟩
    exact countP_eraseIdx ready
  | _ => exact .of_same rfl rfl

/-- A lookup of castable notices does not trap. -/
theorem deleterAnswered_trap {platform : Platform} {receiver : Post} {documents : List Document}
    {client : Client} (castable : ∀ document ∈ documents, Castable .deleter document) :
    (deleterAnswered platform receiver documents client).trap = client.trap := by
  induction documents generalizing client with
  | nil => rfl
  | cons document rest inductionHypothesis =>
    obtain ⟨postIds, announces⟩ := Option.isSome_iff_exists.mp
      (castable document List.mem_cons_self "idPost" List.mem_cons_self)
    rw [deleterAnswered, announces]
    exact inductionHypothesis (fun other member => castable other (List.mem_cons_of_mem _ member))

/-- A refresh from castable cities does not trap. -/
theorem cityRefreshed_trap {documents : List Document} {client : Client}
    (castable : ∀ document ∈ documents, Castable .cities document) :
    (cityRefreshed documents client).trap = client.trap := by
  induction documents generalizing client with
  | nil => rfl
  | cons document rest inductionHypothesis =>
    obtain ⟨title, titled⟩ := Option.isSome_iff_exists.mp
      (castable document List.mem_cons_self "title" List.mem_cons_self)
    rw [cityRefreshed, titled]
    exact inductionHypothesis (fun other member => castable other (List.mem_cons_of_mem _ member))

/-- A closure of a call traps only on a failed read of the posts. -/
theorem call_trap {platform : Platform} {client : Client} {callback : Callback}
    {answer : Answer} (posts : ∀ document ∈ (Pending.mk callback (some answer)).posts, WellKeyed document)
    (castable : ∀ documents, answer = .snapshot documents →
      ∀ document ∈ documents, Castable callback.collection document)
    (rows : ∀ row ∈ client.postAmigo, row.WellKeyed) (plain : PlainText client.postCity)
    (isCall : callback.ofCall = true)
    (fetched : ∀ since next, callback = .fetchPosts since next → answer ≠ .failed) :
    (client.answered platform callback answer).trap = client.trap := by
  cases callback with
  | fetchPosts since next =>
    cases answer with
    | failed => exact absurd rfl (fetched since next rfl)
    | snapshot documents => rfl
  | fetchCities snapshot next =>
    have keyed : ∀ document ∈ snapshot, WellKeyed document := posts
    exact citiesAnswered_trap platform next answer plain keyed rows
  | deleterLookup receiver =>
    cases answer with
    | failed => rfl
    | snapshot documents => exact deleterAnswered_trap (castable documents rfl)
  | refreshCity =>
    cases answer with
    | failed => rfl
    | snapshot documents => exact cityRefreshed_trap (castable documents rfl)
  | confirmedDelete | addCity | addName | editPrefill | editRead => simp [Callback.ofCall] at isCall

end Client

namespace World

variable {ι : Type*}

/-- The step runs a closure that waited for a read. -/
def Delivers (world : World ι) (event : Event ι) (client : ι) (callback : Callback)
    (answer : Answer) : Prop :=
  ∃ index : Nat, event = (client, .deliver index) ∧
    (world.clients client).pending[index]? = some ⟨callback, some answer⟩

/-- The step delivers the error of a read of the posts. -/
def postsReadFailed (world : World ι) (event : Event ι) : Bool :=
  match event.2 with
  | .deliver index =>
    match (world.clients event.1).pending[index]? with
    | some ⟨.fetchPosts _ _, some .failed⟩ => true
    | _ => false
  | _ => false

/-- A failed read of the posts is the delivery of its error. -/
theorem postsReadFailed_iff (world : World ι) (event : Event ι) :
    world.postsReadFailed event = true ↔
      ∃ client since next, world.Delivers event client (.fetchPosts since next) .failed := by
  obtain ⟨client, action⟩ := event
  constructor
  · intro failed
    cases action with
    | deliver index =>
      simp only [postsReadFailed] at failed
      split at failed
      · rename_i since next ready
        exact ⟨client, since, next, index, rfl, ready⟩
      · simp at failed
    | _ => simp [postsReadFailed] at failed
  · rintro ⟨other, since, next, index, isEvent, ready⟩
    cases isEvent
    simp [postsReadFailed, ready]

/-- What a step owes the calls of a client: no closure of a call traps, no call in
flight is lost or completed twice, and a failed read of the posts changes nothing and
is passed on as nil. -/
structure CallsIntact [DecidableEq ι] (world next : World ι) (event : Event ι) : Prop where
  running : ∀ client callback answer, world.Delivers event client callback answer →
    callback.ofCall = true → (next.clients client).trap = none
  once : ∀ client, (next.clients client).trap = none → event ≠ (client, .relaunch) →
    (next.clients client).inFlight +
        (Client.passed (world.clients client) (next.clients client)).length =
      (world.clients client).inFlight + (if event = (client, .getAllPosts) then 1 else 0)
  failed : ∀ client since after, world.Delivers event client (.fetchPosts since after) .failed →
    (next.clients client).postAmigo = (world.clients client).postAmigo ∧
      (next.clients client).dates = (world.clients client).dates ∧ next.cloud = world.cloud ∧
      (after = .merge → Client.passed (world.clients client) (next.clients client) = [none])

variable [DecidableEq ι]

/-- No call is lost or completed twice. -/
theorem step_counts {platform : Platform} {world next : World ι} {event : Event ι}
    (stepped : world.step platform event = some next) (client : ι)
    (running : (next.clients client).trap = none) (launched : event ≠ (client, .relaunch)) :
    (next.clients client).inFlight +
        (Client.passed (world.clients client) (next.clients client)).length =
      (world.clients client).inFlight + (if event = (client, .getAllPosts) then 1 else 0) := by
  obtain ⟨actor, action⟩ := event
  by_cases same : client = actor
  · subst same
    obtain ⟨lists, called, flying⟩ := Client.act_counts (step_act stepped)
      (fun isRelaunch => launched (by rw [← isRelaunch])) running
    simp only [Client.passed, called, List.drop_left, List.length_map, flying, Prod.mk.injEq,
      true_and]
  · rw [step_other stepped same]
    simp [Client.passed, Ne.symm same]

/-- A step from a world whose documents can all be cast keeps the calls intact exactly
when it delivers no error of a read of the posts. -/
theorem callsIntact_step {platform : Platform} {before after : World ι} {event : Event ι}
    (sound : before.Sound) (pinned : before.Pinned platform) (safe : before.CastSafe)
    (stepped : before.step platform event = some after) :
    CallsIntact before after event ↔ before.postsReadFailed event = false := by
  constructor
  · intro intact
    by_contra failed
    obtain ⟨client, since, next, delivers⟩ :=
      (postsReadFailed_iff before event).mp (Bool.not_eq_false _ ▸ failed)
    have running := intact.running client _ _ delivers rfl
    obtain ⟨index, rfl, ready⟩ := delivers
    rw [deliver_answered stepped ready] at running
    simp [Client.answered, Client.postsAnswered, Client.crash] at running
  · intro fetched
    have succeeded : ∀ client since next,
        ¬ before.Delivers event client (.fetchPosts since next) .failed := by
      intro client since next delivers
      have failed := (postsReadFailed_iff before event).mpr ⟨client, since, next, delivers⟩
      exact absurd (fetched.symm.trans failed) (by decide)
    refine ⟨?_, fun client => step_counts stepped client, ?_⟩
    · intro client callback answer delivers isCall
      have notFailed : ∀ since next, callback = .fetchPosts since next → answer ≠ .failed := by
        rintro since next rfl rfl
        exact succeeded client since next delivers
      obtain ⟨index, rfl, ready⟩ := delivers
      have member := List.mem_of_getElem? ready
      rw [deliver_answered stepped ready]
      refine (Client.call_trap ?_ ?_ ?_ ?_ isCall notFailed).trans (deliver_running stepped)
      · exact ((sound.clients client).held _ member).keyed
      · intro documents isAnswer
        exact (safe.clients client).answered _ member documents (congrArg some isAnswer)
      · exact (sound.clients client).rows
      · exact (pinned.clients client).plain
    · intro client since next delivers
      exact absurd delivers (succeeded client since next)

/-- In every run the calls stay intact at every step exactly when no read of the posts
fails. -/
theorem calls_intact_iff (platform : Platform) {events : List (Event ι)} {last : World ι}
    (run : GuardedRuns.Runs (step platform) GuardedRuns.unguarded (init ι) events last) :
    (∀ before event after,
      (before, event, after) ∈ GuardedRuns.transitions (step platform) (init ι) events →
        CallsIntact before after event) ↔
      ∀ before event after,
        (before, event, after) ∈ GuardedRuns.transitions (step platform) (init ι) events →
          before.postsReadFailed event = false := by
  have kept (before : World ι) (event : Event ι) (after : World ι)
      (facts : before.Sound ∧ before.Pinned platform ∧ before.CastSafe)
      (_ : GuardedRuns.unguarded before event) (stepped : before.step platform event = some after) :
      after.Sound ∧ after.Pinned platform ∧ after.CastSafe :=
    ⟨facts.1.step stepped, facts.2.1.step stepped, facts.2.2.step stepped⟩
  have each : ∀ before event after,
      (before, event, after) ∈ GuardedRuns.transitions (step platform) (init ι) events →
        (CallsIntact before after event ↔ before.postsReadFailed event = false) := by
    refine run.every_step kept ?_ ⟨sound_init, pinned_init platform, castSafe_init⟩
    rintro before event after ⟨sound, pinned, safe⟩ _ stepped
    exact callsIntact_step sound pinned safe stepped
  constructor
  · intro intact before event after member
    exact (each before event after member).mp (intact before event after member)
  · intro fetched before event after member
    exact (each before event after member).mpr (fetched before event after member)

/-- A second device syncs while the cities cannot be read. -/
def citiesReadFails : List (Event Bool) :=
  debut false ⟨"ann", "Ann", "", ""⟩ "Haifa" "AAAAAAAAAAAAAAAAAAA1" ++
    [(true, .getAllPosts), (true, .answer 0), (true, .deliver 0), (true, .fail 0), (true, .deliver 0)]

/-- The sync calls its completion, and the calls stay intact. -/
theorem calls_intact_iff_cities_failed : ∃ last : World Bool,
    GuardedRuns.Runs (step Platform.plain) GuardedRuns.unguarded (init Bool) citiesReadFails last ∧
    (last.clients true).delivered = [[]] ∧
    ∀ before event after, (before, event, after) ∈
      GuardedRuns.transitions (step Platform.plain) (init Bool) citiesReadFails →
        CallsIntact before after event := by
  have ran : ((GuardedRuns.exec (step Platform.plain) (init Bool) citiesReadFails).any fun last =>
      decide ((last.clients true).delivered = [[]])) = true := by decide +kernel
  obtain ⟨last, run, delivered⟩ := GuardedRuns.exists_run ran
  have fetched : ∀ transition ∈
      GuardedRuns.transitions (step Platform.plain) (init Bool) citiesReadFails,
        transition.1.postsReadFailed transition.2.1 = false := by decide +kernel
  refine ⟨last, run, delivered, (calls_intact_iff _ run).mpr ?_⟩
  intro before event after member
  exact fetched (before, event, after) member

/-- A sync whose read of the posts fails stops the app. -/
theorem calls_not_always_intact : ¬ ∀ (events : List (Event Bool)) (last : World Bool),
    GuardedRuns.Runs (step Platform.plain) GuardedRuns.unguarded (init Bool) events last →
    ∀ before event after,
      (before, event, after) ∈ GuardedRuns.transitions (step Platform.plain) (init Bool) events →
        CallsIntact before after event := by
  intro always
  have ran : ((GuardedRuns.exec (step Platform.plain) (init Bool)
      [(false, .getAllPosts), (false, .fail 0)]).any fun before =>
        (before.step Platform.plain (false, .deliver 0)).any fun after =>
          decide ((before.clients false).pending = [⟨.fetchPosts 0 .merge, some .failed⟩] ∧
            (after.clients false).trap = some .missingData)) = true := by
    decide +kernel
  obtain ⟨before, after, run, transition, pending, trapped⟩ := GuardedRuns.exists_transition ran
  have delivers : before.Delivers (false, .deliver 0) false (.fetchPosts 0 .merge) .failed :=
    ⟨0, rfl, by rw [pending]; rfl⟩
  have running := (always _ _ run before _ after transition).running false _ _ delivers rfl
  simp [trapped] at running

end World

end Amigo
