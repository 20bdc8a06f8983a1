import Amigo.Client
import Amigo.GuardedRuns

/-!
# Any number of clients and one cloud

A world is the committed cloud, one client per index of an arbitrary index type
and the document identifiers generated so far. A step is a client and one of its
actions, so a run is any interleaving of the steps of any number of clients. A
client reads the cloud only when the server answers one of its reads, and
changes it only when the server commits the write at the head of its queue.

Generated identifiers have the documented form, twenty letters and digits, and
are fresh. The world starts with an empty cloud and freshly installed clients,
so every document and row of a reachable world was written by these clients.
-/

namespace Amigo

universe u

/-- The clients, the cloud they share, and the identifiers generated for them. -/
structure World (ι : Type u) where
  /-- What the server has committed. -/
  cloud : Cloud
  clients : ι → Client
  /-- The document identifiers generated so far, the last one first. -/
  issued : List String

/-- A client and its action. -/
abbrev Event (ι : Type u) := ι × Action

/-- The form of a generated document identifier. -/
def generated (id : String) : Bool := id.length == 20 && id.toList.all Char.isAlphanum

namespace World

variable {ι : Type u}

/-- The empty cloud and freshly installed clients. -/
def init (ι : Type u) : World ι where
  cloud := fun _ => []
  clients := fun _ => {}
  issued := []

/-- The cloud after an event: only a commit changes it. -/
def cloudAfter (world : World ι) (event : Event ι) : Cloud :=
  match event.2, (world.clients event.1).outbox with
  | .commit time, write :: _ => write.commit time world.cloud
  | _, _ => world.cloud

/-- The identifier an action takes from the generator. -/
def generates : Action → Option String
  | .postBtn _ idPost => some idPost
  | _ => none

/-- The generator's contract for one action. -/
def fresh (world : World ι) (action : Action) : Bool :=
  match generates action with
  | none => true
  | some id => generated id && !world.issued.contains id

/-- Only a commit changes the cloud, and it commits the head of the queue. -/
theorem cloudAfter_cases (world : World ι) (event : Event ι) :
    world.cloudAfter event = world.cloud ∨
      ∃ time write rest, event.2 = .commit time ∧
        (world.clients event.1).outbox = write :: rest ∧
        world.cloudAfter event = write.commit time world.cloud := by
  obtain ⟨client, action⟩ := event
  cases action with
  | commit time =>
    cases queued : (world.clients client).outbox with
    | nil => exact Or.inl (by simp [cloudAfter, queued])
    | cons write rest => exact Or.inr ⟨time, write, rest, rfl, rfl, by simp [cloudAfter, queued]⟩
  | _ => exact Or.inl rfl

variable [DecidableEq ι]

/-- One step of one client. -/
def step (platform : Platform) (world : World ι) (event : Event ι) : Option (World ι) :=
  if world.fresh event.2 then
    ((world.clients event.1).act platform world.cloud event.2).map fun client =>
      { cloud := world.cloudAfter event
        clients := Function.update world.clients event.1 client
        issued := (generates event.2).toList ++ world.issued }
  else none

/-- A step changes one client as its action says, and nothing of the others. -/
theorem step_inv {platform : Platform} {world next : World ι} {event : Event ι}
    (stepped : world.step platform event = some next) :
    world.fresh event.2 = true ∧
      ∃ client, (world.clients event.1).act platform world.cloud event.2 = some client ∧
        next.cloud = world.cloudAfter event ∧
        next.clients = Function.update world.clients event.1 client ∧
        next.issued = (generates event.2).toList ++ world.issued := by
  unfold step at stepped
  split at stepped
  · rename_i isFresh
    obtain ⟨client, acted, rfl⟩ := Option.map_eq_some_iff.mp stepped
    exact ⟨isFresh, client, acted, rfl, rfl, rfl⟩
  · simp at stepped

/-- The clients a step does not name are as they were. -/
theorem step_other {platform : Platform} {world next : World ι} {event : Event ι}
    (stepped : world.step platform event = some next) {other : ι} (distinct : other ≠ event.1) :
    next.clients other = world.clients other := by
  obtain ⟨_, client, _, _, clients, _⟩ := step_inv stepped
  rw [clients, Function.update_of_ne distinct]

/-- The client a step names acts. -/
theorem step_act {platform : Platform} {world next : World ι} {event : Event ι}
    (stepped : world.step platform event = some next) :
    (world.clients event.1).act platform world.cloud event.2 = some (next.clients event.1) := by
  obtain ⟨_, client, acted, _, clients, _⟩ := step_inv stepped
  rw [clients, Function.update_self]
  exact acted

/-- A client after a step is as it was, or is the one that acted. -/
theorem client_after {platform : Platform} {world next : World ι} {event : Event ι}
    (stepped : world.step platform event = some next) (client : ι) :
    next.clients client = world.clients client ∨ (client = event.1 ∧
      (world.clients client).act platform world.cloud event.2 = some (next.clients client)) := by
  by_cases same : client = event.1
  · exact Or.inr ⟨same, same ▸ step_act stepped⟩
  · exact Or.inl (step_other stepped same)

/-- A document stored after a step was stored before, or the step committed it. -/
theorem stored_after {platform : Platform} {world next : World ι} {event : Event ι}
    (stepped : world.step platform event = some next) {collection : CollectionName}
    {document : Document} (member : document ∈ next.cloud collection) :
    document ∈ world.cloud collection ∨ ∃ time key json rest, event.2 = .commit time ∧
      (world.clients event.1).outbox = .setData collection key json :: rest ∧
      document = ⟨key, resolve (.committed time) json⟩ := by
  obtain ⟨_, _, _, cloud, _, _⟩ := step_inv stepped
  rw [cloud] at member
  obtain same | ⟨time, write, rest, isCommit, queued, committed⟩ := world.cloudAfter_cases event
  · exact Or.inl (same ▸ member)
  · rw [committed] at member
    obtain older | ⟨key, json, rfl, isNew⟩ := mem_commit member
    · exact Or.inl older
    · exact Or.inr ⟨time, key, json, rest, isCommit, queued, isNew⟩

/-- A delivery runs the closure at a running client, without the read. -/
theorem deliver_answered {platform : Platform} {world next : World ι} {client : ι} {index : Nat}
    {callback : Callback} {answer : Answer}
    (stepped : world.step platform (client, .deliver index) = some next)
    (ready : (world.clients client).pending[index]? = some ⟨callback, some answer⟩) :
    next.clients client = ({ world.clients client with
      pending := (world.clients client).pending.eraseIdx index } : Client).answered platform callback
        answer := by
  have performed := (Option.ite_none_right_eq_some.mp (step_act stepped)).2
  simp only [Client.perform, ready, Option.some.injEq] at performed
  exact performed.symm

/-- Only a running app delivers. -/
theorem deliver_running {platform : Platform} {world next : World ι} {client : ι} {index : Nat}
    (stepped : world.step platform (client, .deliver index) = some next) :
    (world.clients client).trap = none := by
  exact (Option.ite_none_right_eq_some.mp (step_act stepped)).1

/-- A state of some run from the start. -/
def Reachable (platform : Platform) (world : World ι) : Prop :=
  ∃ events, GuardedRuns.Runs (step platform) GuardedRuns.unguarded (init ι) events world

/-- What holds at the start and is kept by every step holds of every reachable
world. -/
theorem Reachable.invariant {platform : Platform} {world : World ι} (reachable : world.Reachable platform)
    (invariant : World ι → Prop) (initial : invariant (init ι))
    (kept : ∀ before event next, invariant before → step platform before event = some next →
      invariant next) : invariant world := by
  obtain ⟨events, run⟩ := reachable
  exact run.invariant (fun before event next holds _ stepped => kept before event next holds stepped)
    initial

/-- Nothing is asked, uploading or queued at any client. -/
def Quiescent (world : World ι) : Prop :=
  ∀ client, (world.clients client).pending = [] ∧ (world.clients client).uploads = [] ∧
    (world.clients client).outbox = []

/-! Whole user actions in which every read is answered and delivered at once and
every write committed at once. They start from a client with nothing pending. -/

/-- Answer and deliver the oldest read, a number of times. -/
def settle (client : ι) (reads : Nat) : List (Event ι) :=
  (List.replicate reads [(client, .answer 0), (client, .deliver 0)]).flatten

/-- A pin is selected on the map. -/
def select (client : ι) (city : String) (seconds : Int) : List (Event ι) :=
  [(client, .selectPin city), (client, .commit ⟨seconds, 0⟩)]

/-- A user registers. -/
def enroll (client : ι) (user : User) (seconds : Int) : List (Event ι) :=
  [(client, .signIn user.id), (client, .addUser user), (client, .commit ⟨seconds, 0⟩)]

/-- A new post is written on a fresh screen. -/
def publish (client : ι) (screen : Nat) (idPost : String) (seconds : Int) : List (Event ι) :=
  (client, .openAdd) :: settle client 2 ++
    [(client, .postBtn screen idPost), (client, .uploaded 0 "url" "place" "text"),
      (client, .commit ⟨seconds, 0⟩)]

/-- A new user selects a city and writes a first post there. -/
def debut (client : ι) (user : User) (city idPost : String) : List (Event ι) :=
  enroll client user 1 ++ select client city 2 ++ publish client 0 idPost 3

/-- The post `debut` stores. -/
def debutPost (user : User) (city idPost : String) : Post where
  id := idPost
  title := city
  userName := user.fullname
  placeImage := "url"
  recText := "text"
  placeLocation := "place"
  userId := user.id
  postId := idPost

/-- One run of `Model.getAllPosts` with a number of reads. -/
def sync (client : ι) (reads : Nat) : List (Event ι) := (client, .getAllPosts) :: settle client reads

/-- A listed post of the user is opened and its edit sent, up to the upload. -/
def edit (client : ι) (screen : Nat) (post : Post) : List (Event ι) :=
  [(client, .didSelectRowAt post), (client, .openEdit)] ++ settle client 1 ++
    [(client, .podtEditButtom screen)] ++ settle client 1

/-- A listed post is deleted: announced, looked up again and removed. -/
def remove (client : ι) (post : Post) (seconds : Int) : List (Event ι) :=
  (client, .confirmDelete post) :: settle client 1 ++ [(client, .commit ⟨seconds, 0⟩)] ++
    settle client 2 ++ [(client, .commit ⟨seconds, 0⟩)]

end World

end Amigo
