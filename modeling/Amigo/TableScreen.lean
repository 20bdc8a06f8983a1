import Amigo.GuardedRuns
import Amigo.UserUnwraps

/-!
# The delete button of the feed

One table screen over one client. The button of a cell is tapped for the post the
cell shows; the alert that follows resolves the cell's row in `data` only when it
is confirmed, keeps the post found there in `selected`, and asks for all posts.
The closure of that read announces and removes whatever `selected` then holds.
Reloads replace `data` with any list at any time, row taps set `selected`, and
every other action of the client may fall in between, with any cloud. Several
deletions may wait for their reads at once; each is kept here with the post whose
button was tapped.

The screen's own fields are kept beside the client's, and its steps use the
client's functions. A table that shows fewer rows than the resolved index stops
the app. That the tapped cell keeps its row index is the one thing taken from the
toolkit.
-/

namespace Amigo

namespace Client

/-- The announcement in deleter/Post and the removal of one id. -/
def announce (postid : String) (client : Client) : Client :=
  (client.enqueue (.setData .deleter "Post" [("idPost", .value (.string postid))])).deleteAPosts postid

/-- The documents the delete's loop can reach: those before a failing cast. -/
def readable (documents : List Document) : List Document :=
  documents.takeWhile (fun document => (document.data.string "postId").isSome)

/-- The post now selected has this id and is found by the loop. -/
def Finds (client : Client) (documents : List Document) (postid : String) : Prop :=
  client.selected.map Post.postId = some postid ∧
    ∃ document ∈ readable documents, document.data.string "postId" = some postid

/-- The loop announces and removes the selected post when it finds it. -/
theorem deleteConfirmed_found {client : Client} {documents : List Document} {postid : String}
    (finds : client.Finds documents postid) : deleteConfirmed documents client = client.announce postid := by
  obtain ⟨chosen, found⟩ := finds
  induction documents with
  | nil => simp [readable] at found
  | cons document rest inductionHypothesis =>
    obtain ⟨target, member, named⟩ := found
    cases hasId : document.data.string "postId" with
    | none => simp [readable, hasId] at member
    | some other =>
      simp only [deleteConfirmed, hasId]
      by_cases here : client.selected.map Post.postId = some other
      · have same : postid = other := Option.some.inj (chosen.symm.trans here)
        simp only [here, ↓reduceIte, same]
        rfl
      · simp only [here, ↓reduceIte]
        refine inductionHypothesis ⟨target, ?_, named⟩
        have elsewhere : target ∈ document :: readable rest := by
          simpa only [readable, hasId, Option.isSome_some, List.takeWhile_cons, ↓reduceIte] using member
        obtain isHere | later := List.mem_cons.mp elsewhere
        · rw [isHere, hasId] at named
          exact absurd (chosen.trans named.symm) here
        · exact later

/-- Otherwise it changes nothing, or stops at a document without an id. -/
theorem deleteConfirmed_missing {client : Client} {documents : List Document}
    (missing : ∀ postid, ¬ client.Finds documents postid) :
    deleteConfirmed documents client = client ∨
      deleteConfirmed documents client = client.crash .postField := by
  induction documents with
  | nil => exact Or.inl rfl
  | cons document rest inductionHypothesis =>
    cases hasId : document.data.string "postId" with
    | none => exact Or.inr (by simp only [deleteConfirmed, hasId])
    | some other =>
      have reaches : readable (document :: rest) = document :: readable rest := by
        simp only [readable, List.takeWhile_cons, hasId, Option.isSome_some, ↓reduceIte]
      have different : client.selected.map Post.postId ≠ some other := by
        intro here
        exact missing other ⟨here, document, reaches ▸ List.mem_cons_self, hasId⟩
      simp only [deleteConfirmed, hasId, different, ↓reduceIte]
      apply inductionHypothesis
      rintro postid ⟨chosen, target, member, named⟩
      exact missing postid ⟨chosen, target, reaches ▸ List.mem_cons_of_mem _ member, named⟩

end Client

/-- A tap on the delete button of a cell: its row, and the post the cell shows. -/
structure Tap where
  row : Nat
  post : Post
deriving DecidableEq

/-- One `TablePostTableViewController`. -/
structure TableScreen where
  client : Client
  data : List Post := []
  /-- Whether the cell of each row shows its delete button. -/
  buttons : List Bool := []
  alert : Option Tap := none
  /-- For each deletion whose read is not answered, the post whose button was tapped. -/
  deletions : List Post := []
  /-- A row was looked up outside `data`. -/
  outOfRange : Bool := false
deriving DecidableEq

/-- The steps around a deletion. -/
inductive TableEvent where
  | reloadData (posts : List Post) (viewer : Option String)
  | deleteButtom (row : Nat)
  | yes
  | cancel
  | didSelectRowAt (row : Nat) (logedIn : Bool)
  | answered (index : Nat) (answer : Answer)
  | elsewhere (cloud : Cloud) (action : Action)

namespace TableScreen

/-- A new screen over a client. -/
def opened (client : Client) : TableScreen where
  client := client

/-- `cellForRowAt`, for its delete button: shown to the logged-in author. The viewer
is the user the session flag and the signed-in user give. -/
def cellForRowAt (viewer : Option String) (post : Post) : Bool := decide (viewer = some post.userId)

/-- The yes action: resolve the row, keep the post and ask for all posts. -/
def yesAction (tap : Tap) (screen : TableScreen) : TableScreen :=
  match screen.data[tap.row]? with
  | none => { screen with alert := none, outOfRange := true }
  | some post =>
    { screen with
      alert := none
      client := { screen.client with selected := some post }
      deletions := screen.deletions ++ [tap.post] }

/-- One step of a running screen. The completion of a reload was called with the
list it shows. -/
def perform (platform : Platform) (screen : TableScreen) : TableEvent → Option TableScreen
  | .reloadData posts viewer =>
    some { screen with
      client := { screen.client with delivered := screen.client.delivered ++ [posts] }
      data := posts
      buttons := posts.map (cellForRowAt viewer) }
  | .deleteButtom row =>
    match screen.alert, screen.data[row]?, screen.buttons[row]? with
    | none, some post, some true => some { screen with alert := some ⟨row, post⟩ }
    | _, _, _ => none
  | .yes => screen.alert.map (fun tap => screen.yesAction tap)
  | .cancel => screen.alert.map (fun _ => { screen with alert := none })
  | .didSelectRowAt row logedIn =>
    (screen.data[row]?).bind fun post =>
      if logedIn then
        (screen.client.act platform (fun _ => []) (.didSelectRowAt post)).map
          (fun client => { screen with client := client })
      else some screen
  | .answered index answer =>
    if index < screen.deletions.length then
      some { screen with
        deletions := screen.deletions.eraseIdx index
        client := screen.client.onSnapshot answer Client.deleteConfirmed }
    else none
  | .elsewhere cloud action =>
    if Client.chooses action then none
    else (screen.client.act platform cloud action).map (fun client => { screen with client := client })

/-- A step needs an app that has not stopped. -/
def step (platform : Platform) (screen : TableScreen) (event : TableEvent) : Option TableScreen :=
  if screen.client.trap = none ∧ screen.outOfRange = false then screen.perform platform event else none

/-- What a deletion's own steps must do: its row lookup stays inside `data`, and
its read ends in nothing, in a failed cast, or in the announcement and removal of
the tapped post. -/
def DeletesTapped (before : TableScreen) (event : TableEvent) (after : TableScreen) : Prop :=
  match event with
  | .yes => after.outOfRange = false
  | .answered index _ => ∀ tapped ∈ before.deletions[index]?,
      after.client = before.client ∨ after.client = before.client.crash .postField ∨
        after.client = before.client.announce tapped.postId
  | _ => True

instance (before : TableScreen) (event : TableEvent) (after : TableScreen) :
    Decidable (DeletesTapped before event after) := by
  unfold DeletesTapped
  split <;> infer_instance

/-- The exact condition: the row exists when the alert is confirmed, and a post that
is selected and found when the read is answered is the tapped one. -/
def Aimed (screen : TableScreen) (event : TableEvent) : Prop :=
  match event with
  | .yes => ∀ tap ∈ screen.alert, tap.row < screen.data.length
  | .answered index (.snapshot documents) => ∀ tapped ∈ screen.deletions[index]?,
      ∀ postid, screen.client.Finds documents postid → postid = tapped.postId
  | _ => True

/-- The condition on the user's steps: the row still shows the tapped post when the
alert is confirmed, and no other post is chosen while a deletion waits. -/
def Undisturbed (screen : TableScreen) (event : TableEvent) : Prop :=
  match event with
  | .yes => ∀ tap ∈ screen.alert, (∃ post ∈ screen.data[tap.row]?, post.postId = tap.post.postId) ∧
      ∀ tapped ∈ screen.deletions, tapped.postId = tap.post.postId
  | .didSelectRowAt row logedIn => logedIn = true → ∀ post ∈ screen.data[row]?,
      ∀ tapped ∈ screen.deletions, tapped.postId = post.postId
  | _ => True

instance (screen : TableScreen) (event : TableEvent) : Decidable (Undisturbed screen event) := by
  unfold Undisturbed
  split <;> infer_instance

/-- The yes action is the client's confirmed delete, its read kept apart. -/
theorem yesAction_act (platform : Platform) (cloud : Cloud) {screen : TableScreen} {tap : Tap}
    {post : Post} (running : screen.client.trap = none) (found : screen.data[tap.row]? = some post)
    (shown : screen.client.shows post = true) :
    screen.client.act platform cloud (.confirmDelete post) =
      some ((screen.yesAction tap).client.ask .confirmedDelete) := by
  simp only [Client.act, running, ↓reduceIte, Client.perform, shown, yesAction, found]

/-- An answered read of a deletion is a delivered callback of the client. -/
theorem answered_act (platform : Platform) (cloud : Cloud) {client : Client} {index : Nat}
    {answer : Answer} (running : client.trap = none)
    (ready : client.pending[index]? = some ⟨.confirmedDelete, some answer⟩) :
    client.act platform cloud (.deliver index) =
      some ({ client with pending := client.pending.eraseIdx index }.onSnapshot answer
        Client.deleteConfirmed) := by
  simp only [Client.act, running, ↓reduceIte, Client.perform, ready, Client.answered]

/-- The inversion of a step. -/
theorem step_inv {platform : Platform} {screen next : TableScreen} {event : TableEvent}
    (stepped : screen.step platform event = some next) :
    screen.outOfRange = false ∧ screen.perform platform event = some next := by
  obtain ⟨running, performed⟩ := Option.ite_none_right_eq_some.mp stepped
  exact ⟨running.2, performed⟩

/-- Announcements of different ids differ, and every announcement shows in the queue. -/
theorem announce_injective {client : Client} {postid other : String}
    (same : client.announce postid = client.announce other) : postid = other := by
  have queues := List.append_cancel_left (congrArg Client.outbox same)
  simpa using queues

/-- An announcement changes the queue. -/
theorem announce_ne {client after : Client} {postid : String} (same : after.outbox = client.outbox) :
    client.announce postid ≠ after := by
  intro announced
  have queue : client.outbox ++ [_] = after.outbox := congrArg Client.outbox announced
  simp [same] at queue

/-- A step does what the deletion must exactly when it is aimed. -/
theorem deletesTapped_iff {platform : Platform} {before after : TableScreen} {event : TableEvent}
    (stepped : before.step platform event = some after) :
    DeletesTapped before event after ↔ Aimed before event := by
  obtain ⟨inRange, performed⟩ := step_inv stepped
  cases event with
  | yes =>
    obtain ⟨tap, tapped, rfl⟩ := Option.map_eq_some_iff.mp performed
    simp only [DeletesTapped, Aimed, tapped, Option.mem_some_iff, forall_eq', yesAction]
    cases found : before.data[tap.row]? with
    | none =>
      have outside := List.getElem?_eq_none_iff.mp found
      simp only [Bool.true_eq_false, false_iff]
      omega
    | some post =>
      obtain ⟨inside, _⟩ := List.getElem?_eq_some_iff.mp found
      simp only [inRange, inside]
  | answered index answer =>
    obtain ⟨_, result⟩ := Option.ite_none_right_eq_some.mp performed
    have client : before.client.onSnapshot answer Client.deleteConfirmed = after.client :=
      congrArg TableScreen.client (Option.some.inj result)
    cases answer with
    | failed =>
      have same : before.client = after.client := client
      simp only [DeletesTapped, Aimed, same, true_or, implies_true]
    | snapshot documents =>
      have ended : Client.deleteConfirmed documents before.client = after.client := client
      simp only [DeletesTapped, Aimed, ← ended]
      constructor
      · intro deletes tapped isTapped postid finds
        rw [Client.deleteConfirmed_found finds] at deletes
        obtain unchanged | crashed | announced := deletes tapped isTapped
        · exact absurd unchanged (announce_ne rfl)
        · exact absurd crashed (announce_ne rfl)
        · exact announce_injective announced
      · intro aimed tapped isTapped
        by_cases found : ∃ postid, before.client.Finds documents postid
        · obtain ⟨postid, finds⟩ := found
          have same := aimed tapped isTapped postid finds
          exact Or.inr (Or.inr (same ▸ Client.deleteConfirmed_found finds))
        · obtain unchanged | crashed := Client.deleteConfirmed_missing (not_exists.mp found)
          · exact Or.inl unchanged
          · exact Or.inr (Or.inl crashed)
  | _ => exact Iff.rfl

/-- Every deletion that waits is of the post now selected. -/
def Held (screen : TableScreen) : Prop :=
  ∀ tapped ∈ screen.deletions, screen.client.selected.map Post.postId = some tapped.postId

/-- Undisturbed steps keep the selected post the one every waiting deletion means. -/
theorem held_step {platform : Platform} {before after : TableScreen} {event : TableEvent}
    (held : before.Held) (undisturbed : before.Undisturbed event)
    (stepped : before.step platform event = some after) : after.Held := by
  obtain ⟨_, performed⟩ := step_inv stepped
  cases event with
  | reloadData posts viewer =>
    cases Option.some.inj performed
    exact held
  | deleteButtom row =>
    simp only [perform] at performed
    split at performed
    · cases Option.some.inj performed
      exact held
    · simp at performed
  | yes =>
    obtain ⟨tap, tapped, rfl⟩ := Option.map_eq_some_iff.mp performed
    obtain ⟨⟨post, found, same⟩, others⟩ := undisturbed tap tapped
    intro other waiting
    simp only [yesAction, Option.mem_def.mp found, List.mem_append, List.mem_singleton] at waiting ⊢
    obtain earlier | rfl := waiting
    · simp only [Option.map_some, same, others other earlier]
    · simp only [Option.map_some, same]
  | cancel =>
    obtain ⟨_, _, rfl⟩ := Option.map_eq_some_iff.mp performed
    exact held
  | didSelectRowAt row logedIn =>
    obtain ⟨post, found, chosen⟩ := Option.bind_eq_some_iff.mp performed
    cases logedIn with
    | false =>
      cases Option.some.inj chosen
      exact held
    | true =>
      obtain ⟨client, acted, rfl⟩ := Option.map_eq_some_iff.mp chosen
      have selected : client.selected = some post := by
        have running := (Option.ite_none_right_eq_some.mp acted).2
        cases (Option.ite_none_right_eq_some.mp running).2
        exact (Client.reloadPost_reloads _).selected
      intro tapped waiting
      simp only [selected, Option.map_some, undisturbed rfl post found tapped waiting]
  | answered index answer =>
    cases (Option.ite_none_right_eq_some.mp performed).2
    intro tapped waiting
    have selected := held tapped (List.mem_of_mem_eraseIdx waiting)
    have apart := (Client.answered_answers platform before.client .confirmedDelete answer).apart
    exact (congrArg (Option.map Post.postId) apart.selected).trans selected
  | elsewhere cloud action =>
    obtain ⟨other, acted⟩ := Option.ite_none_left_eq_some.mp performed
    obtain ⟨client, clientActed, rfl⟩ := Option.map_eq_some_iff.mp acted
    have selected := Client.act_selected clientActed (eq_false_of_ne_true other)
    intro tapped waiting
    rw [selected]
    exact held tapped waiting

/-- Undisturbed steps are aimed. -/
theorem aimed_of_undisturbed {screen : TableScreen} {event : TableEvent} (held : screen.Held)
    (undisturbed : screen.Undisturbed event) : screen.Aimed event := by
  cases event with
  | yes =>
    intro tap tapped
    obtain ⟨⟨post, found, _⟩, _⟩ := undisturbed tap tapped
    obtain ⟨inside, _⟩ := List.getElem?_eq_some_iff.mp (Option.mem_def.mp found)
    exact inside
  | answered index answer =>
    cases answer with
    | failed => trivial
    | snapshot documents =>
      intro tapped isTapped postid finds
      have selected := held tapped (List.mem_of_getElem? isTapped)
      exact Option.some.inj (finds.1.symm.trans selected)
  | _ => trivial

/-- In every run of a screen opened over any client, all deletions do what they must
exactly when all steps are aimed. They do when the user's steps are undisturbed: the
row still shows the tapped post when the alert is confirmed, and no other post is
chosen while a deletion waits. -/
theorem tapped_post_deleted (platform : Platform) (client : Client) {events : List TableEvent}
    {last : TableScreen}
    (run : GuardedRuns.Runs (step platform) GuardedRuns.unguarded (opened client) events last) :
    ((∀ before event after,
        (before, event, after) ∈ GuardedRuns.transitions (step platform) (opened client) events →
        DeletesTapped before event after) ↔
      ∀ before event after,
        (before, event, after) ∈ GuardedRuns.transitions (step platform) (opened client) events →
        Aimed before event) ∧
    ((∀ before event after,
        (before, event, after) ∈ GuardedRuns.transitions (step platform) (opened client) events →
        Undisturbed before event) →
      ∀ before event after,
        (before, event, after) ∈ GuardedRuns.transitions (step platform) (opened client) events →
        DeletesTapped before event after) := by
  constructor
  · constructor
    · intro deletes before event after member
      exact (deletesTapped_iff (GuardedRuns.step_of_transition member)).mp (deletes _ _ _ member)
    · intro aimed before event after member
      exact (deletesTapped_iff (GuardedRuns.step_of_transition member)).mpr (aimed _ _ _ member)
  · intro undisturbed before event after member
    have guarded : GuardedRuns.Runs (step platform) Undisturbed (opened client) events last :=
      run.guarded undisturbed
    have initial : (opened client).Held := by
      intro tapped waiting
      exact absurd waiting List.not_mem_nil
    have aimed : Aimed before event :=
      guarded.every_step (fun _ _ _ held admitted stepped => held_step held admitted stepped)
        (fun _ _ _ held admitted _ => aimed_of_undisturbed held admitted) initial
        before event after member
    exact (deletesTapped_iff (GuardedRuns.step_of_transition member)).mpr aimed

/-- Two posts of one author, as the table lists them. -/
def listed : List Post :=
  ["A", "B"].map fun id => { id := id, title := "Haifa", userId := "ann", postId := id }

/-- The author's client. -/
def author : Client := { currentUser := some "ann" }

/-- The documents of the posts. -/
def stored : List Document :=
  listed.foldl (fun cloud post => post.write.commit ⟨1, 0⟩ cloud) (fun _ => []) .posts

/-- The author's delete button is tapped on the first row and the alert confirmed. -/
def tapFirst : List TableEvent := [.reloadData listed (some "ann"), .deleteButtom 0, .yes]

/-- Between them and the answer only a reload. -/
theorem tapped_post_deleted_reload : ∃ last,
    GuardedRuns.Runs (step Platform.plain) GuardedRuns.unguarded (opened author)
      (tapFirst ++ [.reloadData [] none, .answered 0 (.snapshot stored)]) last ∧
    last.client.outbox = [.setData .deleter "Post" [("idPost", .value (.string "A"))]] ∧
    ∀ before event after,
      (before, event, after) ∈ GuardedRuns.transitions (step Platform.plain) (opened author)
        (tapFirst ++ [.reloadData [] none, .answered 0 (.snapshot stored)]) →
      DeletesTapped before event after := by
  have ran : ((GuardedRuns.exec (step Platform.plain) (opened author)
      (tapFirst ++ [.reloadData [] none, .answered 0 (.snapshot stored)])).any fun last =>
        decide (last.client.outbox =
          [.setData .deleter "Post" [("idPost", .value (.string "A"))]])) = true := by
    decide +kernel
  obtain ⟨last, run, announced⟩ := GuardedRuns.exists_run ran
  refine ⟨last, run, announced, (tapped_post_deleted _ author run).2 ?_⟩
  have undisturbed : ∀ transition ∈ GuardedRuns.transitions (step Platform.plain) (opened author)
      (tapFirst ++ [.reloadData [] none, .answered 0 (.snapshot stored)]),
      Undisturbed transition.1 transition.2.1 := by
    decide +kernel
  intro before event after member
  exact undisturbed _ member

/-- A row tapped before the answer is deleted instead. -/
theorem tapped_post_not_always_deleted : ¬ ∀ (client : Client) (events : List TableEvent)
    (last : TableScreen),
    GuardedRuns.Runs (step Platform.plain) GuardedRuns.unguarded (opened client) events last →
    ∀ before event after,
      (before, event, after) ∈
        GuardedRuns.transitions (step Platform.plain) (opened client) events →
      DeletesTapped before event after := by
  intro always
  have ran : ((GuardedRuns.exec (step Platform.plain) (opened author)
      (tapFirst ++ [.didSelectRowAt 1 true])).any fun before =>
        (before.step Platform.plain (.answered 0 (.snapshot stored))).any fun after =>
          decide (¬ DeletesTapped before (.answered 0 (.snapshot stored)) after)) = true := by
    decide +kernel
  obtain ⟨before, after, run, transition, fails⟩ := GuardedRuns.exists_transition ran
  exact fails (always _ _ _ run before _ after transition)

end TableScreen

end Amigo
