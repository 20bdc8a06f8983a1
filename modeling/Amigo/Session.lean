import Amigo.DataFlow
import Amigo.UserUnwraps

/-!
# The session

The app keeps three records of who is signed in: the user of the authentication
service, the flag `Model.logedIn`, and the key `user_uid_key` of the user
defaults. The first and the last outlive the app. A sign-in or a registration is
answered by the service, which changes its user at once; the completion that sets
the other two records runs later, and for a registration only after an avatar has
been uploaded. Completions of uploads come at any time, or never.

The session is one client with these records beside it. Its steps use the
client's functions wherever the client has them, and every other action of the
client may fall in between, with any cloud. An unwrap of the missing user stops
the app.
-/

namespace Amigo

/-- What the session waits for: an answer of the service, the completion of a
request it has granted, or one of the two uploads of a photo. -/
inductive Request where
  | signIn
  | createUser
  | signedIn
  | created
  | avatar
  | photo
deriving DecidableEq

/-- The service has changed its user, and the completion that records it is to come. -/
def Request.underway : Request → Bool
  | .signedIn | .created | .avatar => true
  | _ => false

/-- The app on one device with its session: the flag, the stored identifier and the requests
that are underway. -/
structure Session where
  /-- Its `currentUser` is `Auth.auth().currentUser`. -/
  client : Client := {}
  /-- `Model.logedIn`. -/
  logedIn : Bool := false
  /-- The value under `user_uid_key`. -/
  uidKey : Option String := none
  /-- The home screen has appeared once. -/
  homeAppeared : Bool := false
  /-- What the session waits for. -/
  requests : List Request := []
deriving DecidableEq

/-- The steps of a session. Indices name a request, or a running upload of a post. -/
inductive SessionEvent where
  | connect
  | register
  | grant (index : Nat) (uid : String)
  | refuse (index : Nat)
  | complete (index : Nat)
  | imageSaved (index : Nat) (url fullname email : String)
  | imageFailed (index : Nat)
  | logoutButtom (throws : Bool)
  | homeAppears
  | profile
  | cellForRowAt
  | didSelectRowAt (post : Post)
  | choosePhoto
  | uploaded (index : Nat) (url placeText recText : String)
  | relaunch
  | elsewhere (cloud : Cloud) (action : Action)

namespace Session

/-- `Auth.auth().currentUser!.uid`, and what follows it. -/
def unwrapUser (session : Session) (run : String → Session) : Session :=
  match session.client.currentUser with
  | none => { session with client := session.client.crash .currentUser }
  | some uid => run uid

/-- The completion of `Connect`. -/
def signInCompleted (session : Session) : Session :=
  let flagged := { session with logedIn := true }
  flagged.unwrapUser fun uid => { flagged with uidKey := some uid }

/-- `FirebaseStorage.saveImage` up to its upload. -/
def saveImage (upload : Request) (session : Session) : Session :=
  session.unwrapUser fun _ => { session with requests := session.requests ++ [upload] }

/-- The closure of the avatar's upload: `Model.register` sets the flag, the new user
is stored, and the flag and the key are set. -/
def avatarSaved (url fullname email : String) (session : Session) : Session :=
  if url = "" then session
  else
    let flagged := { session with logedIn := true }
    flagged.unwrapUser fun uid =>
      { flagged with
        client := session.client.enqueue (User.write ⟨uid, fullname, url, email⟩)
        uidKey := some uid }

/-- The yes action of `LogoutButtom`. A sign-out that throws leaves the user. -/
def logout (throws : Bool) (session : Session) : Session :=
  { session with
    client := if throws then session.client else { session.client with currentUser := none }
    logedIn := false
    uidKey := none }

/-- `MyProfileViewController.profile`, for the session. -/
def profileShown (session : Session) : Session :=
  if session.logedIn then session.unwrapUser fun uid => { session with uidKey := some uid }
  else session

/-- `cellForRowAt`: the comparison with the post's author only hides a button. -/
def cellShown (session : Session) : Session :=
  if session.logedIn then session.unwrapUser fun _ => session else session

/-- The requests without the one at an index. -/
def withoutRequest (index : Nat) (session : Session) : Session :=
  { session with requests := session.requests.eraseIdx index }

/-- The actions of the client that are no step of the session's own. -/
def outside : Action → Bool
  | .signIn _ | .signOut | .addUser _ | .didSelectRowAt _ | .uploaded _ _ _ _ | .relaunch => false
  | _ => true

/-- One step of a running app. -/
def perform (platform : Platform) (session : Session) : SessionEvent → Option Session
  | .connect => some { session with requests := session.requests ++ [.signIn] }
  | .register => some { session with requests := session.requests ++ [.createUser] }
  | .grant index uid =>
    match session.requests[index]? with
    | some .signIn => some { session with
        client := { session.client with currentUser := some uid }
        requests := session.requests.set index .signedIn }
    | some .createUser => some { session with
        client := { session.client with currentUser := some uid }
        requests := session.requests.set index .created }
    | _ => none
  | .refuse index =>
    match session.requests[index]? with
    | some .signIn | some .createUser => some (session.withoutRequest index)
    | _ => none
  | .complete index =>
    match session.requests[index]? with
    | some .signedIn => some (session.withoutRequest index).signInCompleted
    | some .created => some ((session.withoutRequest index).saveImage .avatar)
    | _ => none
  | .imageSaved index url fullname email =>
    match session.requests[index]? with
    | some .avatar => some ((session.withoutRequest index).avatarSaved url fullname email)
    | some .photo => some (session.withoutRequest index)
    | _ => none
  | .imageFailed index =>
    match session.requests[index]? with
    | some .avatar | some .photo => some (session.withoutRequest index)
    | _ => none
  | .logoutButtom throws => some (session.logout throws)
  | .homeAppears => some { session with logedIn := session.uidKey.isSome, homeAppeared := true }
  | .profile => some session.profileShown
  | .cellForRowAt => some session.cellShown
  | .didSelectRowAt post =>
    if session.logedIn then
      (session.client.act platform (fun _ => []) (.didSelectRowAt post)).map
        (fun client => { session with client := client })
    else some session
  | .choosePhoto => some (session.saveImage .photo)
  | .uploaded index url placeText recText =>
    -- the closure calls `Model.savePost`, which sets the flag, before it unwraps the user
    (session.client.act platform (fun _ => []) (.uploaded index url placeText recText)).map
      (fun client => { session with
        client := client
        logedIn := session.logedIn ||
          session.client.needsUser (.uploaded index url placeText recText) })
  | .elsewhere cloud action =>
    if outside action then
      (session.client.act platform cloud action).map (fun client => { session with client := client })
    else none
  | .relaunch => none

/-- One step. The app can start again at any time. -/
def step (platform : Platform) (session : Session) (event : SessionEvent) : Option Session :=
  match event with
  | .relaunch => some { client := session.client.relaunch, uidKey := session.uidKey }
  | other => if session.client.trap = none then session.perform platform other else none

/-- A freshly installed app. -/
def init : Session := {}

/-- The step reaches an unwrap of the user that the flag does not guard: in a
completion of the service or of an upload, in the choice of a profile photo, and
when a post's page appears again. -/
def unguarded (session : Session) : SessionEvent → Bool
  | .complete _ | .choosePhoto => true
  | .imageSaved index url _ _ => session.requests[index]? == some .avatar && url != ""
  | .uploaded index url placeText recText =>
    session.client.needsUser (.uploaded index url placeText recText)
  | .elsewhere _ action => session.client.needsUser action
  | _ => false

/-- The event can start the upload of a post: a new one, or an edited one that was read. -/
def startsUpload (session : Session) : SessionEvent → Bool
  | .elsewhere _ (.postBtn _ _) => true
  | .elsewhere _ (.deliver index) =>
    (session.client.pending[index]?).any fun pending =>
      match pending.callback with
      | .editRead _ => true
      | _ => false
  | _ => false

/-- The client took one action of its own, or none. -/
def Acted (platform : Platform) (before after : Client) : Prop :=
  after = before ∨ ∃ cloud action, before.act platform cloud action = some after

/-- The client moved on with its user, and without stopping for want of one. -/
structure Moved (platform : Platform) (session : Session) (event : SessionEvent) (client : Client) :
    Prop where
  acted : Acted platform session.client client
  user : client.currentUser = session.client.currentUser
  trap : client.trap = some .currentUser → session.client.trap = some .currentUser
  uploads : client.uploads ≠ [] → session.client.uploads ≠ [] ∨ session.startsUpload event = true

/-- What one step of a session can do. -/
inductive Effect (platform : Platform) (session : Session) : SessionEvent → Session → Prop
  | asks {event : SessionEvent} (request : Request) (early : request.underway = false) :
      Effect platform session event { session with requests := session.requests ++ [request] }
  | grants (index : Nat) (uid : String) (request granted : Request)
      (waiting : session.requests[index]? = some request) (changed : granted.underway = true) :
      Effect platform session (.grant index uid)
        { session with
          client := { session.client with currentUser := some uid }
          requests := session.requests.set index granted }
  | drops {event : SessionEvent} (index : Nat) (request : Request)
      (waiting : session.requests[index]? = some request)
      (ended : request.underway = false ∨ request = .avatar ∧
        (event = .imageFailed index ∨ ∃ fullname email, event = .imageSaved index "" fullname email)) :
      Effect platform session event (session.withoutRequest index)
  | uploads (index : Nat) (waiting : session.requests[index]? = some .created)
      (present : session.client.currentUser ≠ none) :
      Effect platform session (.complete index)
        { session with requests := session.requests.eraseIdx index ++ [.avatar] }
  | records {event : SessionEvent} (index : Nat) (request : Request) (uid : String) (client : Client)
      (waiting : session.requests[index]? = some request)
      (signedIn : session.client.currentUser = some uid) (moved : Moved platform session event client) :
      Effect platform session event
        { session.withoutRequest index with client := client, logedIn := true, uidKey := some uid }
  | logsOut (throws : Bool) : Effect platform session (.logoutButtom throws) (session.logout throws)
  | appears :
      Effect platform session .homeAppears
        { session with logedIn := session.uidKey.isSome, homeAppeared := true }
  | profiles (uid : String) (flagged : session.logedIn = true)
      (signedIn : session.client.currentUser = some uid) :
      Effect platform session .profile { session with uidKey := some uid }
  | moves {event : SessionEvent} (client : Client) (moved : Moved platform session event client) :
      Effect platform session event { session with client := client }
  | saves {event : SessionEvent} (client : Client) (moved : Moved platform session event client)
      (present : session.client.currentUser ≠ none) :
      Effect platform session event { session with client := client, logedIn := true }
  | stops {event : SessionEvent} (next : Session) (absent : session.client.currentUser = none)
      (reached : session.unguarded event = true ∨ session.logedIn = true)
      (stopped : next.client.trap = some .currentUser) : Effect platform session event next
  | starts :
      Effect platform session .relaunch { client := session.client.relaunch, uidKey := session.uidKey }

/-- A session that stays has moved by nothing. -/
theorem Moved.rfl (platform : Platform) (session : Session) (event : SessionEvent) :
    Moved platform session event session.client :=
  ⟨Or.inl (Eq.refl _), Eq.refl _, id, Or.inl⟩

/-- An unwrap of the user stops the app, or goes on with the user there is. -/
theorem unwrapUser_effect {platform : Platform} {session unwrapping : Session} {event : SessionEvent}
    {run : String → Session} (same : unwrapping.client.currentUser = session.client.currentUser)
    (reached : session.unguarded event = true ∨ session.logedIn = true)
    (found : ∀ uid, session.client.currentUser = some uid → Effect platform session event (run uid)) :
    Effect platform session event (unwrapping.unwrapUser run) := by
  cases signedIn : session.client.currentUser with
  | none =>
    refine .stops _ signedIn reached ?_
    simp only [unwrapUser, same, signedIn, Client.crash]
  | some uid =>
    have goesOn : unwrapping.unwrapUser run = run uid := by
      simp only [unwrapUser, same, signedIn]
    rw [goesOn]
    exact found uid signedIn

/-- An action of the client starts an upload only where the session's event says so. -/
theorem act_uploads {platform : Platform} {cloud : Cloud} {session : Session} {next : Client}
    {action : Action} (acted : session.client.act platform cloud action = some next)
    (some : next.uploads ≠ []) :
    session.client.uploads ≠ [] ∨ session.startsUpload (.elsewhere cloud action) = true := by
  obtain ⟨upload, member⟩ := List.exists_mem_of_ne_nil _ some
  cases Client.act_uploads acted member with
  | kept before => exact Or.inl (List.ne_nil_of_mem before)
  | pressed screen idPost press => exact Or.inr (by simp only [startsUpload, press])
  | edited index screen view documents document step ready =>
    exact Or.inr (by simp only [startsUpload, step, ready, Option.any_some])

/-- An action of the client that sets no user or chosen post, and has the user it
needs, moves the client on. -/
theorem Moved.of_act {platform : Platform} {cloud : Cloud} {session : Session} {next : Client}
    {action : Action} {event : SessionEvent}
    (acted : session.client.act platform cloud action = some next)
    (other : Client.setsFields action = false)
    (present : session.client.needsUser action = true → session.client.currentUser ≠ none)
    (starts : session.startsUpload (.elsewhere cloud action) = session.startsUpload event) :
    Moved platform session event next := by
  have apart := Client.apart_act acted other present
  exact ⟨Or.inr ⟨cloud, action, acted⟩, apart.currentUser, apart.trap,
    fun started => starts ▸ act_uploads acted started⟩

/-- An action outside the session moves the client on, or stops it where it unwraps
a missing user. -/
theorem outside_act {platform : Platform} {cloud : Cloud} {session : Session} {next : Client}
    {action : Action} (acted : session.client.act platform cloud action = some next)
    (isOutside : outside action = true)
    (present : session.client.needsUser action = true → session.client.currentUser ≠ none) :
    Moved platform session (.elsewhere cloud action) next := by
  cases action with
  | signIn | signOut | addUser | didSelectRowAt | uploaded | relaunch => simp [outside] at isOutside
  | confirmDelete post =>
    have performed := (Option.ite_none_right_eq_some.mp acted).2
    cases (Option.ite_none_right_eq_some.mp performed).2
    exact ⟨Or.inr ⟨cloud, .confirmDelete post, acted⟩, rfl, id, Or.inl⟩
  | _ => exact Moved.of_act acted rfl present rfl

/-- A tapped row opens a post's page. -/
theorem rowTap_act {platform : Platform} {cloud : Cloud} {session : Session} {next : Client}
    {post : Post} (acted : session.client.act platform cloud (.didSelectRowAt post) = some next) :
    (session.client.currentUser ≠ none → Moved platform session (.didSelectRowAt post) next) ∧
      (session.client.currentUser = none → next.trap = some .currentUser) := by
  have uploads (started : next.uploads ≠ []) : session.client.uploads ≠ [] := by
    obtain before | starts := act_uploads acted started
    · exact before
    · simp [startsUpload] at starts
  have performed := (Option.ite_none_right_eq_some.mp acted).2
  cases (Option.ite_none_right_eq_some.mp performed).2
  constructor
  · intro present
    have apart : Client.Apart { session.client with selected := some post, info := some ⟨post, false⟩ }
        { session.client with selected := some post, info := some ⟨post, false⟩ }.reloadPost :=
      (Client.reloadPost_reloads _).apart (fun _ => present)
    exact ⟨Or.inr ⟨cloud, _, acted⟩, apart.currentUser, apart.trap,
      fun started => Or.inl (uploads started)⟩
  · intro absent
    exact Client.reloadPost_stops rfl absent

/-- The closure of an avatar's upload records the user, unless it got no url. -/
theorem avatarSaved_effect {platform : Platform} {session : Session} {index : Nat}
    {url fullname email : String} (running : session.client.trap = none)
    (waiting : session.requests[index]? = some .avatar) :
    Effect platform session (.imageSaved index url fullname email)
      ((session.withoutRequest index).avatarSaved url fullname email) := by
  by_cases empty : url = ""
  · subst empty
    exact .drops index _ waiting (Or.inr ⟨rfl, Or.inr ⟨fullname, email, rfl⟩⟩)
  · simp only [avatarSaved, empty, ↓reduceIte]
    refine unwrapUser_effect rfl (Or.inl (by simp [unguarded, waiting, empty])) ?_
    intro uid signedIn
    have acted : session.client.act platform (fun _ => []) (.addUser ⟨uid, fullname, url, email⟩) =
        some (session.client.enqueue (User.write ⟨uid, fullname, url, email⟩)) := by
      simp only [Client.act, running, ↓reduceIte, Client.perform]
    exact .records index _ uid _ waiting signedIn ⟨Or.inr ⟨_, _, acted⟩, rfl, id, Or.inl⟩

/-- The closure of a post's upload that gets as far as `savePost` sets the flag and
needs a user; any other leaves the session's records alone. -/
theorem uploaded_effect {platform : Platform} {session : Session} {client : Client} {index : Nat}
    {url placeText recText : String}
    (acted : session.client.act platform (fun _ => []) (.uploaded index url placeText recText) =
      some client) :
    Effect platform session (.uploaded index url placeText recText)
      { session with
        client := client
        logedIn := session.logedIn ||
          session.client.needsUser (.uploaded index url placeText recText) } := by
  cases saves : session.client.needsUser (.uploaded index url placeText recText) with
  | false =>
    rw [Bool.or_false]
    exact .moves client (Moved.of_act acted rfl (by simp [saves]) rfl)
  | true =>
    by_cases absent : session.client.currentUser = none
    · exact .stops _ absent (Or.inl saves) (Client.act_stops acted saves absent).1
    · rw [Bool.or_true]
      exact .saves client (Moved.of_act acted rfl (fun _ => absent) rfl) absent

/-- The inversion of a step of a running app. -/
theorem perform_effect {platform : Platform} {session next : Session} {event : SessionEvent}
    (running : session.client.trap = none) (performed : session.perform platform event = some next) :
    Effect platform session event next := by
  cases event with
  | connect | register =>
    cases Option.some.inj performed
    exact .asks _ rfl
  | grant index uid =>
    simp only [perform] at performed
    split at performed
    · rename_i waiting
      cases Option.some.inj performed
      exact .grants index uid _ _ waiting rfl
    · rename_i waiting
      cases Option.some.inj performed
      exact .grants index uid _ _ waiting rfl
    · simp at performed
  | refuse index =>
    simp only [perform] at performed
    split at performed
    · rename_i waiting
      cases Option.some.inj performed
      exact .drops index _ waiting (Or.inl rfl)
    · rename_i waiting
      cases Option.some.inj performed
      exact .drops index _ waiting (Or.inl rfl)
    · simp at performed
  | complete index =>
    simp only [perform] at performed
    split at performed
    · rename_i waiting
      cases Option.some.inj performed
      refine unwrapUser_effect rfl (Or.inl rfl) ?_
      intro uid signedIn
      exact .records index _ uid session.client waiting signedIn (Moved.rfl platform session _)
    · rename_i waiting
      cases Option.some.inj performed
      refine unwrapUser_effect rfl (Or.inl rfl) ?_
      intro uid signedIn
      exact .uploads index waiting (Option.ne_none_iff_exists'.mpr ⟨uid, signedIn⟩)
    · simp at performed
  | imageSaved index url fullname email =>
    simp only [perform] at performed
    split at performed
    · rename_i waiting
      cases Option.some.inj performed
      exact avatarSaved_effect running waiting
    · rename_i waiting
      cases Option.some.inj performed
      exact .drops index _ waiting (Or.inl rfl)
    · simp at performed
  | imageFailed index =>
    simp only [perform] at performed
    split at performed
    · rename_i waiting
      cases Option.some.inj performed
      exact .drops index _ waiting (Or.inr ⟨rfl, Or.inl rfl⟩)
    · rename_i waiting
      cases Option.some.inj performed
      exact .drops index _ waiting (Or.inl rfl)
    · simp at performed
  | logoutButtom throws =>
    cases Option.some.inj performed
    exact .logsOut throws
  | homeAppears =>
    cases Option.some.inj performed
    exact .appears
  | profile =>
    cases Option.some.inj performed
    unfold profileShown
    split
    · rename_i flagged
      exact unwrapUser_effect rfl (Or.inr flagged) (fun uid signedIn => .profiles uid flagged signedIn)
    · exact .moves session.client (Moved.rfl platform session _)
  | cellForRowAt =>
    cases Option.some.inj performed
    unfold cellShown
    split
    · rename_i flagged
      exact unwrapUser_effect rfl (Or.inr flagged)
        (fun _ _ => .moves session.client (Moved.rfl platform session _))
    · exact .moves session.client (Moved.rfl platform session _)
  | didSelectRowAt post =>
    simp only [perform] at performed
    split at performed
    · rename_i flagged
      obtain ⟨client, acted, rfl⟩ := Option.map_eq_some_iff.mp performed
      obtain ⟨moved, stopped⟩ := rowTap_act acted
      by_cases absent : session.client.currentUser = none
      · exact .stops _ absent (Or.inr flagged) (stopped absent)
      · exact .moves client (moved absent)
    · cases Option.some.inj performed
      exact .moves session.client (Moved.rfl platform session _)
  | choosePhoto =>
    cases Option.some.inj performed
    exact unwrapUser_effect rfl (Or.inl rfl) (fun _ _ => .asks .photo rfl)
  | uploaded index url placeText recText =>
    obtain ⟨client, acted, rfl⟩ := Option.map_eq_some_iff.mp performed
    exact uploaded_effect acted
  | elsewhere cloud action =>
    obtain ⟨isOutside, changed⟩ := Option.ite_none_right_eq_some.mp performed
    obtain ⟨client, acted, rfl⟩ := Option.map_eq_some_iff.mp changed
    by_cases lacks : session.client.needsUser action = true ∧ session.client.currentUser = none
    · exact .stops _ lacks.2 (Or.inl lacks.1) (Client.act_stops acted lacks.1 lacks.2).1
    · exact .moves client (outside_act acted isOutside (not_and.mp lacks))
  | relaunch => simp [perform] at performed

/-- The inversion of a step. -/
theorem step_effect {platform : Platform} {session next : Session} {event : SessionEvent}
    (stepped : session.step platform event = some next) : Effect platform session event next := by
  cases event with
  | relaunch =>
    cases Option.some.inj stepped
    exact .starts
  | _ =>
    obtain ⟨running, performed⟩ := Option.ite_none_right_eq_some.mp stepped
    exact perform_effect running performed

/-- A step other than a new start finds a running app. -/
theorem step_running {platform : Platform} {session next : Session} {event : SessionEvent}
    (stepped : session.step platform event = some next) (goesOn : event ≠ .relaunch) :
    session.client.trap = none := by
  cases event with
  | relaunch => exact absurd rfl goesOn
  | _ => exact (Option.ite_none_right_eq_some.mp stepped).1

/-- A session drives its client by the client's own actions, until it stops it for
want of its user. -/
theorem step_client {platform : Platform} {session next : Session} {event : SessionEvent}
    (stepped : session.step platform event = some next)
    (found : next.client.trap ≠ some .currentUser) : Acted platform session.client next.client := by
  cases step_effect stepped with
  | asks | drops | uploads | appears | profiles => exact Or.inl rfl
  | grants index uid =>
    have running := step_running stepped (by simp)
    refine Or.inr ⟨fun _ => [], .signIn uid, ?_⟩
    simp only [Client.act, running, ↓reduceIte, Client.perform]
  | records index request uid client waiting signedIn moved => exact moved.acted
  | logsOut throws =>
    have running := step_running stepped (by simp)
    cases throws with
    | true => exact Or.inl rfl
    | false =>
      refine Or.inr ⟨fun _ => [], .signOut, ?_⟩
      simp only [Client.act, running, ↓reduceIte, Client.perform, logout, Bool.false_eq_true]
  | moves client moved => exact moved.acted
  | saves client moved => exact moved.acted
  | stops _ _ _ stopped => exact absurd stopped found
  | starts => exact Or.inr ⟨fun _ => [], .relaunch, rfl⟩

end Session

end Amigo
