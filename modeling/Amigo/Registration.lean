import Amigo.Session

/-!
# One registration, with all it writes

The register flow writes one store after the other in nested completions: the account,
the avatar, the user's document, the row of the local table USER, the flag and the key.
Nothing it has written is taken back when a later part fails. The image completion is
not called without a download url, and then nothing hides the activity indicator; an
empty url is only printed. The row goes into a table that the database does not create
when it is opened: it makes the tables of the posts and of the dates.

What the services answer is given beforehand: whether the account is created, whether
the avatar is stored, which url comes back, and when the server commits the document, if
it does. The document is written at once here, and does not wait in the client's queue
behind older writes. The password only decides the answer and is left out.
-/

namespace Amigo

/-- The bytes of an image. -/
abbrev Jpeg := List UInt8

/-- A picked image. None is an image without a JPEG form. -/
structure Image where
  jpegData : Option Jpeg
deriving DecidableEq

/-- The fields of `RegisterViewController`. -/
structure RegisterForm where
  emailUser : String
  fullName : String
  imageViewAvatar : Option Image
deriving DecidableEq

/-- What the services answer: the new account's id, whether the image is stored, its url,
and the time the document is committed. None is a failure. -/
structure Outcomes where
  createUser : Option String
  putData : Bool
  downloadURL : Option String
  setData : Option Timestamp
deriving DecidableEq

/-- A row of the local table USER. -/
structure UserRow where
  usId : Option String
  fullname : Option String
  avatar : Option String
  email : Option String
deriving DecidableEq

/-- The row `addUserToDb` binds. -/
def User.row (user : User) : UserRow where
  usId := some (cString user.id)
  fullname := some (cString user.fullname)
  avatar := some (cString user.ImagAvatr)
  email := some (cString user.email)

/-- Rows of one identifier clash; NULL clashes with nothing. -/
def sameUser (stored new : UserRow) : Prop := stored.usId = new.usId ∧ new.usId ≠ none

instance : DecidableRel sameUser := fun stored new =>
  inferInstanceAs (Decidable (stored.usId = new.usId ∧ new.usId ≠ none))

/-- `addUserToDb`: without a table the statement is not prepared. -/
def User.addUserToDb (user : User) (table : Option (List UserRow)) : Option (List UserRow) :=
  table.map (KeyedRows.upsert sameUser user.row)

/-- The app on one device with the services it registers at. -/
structure App where
  session : Session := {}
  /-- The ids of the accounts of the authentication service. -/
  accounts : List String := []
  /-- The stored avatars, by name. -/
  images : List (String × Jpeg) := []
  cloud : Cloud := fun _ => []
  /-- The table USER, if there is one. -/
  userTable : Option (List UserRow) := none
  /-- `activity.isHidden`. -/
  activityHidden : Bool := true
  /-- A forced unwrap failed. -/
  stopped : Bool := false

namespace App

/-- `Auth.auth().currentUser!.uid`, and what follows it. -/
def unwrapUser (app : App) (run : String → App) : App :=
  match app.session.client.currentUser with
  | none => { app with stopped := true }
  | some uid => run uid

/-- `ModelFirebase.add`. -/
def add (user : User) (setData : Option Timestamp) (app : App) : App :=
  match setData with
  | none => app
  | some time => { app with cloud := user.write.commit time app.cloud }

/-- `FirebaseStorage.saveImage`. The url is asked for whether or not the image was stored;
without one the callback is not called. -/
def saveImage (image : Image) (outcomes : Outcomes) (callback : String → App → App) (app : App) : App :=
  app.unwrapUser fun uid =>
    match image.jpegData with
    | none => { app with stopped := true }
    | some data =>
      let uploaded :=
        if outcomes.putData then
          { app with images := (uid, data) :: app.images.filter (fun stored => stored.1 != uid) }
        else app
      match outcomes.downloadURL with
      | none => uploaded
      | some url => callback url uploaded

/-- The closure `register` hands to `saveImage`. -/
def avatarSaved (form : RegisterForm) (outcomes : Outcomes) (url : String) (app : App) : App :=
  if url = "" then app
  else
    -- `Model.register` sets the flag and calls back at once
    let flagged := { app with session := { app.session with logedIn := true } }
    flagged.unwrapUser fun uid =>
      let us : User := ⟨uid, form.fullName, url, form.emailUser⟩
      let added := flagged.add us outcomes.setData
      { added with
        userTable := us.addUserToDb added.userTable
        session := { added.session with logedIn := true, uidKey := some uid }
        activityHidden := true }

/-- `register`, with all its completions. -/
def register (form : RegisterForm) (outcomes : Outcomes) (app : App) : App :=
  let shown := { app with activityHidden := false }
  match outcomes.createUser with
  | none => { shown with activityHidden := true }
  | some uid =>
    let created := { shown with
      accounts := uid :: shown.accounts
      session := { shown.session with client := { shown.session.client with currentUser := some uid } } }
    match form.imageViewAvatar with
    | none => { created with stopped := true }
    | some image => created.saveImage image outcomes (avatarSaved form outcomes)

/-- Everything a registration is to leave for a user is there. -/
structure Complete (uid : String) (app : App) : Prop where
  account : uid ∈ app.accounts
  document : ∃ document ∈ app.cloud .users, document.documentID = uid
  row : ∃ table, app.userTable = some table ∧ ∃ row ∈ table, row.usId = some (cString uid)
  flag : app.session.logedIn = true
  key : app.session.uidKey = some uid

/-- Nothing a registration changes was changed. -/
structure Unchanged (before after : App) : Prop where
  accounts : after.accounts = before.accounts
  currentUser : after.session.client.currentUser = before.session.client.currentUser
  images : after.images = before.images
  cloud : after.cloud = before.cloud
  userTable : after.userTable = before.userTable
  flag : after.session.logedIn = before.session.logedIn
  key : after.session.uidKey = before.session.uidKey

/-- A registration is all or nothing, and the activity indicator is hidden. -/
def Whole (outcomes : Outcomes) (before after : App) : Prop :=
  ((∃ uid, outcomes.createUser = some uid ∧ Complete uid after) ∨ Unchanged before after) ∧
    after.activityHidden = true

/-- The avatar's url comes back, and is one. -/
def HasUrl (form : RegisterForm) (outcomes : Outcomes) (url : String) : Prop :=
  (∃ image data, form.imageViewAvatar = some image ∧ image.jpegData = some data) ∧
    outcomes.downloadURL = some url ∧ url ≠ ""

/-- A refused registration only hides the activity. -/
theorem register_refused {form : RegisterForm} {outcomes : Outcomes} {app : App}
    (refused : outcomes.createUser = none) :
    app.register form outcomes = { app with activityHidden := true } := by
  simp only [register, refused]

/-- Without a url the flow ends with its indicator shown, and stores no row. -/
theorem register_stuck {form : RegisterForm} {outcomes : Outcomes} {app : App} {uid : String}
    (granted : outcomes.createUser = some uid) (noUrl : ∀ url, ¬ HasUrl form outcomes url) :
    (app.register form outcomes).activityHidden = false ∧
      (app.register form outcomes).userTable = app.userTable := by
  simp only [register, granted]
  cases picked : form.imageViewAvatar with
  | none => exact ⟨rfl, rfl⟩
  | some image =>
    simp only [saveImage, unwrapUser]
    cases encoded : image.jpegData with
    | none => exact ⟨rfl, rfl⟩
    | some data =>
      cases answered : outcomes.downloadURL with
      | none => cases outcomes.putData <;> exact ⟨rfl, rfl⟩
      | some url =>
        have empty : url = "" := by
          by_contra saved
          exact noUrl url ⟨⟨image, data, picked, encoded⟩, answered, saved⟩
        simp only [avatarSaved, empty, ↓reduceIte]
        cases outcomes.putData <;> exact ⟨rfl, rfl⟩

/-- What a flow with a url leaves. -/
structure Recorded (form : RegisterForm) (outcomes : Outcomes) (before : App) (uid url : String)
    (after : App) : Prop where
  accounts : after.accounts = uid :: before.accounts
  cloud : after.cloud = (before.add ⟨uid, form.fullName, url, form.emailUser⟩ outcomes.setData).cloud
  userTable : after.userTable =
    User.addUserToDb ⟨uid, form.fullName, url, form.emailUser⟩ before.userTable
  flag : after.session.logedIn = true
  key : after.session.uidKey = some uid
  hidden : after.activityHidden = true

/-- A granted one with an image url is recorded. -/
theorem register_recorded {form : RegisterForm} {outcomes : Outcomes} {app : App} {uid url : String}
    (granted : outcomes.createUser = some uid) (hasUrl : HasUrl form outcomes url) :
    Recorded form outcomes app uid url (app.register form outcomes) := by
  obtain ⟨⟨image, data, picked, encoded⟩, answered, saved⟩ := hasUrl
  simp only [register, granted, picked, saveImage, unwrapUser, encoded, answered, avatarSaved, saved,
    ↓reduceIte]
  cases outcomes.putData <;> cases written : outcomes.setData <;>
    exact ⟨rfl, by simp [add, written], rfl, rfl, rfl, rfl⟩

/-- The user's document is there afterwards when it is committed, or was there. -/
theorem add_document (user : User) (setData : Option Timestamp) (app : App) :
    (∃ document ∈ (app.add user setData).cloud .users, document.documentID = user.id) ↔
      setData ≠ none ∨ ∃ document ∈ app.cloud .users, document.documentID = user.id := by
  cases setData with
  | none => simp [add]
  | some time =>
    simp only [add, User.write, mem_commit_setData, ne_eq, reduceCtorEq, not_false_eq_true, true_or,
      iff_true]
    exact ⟨_, Or.inr rfl, rfl⟩

/-- The user's row is there afterwards when there is a table for it. -/
theorem addUserToDb_row (user : User) (table : Option (List UserRow)) :
    (∃ rows, user.addUserToDb table = some rows ∧ ∃ row ∈ rows, row.usId = some (cString user.id)) ↔
      table ≠ none := by
  cases table with
  | none => simp [User.addUserToDb]
  | some rows =>
    simp only [User.addUserToDb, Option.map_some, Option.some.injEq, exists_eq_left', ne_eq,
      reduceCtorEq, not_false_eq_true, iff_true]
    exact ⟨user.row, KeyedRows.mem_upsert.mpr (Or.inr rfl), rfl⟩

/-- For every form, all answers of the services and every state of the app, a registration
is all or nothing with its indicator hidden exactly when the account is refused, or the
avatar's url comes back, the document is committed (or there was one) and the database
has a table USER. -/
theorem registration_whole_iff (form : RegisterForm) (outcomes : Outcomes) (app : App) :
    Whole outcomes app (app.register form outcomes) ↔
      outcomes.createUser = none ∨
        ∃ uid url, outcomes.createUser = some uid ∧ HasUrl form outcomes url ∧
          (outcomes.setData ≠ none ∨ ∃ document ∈ app.cloud .users, document.documentID = uid) ∧
          app.userTable ≠ none := by
  cases granted : outcomes.createUser with
  | none =>
    simp only [true_or, iff_true]
    rw [register_refused granted]
    exact ⟨Or.inr ⟨rfl, rfl, rfl, rfl, rfl, rfl, rfl⟩, rfl⟩
  | some uid =>
    simp only [reduceCtorEq, false_or, Option.some.injEq]
    by_cases hasUrl : ∃ url, HasUrl form outcomes url
    · obtain ⟨url, hasUrl⟩ := hasUrl
      have recorded : Recorded form outcomes app uid url (app.register form outcomes) :=
        register_recorded granted hasUrl
      obtain ⟨accounts, cloud, userTable, flag, key, hidden⟩ := recorded
      constructor
      · rintro ⟨⟨other, isOther, complete⟩ | unchanged, _⟩
        · cases Option.some.inj (granted.symm.trans isOther)
          refine ⟨uid, url, rfl, hasUrl, ?_, ?_⟩
          · exact (add_document _ _ _).mp (cloud ▸ complete.document)
          · exact (addUserToDb_row _ _).mp (userTable ▸ complete.row)
        · have grown := accounts.symm.trans unchanged.accounts
          exact absurd grown (List.cons_ne_self _ _)
      · rintro ⟨_, _, rfl, _, document, table⟩
        refine ⟨Or.inl ⟨uid, granted, ?_⟩, hidden⟩
        refine ⟨by rw [accounts]; exact List.mem_cons_self, ?_, ?_, flag, key⟩
        · rw [cloud]
          exact (add_document _ _ _).mpr document
        · rw [userTable]
          exact (addUserToDb_row _ _).mpr table
    · constructor
      · rintro ⟨_, hidden⟩
        rw [(register_stuck granted (not_exists.mp hasUrl)).1] at hidden
        exact absurd hidden Bool.false_ne_true
      · rintro ⟨_, url, _, found, _⟩
        exact absurd ⟨url, found⟩ hasUrl

/-- A freshly installed app: opening the database makes no table USER. -/
def install : App := {}

/-- With every answer a success, a new device still has no row for its user. -/
theorem registration_not_always_whole : ¬ ∀ (form : RegisterForm) (outcomes : Outcomes) (app : App),
    Whole outcomes app (app.register form outcomes) := by
  intro always
  obtain ⟨⟨uid, _, complete⟩ | unchanged, _⟩ := always ⟨"ann", "Ann", some ⟨some [255]⟩⟩
    ⟨some "uid", true, some "url", some ⟨1, 0⟩⟩ install
  · obtain ⟨table, isTable, _⟩ := complete.row
    cases (isTable : (none : Option (List UserRow)) = some table)
  · exact absurd unchanged.accounts (by decide)

/-- No registration makes the table. -/
theorem register_userTable (form : RegisterForm) (outcomes : Outcomes) {app : App}
    (noTable : app.userTable = none) : (app.register form outcomes).userTable = none := by
  cases granted : outcomes.createUser with
  | none =>
    rw [register_refused granted]
    exact noTable
  | some uid =>
    by_cases hasUrl : ∃ url, HasUrl form outcomes url
    · obtain ⟨url, hasUrl⟩ := hasUrl
      have recorded : Recorded form outcomes app uid url (app.register form outcomes) :=
        register_recorded granted hasUrl
      rw [recorded.userTable, noTable]
      rfl
    · exact (register_stuck granted (not_exists.mp hasUrl)).2.trans noTable

/-- Registrations one after the other. -/
def attempts (tried : List (RegisterForm × Outcomes)) (app : App) : App :=
  tried.foldl (fun current attempt => current.register attempt.1 attempt.2) app

/-- No attempt makes the missing table. -/
theorem attempts_userTable (tried : List (RegisterForm × Outcomes)) {app : App}
    (noTable : app.userTable = none) : (app.attempts tried).userTable = none := by
  induction tried generalizing app with
  | nil => exact noTable
  | cons attempt rest inductionHypothesis =>
    exact inductionHypothesis (register_userTable attempt.1 attempt.2 noTable)

/-- However often a new device has registered users before, a registration on it is all
or nothing only when it is refused. -/
theorem fresh_registration_whole_iff (tried : List (RegisterForm × Outcomes)) (form : RegisterForm)
    (outcomes : Outcomes) :
    Whole outcomes (install.attempts tried) ((install.attempts tried).register form outcomes) ↔
      outcomes.createUser = none := by
  rw [registration_whole_iff]
  constructor
  · rintro (refused | ⟨_, _, _, _, _, table⟩)
    · exact refused
    · exact absurd (attempts_userTable tried rfl) table
  · exact Or.inl

/-- The events of a session a registration goes through, when its image has a JPEG form.
They wait at the end of the session's requests. -/
def sessionEvents (form : RegisterForm) (outcomes : Outcomes) (waiting : Nat) : List SessionEvent :=
  .register :: match outcomes.createUser with
  | none => [.refuse waiting]
  | some uid => [.grant waiting uid, .complete waiting] ++ match outcomes.downloadURL with
    | none => [.imageFailed waiting]
    | some url => [.imageSaved waiting url form.fullName form.emailUser]

/-- The register flow is a run of the session: it leaves the session's user, flag, key
and requests as the session's own steps do, which queue the user's document. -/
theorem register_session (platform : Platform) (form : RegisterForm) (outcomes : Outcomes) (app : App)
    (running : app.session.client.trap = none) {image : Image} {data : Jpeg}
    (picked : form.imageViewAvatar = some image) (encoded : image.jpegData = some data) :
    ∃ session, GuardedRuns.exec (Session.step platform) app.session
        (sessionEvents form outcomes app.session.requests.length) = some session ∧
      session = { (app.register form outcomes).session with
        client := { (app.register form outcomes).session.client with
          outbox := session.client.outbox } } := by
  have dropped (request : Request) :
      (app.session.requests ++ [request]).eraseIdx app.session.requests.length = app.session.requests := by
    rw [List.eraseIdx_append_of_length_le (Nat.le_refl _), Nat.sub_self]
    simp
  cases granted : outcomes.createUser with
  | none =>
    refine ⟨app.session, ?_, ?_⟩
    · simp [sessionEvents, granted, GuardedRuns.exec, Session.step, running, Session.perform, dropped,
        Session.withoutRequest]
    · rw [register_refused granted]
  | some uid =>
    let entered : Session :=
      { app.session with client := { app.session.client with currentUser := some uid } }
    have uploading : GuardedRuns.exec (Session.step platform) app.session
        [.register, .grant app.session.requests.length uid, .complete app.session.requests.length] =
          some { entered with requests := app.session.requests ++ [.avatar] } := by
      simp [GuardedRuns.exec, Session.step, running, Session.perform, dropped, Session.withoutRequest,
        Session.saveImage, Session.unwrapUser, entered]
    cases answered : outcomes.downloadURL with
    | none =>
      have registered : (app.register form outcomes).session = entered := by
        simp only [register, granted, picked, saveImage, unwrapUser, encoded, answered]
        cases outcomes.putData <;> rfl
      refine ⟨entered, ?_, by rw [registered]⟩
      simp only [sessionEvents, granted, answered]
      refine GuardedRuns.exec_snoc uploading ?_
      simp [Session.step, running, Session.perform, dropped, Session.withoutRequest, entered]
    | some url =>
      refine ⟨entered.avatarSaved url form.fullName form.emailUser, ?_, ?_⟩
      · simp only [sessionEvents, granted, answered]
        refine GuardedRuns.exec_snoc uploading ?_
        simp [Session.step, running, Session.perform, dropped, Session.withoutRequest, entered]
      · simp only [register, granted, picked, saveImage, unwrapUser, encoded, answered, avatarSaved,
          Session.avatarSaved, Session.unwrapUser, entered]
        by_cases empty : url = ""
        · cases outcomes.putData <;> simp [empty]
        · cases outcomes.putData <;> cases outcomes.setData <;>
            simp [empty, add, Client.enqueue]

end App

end Amigo
