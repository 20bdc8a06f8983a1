import Amigo.Registration

/-!
# What opening the database creates

Opening the database makes the table of the dates and the table of the posts. The
model of users has a statement for its own table as well, and a writer and a reader,
but nothing runs that statement. Each of them swallows a statement that is not
prepared: a user stored in a database without the table is stored nowhere, and the
reader returns no users.

The reader and the writer fit each other: on the tables a database with that one
statement more would have, they are a map from an id to the last user stored under
it. So the law holds of the database as it is opened for the empty sequence alone.
-/

namespace Amigo

/-- The tables of `database2.db`. None is a table that does not exist. -/
structure Database where
  lastUpadateDate : Option (List DateRow) := none
  postAmigo : Option (List Row) := none
  user : Option (List UserRow) := none

/-- CREATE TABLE IF NOT EXISTS. -/
def createIfNotExists {α : Type} (table : Option (List α)) : Option (List α) := some (table.getD [])

/-- `Post.create_table`. -/
def Post.createTable (database : Database) : Database :=
  { database with postAmigo := createIfNotExists database.postAmigo }

/-- `User.create_table`. -/
def User.createTable (database : Database) : Database :=
  { database with user := createIfNotExists database.user }

namespace ModelSql

/-- `ModelSql.create`: the table of dates. -/
def create (database : Database) : Database :=
  { database with lastUpadateDate := createIfNotExists database.lastUpadateDate }

/-- Opening the file and what follows it. -/
def init (file : Database) : Database := Post.createTable (create file)

end ModelSql

/-- Calls of `addUserToDb`, the first one first. -/
def addUsers (calls : List User) (database : Database) : Database :=
  calls.foldl (fun current user => { current with user := user.addUserToDb current.user }) database

/-- One pass of the row loop of the users read. None is a failed forced unwrap of a
NULL. -/
def readUser (row : UserRow) : Option User :=
  (columnText row.usId).bind fun id =>
  (columnText row.fullname).bind fun fullname =>
  (columnText row.avatar).bind fun avatar =>
  (columnText row.email).bind fun email =>
  some ⟨id, fullname, avatar, email⟩

/-- The users of all rows, in their order. -/
def readUsers : List UserRow → Option (List User)
  | [] => some []
  | row :: rest => (readUser row).bind fun user => (readUsers rest).map (user :: ·)

/-- `User.getAllUsersFromDb`: without a table the statement is not prepared. -/
def Database.getAllUsersFromDb (database : Database) : Option (List User) :=
  match database.user with
  | none => some []
  | some rows => readUsers rows

/-- No string of the user contains U+0000. -/
def User.Clean (user : User) : Prop :=
  ∀ text ∈ [user.id, user.fullname, user.ImagAvatr, user.email], nul ∉ text.toList

instance User.decidableClean (user : User) : Decidable user.Clean :=
  inferInstanceAs (Decidable (∀ text ∈ [user.id, user.fullname, user.ImagAvatr, user.email],
    nul ∉ text.toList))

/-- The users read are a map from the ids of the calls to the last user of each. -/
def IsUserMap (calls : List User) (isRead : Option (List User)) : Prop :=
  ∃ users, isRead = some users ∧ (users.map User.id).Nodup ∧
    ∀ user, user ∈ users ↔ ∃ earlier later, calls = earlier ++ user :: later ∧
      ∀ other ∈ later, user.id ≠ other.id

/-- Opening a database again changes nothing. -/
theorem init_again (file : Database) : ModelSql.init (ModelSql.init file) = ModelSql.init file := rfl

/-- The freshly installed app of a registration has the tables an opened file has. -/
theorem init_install : App.install.userTable = (ModelSql.init {}).user := rfl

/-- A freshly installed client has the rows and the dates of a freshly opened file. -/
theorem init_client : (ModelSql.init {}).postAmigo = some ({} : Client).postAmigo ∧
    (ModelSql.init {}).lastUpadateDate = some ({} : Client).dates := ⟨rfl, rfl⟩

/-- Without the table no call stores a user. -/
theorem addUsers_missing (calls : List User) {database : Database} (missing : database.user = none) :
    addUsers calls database = database := by
  induction calls with
  | nil => rfl
  | cons user rest inductionHypothesis =>
    have unchanged : { database with user := user.addUserToDb database.user } = database := by
      obtain ⟨dates, posts, users⟩ := database
      subst missing
      rfl
    rw [addUsers, List.foldl_cons, unchanged]
    exact inductionHypothesis

/-- After any sequence of calls on the database as it is opened, the users read are the
map of the calls if and only if there was no call. -/
theorem user_map_iff (calls : List User) :
    IsUserMap calls (addUsers calls (ModelSql.init {})).getAllUsersFromDb ↔ calls = [] := by
  have nobody : (addUsers calls (ModelSql.init {})).getAllUsersFromDb = some [] := by
    rw [addUsers_missing calls rfl]
    rfl
  rw [nobody]
  constructor
  · rintro ⟨_, isRead, _, exact⟩
    cases Option.some.inj isRead
    cases calls using List.reverseRec with
    | nil => rfl
    | append_singleton earlier user =>
      have stored := (exact user).mpr ⟨earlier, [], rfl, by simp⟩
      exact absurd stored List.not_mem_nil
  · rintro rfl
    exact ⟨[], rfl, List.nodup_nil, by simp⟩

/-- The first user registered on a device is not read back. -/
theorem not_always_user_map : ¬ ∀ calls : List User, (∀ user ∈ calls, user.Clean) →
    IsUserMap calls (addUsers calls (ModelSql.init {})).getAllUsersFromDb := by
  intro always
  obtain ⟨users, isRead, _, exact⟩ := always [⟨"uid", "Ann", "url", "ann@x.org"⟩] (by decide)
  cases Option.some.inj isRead
  have stored := (exact _).mpr ⟨[], [], rfl, by simp⟩
  exact absurd stored List.not_mem_nil

/-! ## The writer and the reader with the table -/

/-- In a table the calls are stored one after another. -/
theorem addUsers_present (calls : List User) {database : Database} {rows : List UserRow}
    (present : database.user = some rows) :
    (addUsers calls database).user =
      some (KeyedRows.upsertAll sameUser rows (calls.map User.row)) := by
  induction calls generalizing database rows with
  | nil => exact present
  | cons user rest inductionHypothesis =>
    let stored : Database := { database with user := user.addUserToDb database.user }
    have isStored : stored.user = some (KeyedRows.upsert sameUser user.row rows) := by
      simp only [stored, present, User.addUserToDb, Option.map_some]
    exact inductionHypothesis isStored

/-- A clean user's row is read as the user. -/
theorem readUser_row {user : User} (clean : user.Clean) : readUser user.row = some user := by
  have whole : ∀ text ∈ [user.id, user.fullname, user.ImagAvatr, user.email], cString text = text :=
    fun text member => cString_clean (clean text member)
  simp only [List.forall_mem_cons] at whole
  obtain ⟨id, name, avatar, email, _⟩ := whole
  simp [readUser, User.row, columnText, id, name, avatar, email]

/-- The rows of clean users are read back as the users. -/
theorem readUsers_rows {users : List User} (clean : ∀ user ∈ users, user.Clean) :
    readUsers (users.map User.row) = some users := by
  induction users with
  | nil => rfl
  | cons user rest inductionHypothesis =>
    obtain ⟨first, others⟩ := List.forall_mem_cons.mp clean
    simp [readUsers, readUser_row first, inductionHypothesis others]

/-- Two users are bound with the same identifier. -/
def sameBoundId (first second : User) : Prop := cString first.id = cString second.id

instance : DecidableRel sameBoundId := fun first second =>
  inferInstanceAs (Decidable (cString first.id = cString second.id))

/-- With the statement that nothing runs, the table would be a map from id to user. -/
theorem user_map_created (calls : List User) (clean : ∀ user ∈ calls, user.Clean) :
    IsUserMap calls (addUsers calls (User.createTable (ModelSql.init {}))).getAllUsersFromDb := by
  have same (first second : User) : sameUser first.row second.row ↔ sameBoundId first second := by
    simp [sameUser, sameBoundId, User.row]
  have created : (User.createTable (ModelSql.init {})).user = some [] := rfl
  have table : (addUsers calls (User.createTable (ModelSql.init {}))).user =
      some ((KeyedRows.lastOfEach sameBoundId calls).map User.row) := by
    rw [addUsers_present calls created, KeyedRows.upsertAll_eq, List.filter_nil,
      List.nil_append, KeyedRows.lastOfEach_map same]
  have stays {user : User} (member : user ∈ calls) : cString user.id = user.id :=
    cString_clean (clean user member user.id List.mem_cons_self)
  refine ⟨KeyedRows.lastOfEach sameBoundId calls, ?_, ?_, ?_⟩
  · rw [Database.getAllUsersFromDb, table]
    exact readUsers_rows (fun user member => clean user (KeyedRows.mem_of_mem_lastOfEach member))
  · refine List.pairwise_map.mpr ((KeyedRows.lastOfEach_separate calls).imp ?_)
    intro first second different equal
    exact different (congrArg cString equal)
  · intro user
    rw [KeyedRows.mem_lastOfEach_iff]
    constructor
    · rintro ⟨earlier, later, rfl, last⟩
      refine ⟨earlier, later, rfl, ?_⟩
      intro other member equal
      exact last other member (congrArg cString equal)
    · rintro ⟨earlier, later, rfl, last⟩
      refine ⟨earlier, later, rfl, ?_⟩
      intro other member equal
      rw [sameBoundId, stays (by simp), stays (by simp [member])] at equal
      exact last other member equal

end Amigo
