import Amigo.MergeOrder

/-!
# The stored forms of a record

A record is stored twice by hand-written code: as named fields in the cloud and as
columns of a local row. In the cloud the server replaces the placeholder under
`lastUpdate` by its time. The user's decoder reads that key back; the post's decoder
does not, so no decoded post has a date and a post never comes back as it was stored.

Two local statements store a post. Each lists its columns, has one parameter for each
and binds texts to parameters by number. `addToDb` numbers them as it lists the
columns. `UpdateDb` leaves out the key column but keeps the numbers, so each text goes
one column too far, the first column stays NULL, the last text is bound to no
parameter, and without a key the row replaces none. The laws of both follow from what
one numbered binding does to the parameters.
-/

namespace Amigo

/-! ## The cloud forms -/

/-- The class `User` with its date, which the modules on sessions and registration
have no use for. -/
structure DatedUser extends User where
  lastUpdate : Option Int := none

/-- The conditional cast of a field to a server time. -/
def Fields.timestamp (fields : Fields) (name : String) : Option Timestamp :=
  match fields.get name with
  | some (.timestamp time) => some time
  | _ => none

/-- `User.init(json:)`. None is a failed forced cast. -/
def User.initJson (json : Fields) : Option DatedUser :=
  (json.string "id").bind fun id =>
  (json.string "fullname").bind fun fullname =>
  (json.string "avatar").bind fun avatar =>
  (json.string "email").bind fun email =>
  (json.timestamp "lastUpdate").bind fun ts =>
  some { id, fullname, ImagAvatr := avatar, email, lastUpdate := some ts.seconds }

/-- The two record types of the cloud. -/
inductive Record where
  | post (post : Post)
  | user (user : DatedUser)

/-- Decoding the stored form of a record gives the record back, dated by the second
of the server's time. -/
def Record.RoundTrips (time : Timestamp) : Record → Prop
  | .post original => Post.initJson (resolve (.committed time) original.toJson) =
      some { original with lastUpdate := some time.seconds }
  | .user original => User.initJson (resolve (.committed time) original.toJson) =
      some { original with lastUpdate := some time.seconds }

/-- No decoded post has a date. -/
theorem initJson_undated {json : Fields} {post : Post} (decoded : Post.initJson json = some post) :
    post.lastUpdate = none := by
  simp only [Post.initJson, Option.bind_eq_some_iff] at decoded
  obtain ⟨_, _, _, _, _, _, _, _, _, _, _, _, _, _, _, _, same⟩ := decoded
  exact (Option.some.inj same) ▸ rfl

/-- Decoding what a user's write stores gives the user back with its date. -/
theorem initJson_resolve_toJson_user (time : Timestamp) (user : DatedUser) :
    User.initJson (resolve (.committed time) user.toJson) =
      some { user with lastUpdate := some time.seconds } := by
  simp [User.initJson, User.toJson, resolve, Fields.string, Fields.timestamp, Fields.get,
    FieldValue.resolve, Stamp.value, List.lookup_cons]

/-- At every server time a record comes back from the cloud as it was stored if and
only if it is a user. -/
theorem round_trips_iff (time : Timestamp) (record : Record) :
    record.RoundTrips time ↔ ∃ user, record = .user user := by
  cases record with
  | post post =>
    constructor
    · intro returned
      have undated := initJson_undated returned
      cases undated
    · rintro ⟨_, impossible⟩
      cases impossible
  | user user => exact ⟨fun _ => ⟨user, rfl⟩, fun _ => initJson_resolve_toJson_user time user⟩

/-- A post does not come back with its date. -/
theorem not_always_round_trips : ¬ ∀ (time : Timestamp) (record : Record), record.RoundTrips time := by
  intro always
  have returned := always ⟨5, 0⟩ (.post { id := "AAAAAAAAAAAAAAAAAAA1", title := "Haifa" })
  exact absurd returned (by unfold Record.RoundTrips; decide +kernel)

/-! ## The local statements -/

/-- The columns of POSTAMIGO, in the order of the table. -/
inductive Column where
  | psId | title | placeLocation | placeImage | userName | recText | userId | postId
deriving DecidableEq

/-- Bind a text to the parameter with this number, counted from one. A number past the
last parameter fails without effect. -/
def bindText (number : Nat) (text : String) (parameters : List (Option String)) :
    List (Option String) :=
  match number with
  | 0 => parameters
  | index + 1 => parameters.set index (some (cString text))

/-- INSERT OR REPLACE with the columns it lists and the texts bound to its parameters,
in the order of the calls. A parameter no text is bound to is NULL. -/
structure InsertStatement where
  columns : List Column
  bindings : List (Nat × String)

/-- The parameters when the statement is stepped. -/
def InsertStatement.parameters (statement : InsertStatement) : List (Option String) :=
  statement.bindings.foldl (fun parameters binding => bindText binding.1 binding.2 parameters)
    (statement.columns.map (fun _ => none))

/-- The value of a column: its parameter's, or NULL for a column not listed. -/
def InsertStatement.value (statement : InsertStatement) (column : Column) : Option String :=
  ((statement.columns.zip statement.parameters).lookup column).join

/-- The row of the bound values. -/
def InsertStatement.row (statement : InsertStatement) : Row where
  psId := statement.value .psId
  title := statement.value .title
  placeLocation := statement.value .placeLocation
  placeImage := statement.value .placeImage
  userName := statement.value .userName
  recText := statement.value .recText
  userId := statement.value .userId
  postId := statement.value .postId

/-- `sqlite3_step`: INSERT OR REPLACE of the row. -/
def InsertStatement.step (statement : InsertStatement) (postAmigo : List Row) : List Row :=
  KeyedRows.upsert samePrimaryKey statement.row postAmigo

/-- The statement of `addToDb`. -/
def Post.addStatement (post : Post) : InsertStatement where
  columns := [.psId, .title, .placeLocation, .placeImage, .userName, .recText, .userId, .postId]
  bindings := [(1, post.id), (2, post.title), (3, post.placeLocation), (4, post.placeImage),
    (5, post.userName), (6, post.recText), (7, post.userId), (8, post.postId)]

/-- The statement of `UpdateDb`: the binding of the id is commented out, the numbers
of the others are those of `addToDb`. -/
def Post.updateStatement (post : Post) : InsertStatement where
  columns := [.title, .placeLocation, .placeImage, .userName, .recText, .userId, .postId]
  bindings := [(2, post.title), (3, post.placeLocation), (4, post.placeImage),
    (5, post.userName), (6, post.recText), (7, post.userId), (8, post.postId)]

/-- `Post.UpdateDb`. -/
def Post.UpdateDb (post : Post) (postAmigo : List Row) : List Row :=
  post.updateStatement.step postAmigo

/-- The row `UpdateDb` stores: no key, no title, and every field one column too far. -/
def Post.shiftedRow (post : Post) : Row where
  psId := none
  title := none
  placeLocation := some (cString post.title)
  placeImage := some (cString post.placeLocation)
  userName := some (cString post.placeImage)
  recText := some (cString post.userName)
  userId := some (cString post.recText)
  postId := some (cString post.userId)

/-- The statement of `addToDb` stores the row of the post. -/
theorem addToDb_step (post : Post) (postAmigo : List Row) :
    post.addToDb postAmigo = post.addStatement.step postAmigo := rfl

/-- `UpdateDb` appends its shifted row and replaces none. -/
theorem UpdateDb_eq (post : Post) (postAmigo : List Row) :
    post.UpdateDb postAmigo = postAmigo ++ [post.shiftedRow] := by
  have stored : post.updateStatement.row = post.shiftedRow := rfl
  have unkeyed (row : Row) : ¬ samePrimaryKey row post.shiftedRow := fun same => same.2 rfl
  rw [Post.UpdateDb, InsertStatement.step, stored, KeyedRows.upsert, List.filter_eq_self.mpr]
  intro row _
  simpa using unkeyed row

/-- What both writes are to leave: one set of rows, with one row under the post's id,
whose columns are the post's fields, and the rows under other ids as they were. -/
structure PathsAgree (post : Post) (postAmigo : List Row) : Prop where
  sameRows : ∀ row, row ∈ post.UpdateDb postAmigo ↔ row ∈ post.addToDb postAmigo
  stored : (post.UpdateDb postAmigo).filter (fun row => decide (row.psId = some post.id)) =
    [post.columns]
  others : (post.UpdateDb postAmigo).filter (fun row => decide (row.psId ≠ some post.id)) =
    postAmigo.filter (fun row => decide (row.psId ≠ some post.id))

/-- `addToDb` leaves one row under a clean post's id and the others as they were. -/
theorem addToDb_exact {post : Post} (clean : post.Clean) (postAmigo : List Row) :
    (post.addToDb postAmigo).filter (fun row => decide (row.psId = some post.id)) = [post.columns] ∧
    (post.addToDb postAmigo).filter (fun row => decide (row.psId ≠ some post.id)) =
      postAmigo.filter (fun row => decide (row.psId ≠ some post.id)) := by
  have key : post.columns.psId = some post.id := rfl
  have clash (row : Row) : samePrimaryKey row post.columns ↔ row.psId = some post.id := by
    simp [samePrimaryKey, key]
  simp only [Post.addToDb, clean.row, KeyedRows.upsert, List.filter_append, List.filter_filter, clash]
  simp [key]

/-- On a table without NULLs the two write paths agree for no post. -/
theorem write_paths_never_agree (post : Post) (postAmigo : List Row)
    (complete : ∀ row ∈ postAmigo, row.Complete) : ¬ PathsAgree post postAmigo := by
  intro agree
  have appended : post.shiftedRow ∈ post.UpdateDb postAmigo := by
    rw [UpdateDb_eq]
    exact List.mem_append_right _ (List.mem_singleton.mpr rfl)
  obtain ⟨older, _⟩ | same := KeyedRows.mem_upsert.mp ((agree.sameRows _).mp appended)
  · exact (complete _ older).1 rfl
  · cases congrArg Row.psId same

/-- They disagree about a new version of the one stored post. -/
theorem write_paths_never_agree_newer :
    ¬ PathsAgree (noted "AAAAAAAAAAAAAAAAAAA1" "new") [Post.row (noted "AAAAAAAAAAAAAAAAAAA1" "old")] :=
  write_paths_never_agree _ _ (by decide)

/-- On an empty table `UpdateDb` leaves no row under the post's id. -/
theorem write_paths_not_always_agree : ¬ ∀ (post : Post) (postAmigo : List Row), post.Clean →
    (∀ row ∈ postAmigo, row.Complete) → PathsAgree post postAmigo := by
  intro always
  have agree := always (noted "AAAAAAAAAAAAAAAAAAA1" "new") [] (by decide) (by simp)
  exact absurd agree.stored (by decide +kernel)

/-- What `UpdateDb` stores is selected for no city, as long as the city does not go on as
other SQL. -/
theorem selectedRows_UpdateDb (platform : Platform) {city : String} (closed : splice city ≠ .other)
    (post : Post) (postAmigo : List Row) :
    selectedRows platform city (post.UpdateDb postAmigo) = selectedRows platform city postAmigo := by
  rw [UpdateDb_eq]
  unfold selectedRows
  split
  · rename_i body _
    have untitled : likeAnywhere body post.shiftedRow.title = false := rfl
    rw [List.filter_append, List.filter_singleton, untitled]
    simp
  · rfl
  · rename_i isOther
    exact absurd isOther closed

end Amigo
