import Mathlib.Algebra.Group.Int.Defs
import Mathlib.Algebra.Group.Nat.Defs
import Mathlib.Data.List.TakeWhile
import Amigo.LikePattern
import Amigo.Posts

/-!
# The local database

POSTAMIGO has eight nullable text columns with PS_ID as its primary key; NULL
keys clash with nothing. LAST_UPADATE_DATE maps a name to a date kept in a
DOUBLE column, so an integer is stored as the nearest double. Rows are listed in
rowid order: replacing a row removes it and appends the new one, and a scan
without an order visits the list from the front.

Two statements are built by splicing a string between the quotes of a LIKE
pattern. When the string leaves the text one closed literal, SQLite compiles the
intended clause. When the text breaks off inside a literal, no statement is
prepared: U+0000 ends the text, and behind a quote that ends the literal the last
quote of the statement opens another. When the string itself completes the
statement in some other way, the clause is SQL of its writer; what SQLite makes of
it is a parameter here. Every other statement binds its values. Statements are
assumed to succeed once prepared. A bound string ends at its first U+0000.
-/

namespace Amigo

/-- A row of the table POSTAMIGO. A column may be NULL. -/
structure Row where
  psId : Option String
  title : Option String
  placeLocation : Option String
  placeImage : Option String
  userName : Option String
  recText : Option String
  userId : Option String
  postId : Option String
deriving DecidableEq

/-- The character at which a C string ends. -/
def nul : Char := Char.ofNat 0

/-- The character that ends a literal. -/
def quote : Char := Char.ofNat 39

/-- A text that leaves a statement it is spliced into one closed literal. -/
abbrev PlainText (text : String) : Prop := ∀ letter ∈ text.toList, letter ≠ quote ∧ letter ≠ nul

-- decided along the text, not over all characters
instance (text : String) : Decidable (PlainText text) :=
  List.decidableBAll (fun letter => letter ≠ quote ∧ letter ≠ nul) text.toList

/-- What a C string keeps of a string. -/
def cString (text : String) : String :=
  String.ofList (text.toList.takeWhile (fun letter => decide (letter ≠ nul)))

/-- A string without U+0000 is kept whole. -/
theorem cString_clean {text : String} (clean : nul ∉ text.toList) : cString text = text := by
  have whole : text.toList.takeWhile (fun letter => decide (letter ≠ nul)) = text.toList := by
    rw [List.takeWhile_eq_self_iff]
    intro letter member
    have different : letter ≠ nul := fun same => clean (same ▸ member)
    simpa using different
  rw [cString, whole, String.ofList_toList]

/-- The row `addToDb` binds. -/
def Post.row (post : Post) : Row where
  psId := some (cString post.id)
  title := some (cString post.title)
  placeLocation := some (cString post.placeLocation)
  placeImage := some (cString post.placeImage)
  userName := some (cString post.userName)
  recText := some (cString post.recText)
  userId := some (cString post.userId)
  postId := some (cString post.postId)

/-- The primary key conflict that INSERT OR REPLACE resolves. -/
def samePrimaryKey (stored new : Row) : Prop := stored.psId = new.psId ∧ new.psId ≠ none

instance : DecidableRel samePrimaryKey := fun stored new =>
  inferInstanceAs (Decidable (stored.psId = new.psId ∧ new.psId ≠ none))

/-- Rows clash both ways. -/
theorem samePrimaryKey_symmetric (first second : Row) (touching : samePrimaryKey first second) :
    samePrimaryKey second first :=
  ⟨touching.1.symm, touching.1 ▸ touching.2⟩

/-- `Post.addToDb`: INSERT OR REPLACE of the post's row. -/
def Post.addToDb (post : Post) (postAmigo : List Row) : List Row :=
  KeyedRows.upsert samePrimaryKey post.row postAmigo

/-- What the app takes from its platform: SQLite on a text whose spliced string goes on
as other SQL, which may name the parameters its caller binds, the comparison of Swift
strings, and the map's own title for the user's location. -/
structure Platform where
  /-- The rows a delete leaves, in their order. -/
  deletes : String → Post → List Row → List Row
  kept : ∀ statement receiver rows, (deletes statement receiver rows).Sublist rows
  /-- The rows a read returns. -/
  selects : String → List Row → List Row
  /-- The canonical form in which strings are compared. ASCII is its own. -/
  canonical : String → String
  ascii : ∀ text : String, (∀ letter ∈ text.toList, letter.val < 128) → canonical text = text
  location : String
  plainLocation : PlainText location
  canonicalLocation : canonical location = location

/-- A platform for texts in ASCII that stay inside their literals. -/
def Platform.plain : Platform where
  deletes _ _ rows := rows
  kept _ _ _ := List.Sublist.refl _
  selects _ _ := []
  canonical := id
  ascii _ _ := rfl
  location := "My Location"
  plainLocation := by decide
  canonicalLocation := rfl

/-- Equality of Swift strings is canonical equivalence. -/
def Platform.same (platform : Platform) (first second : String) : Bool :=
  decide (platform.canonical first = platform.canonical second)

/-- The characters of a quoted literal with this body, if the body does not end
it: a quote has to be doubled, and U+0000 ends the statement text. -/
def literalBody : List Char → Option (List Char)
  | [] => some []
  | [letter] => if letter = quote ∨ letter = nul then none else some [letter]
  | letter :: next :: rest =>
    if letter = nul then none
    else if letter = quote then
      if next = quote then (literalBody rest).map (quote :: ·) else none
    else (literalBody (next :: rest)).map (letter :: ·)

/-- A body without quotes and U+0000 is read as it stands. -/
theorem literalBody_plain {text : List Char}
    (plain : ∀ letter ∈ text, letter ≠ quote ∧ letter ≠ nul) : literalBody text = some text := by
  induction text with
  | nil => rfl
  | cons letter rest inductionHypothesis =>
    have first := plain letter List.mem_cons_self
    have tail := inductionHypothesis (fun other member => plain other (List.mem_cons_of_mem _ member))
    cases rest with
    | nil => simp [literalBody, first]
    | cons next others => simp [literalBody, first, tail]

/-- Behind the end of a literal these characters neither complete the statement nor
hide a quote in a comment, a quoted name or a parameter. -/
def inert : List Char → Bool
  | [] => true
  | letter :: rest =>
    letter ≠ nul && letter ≠ quote && !"\"#$:;@[`".toList.contains letter &&
      !(letter = '-' && rest.head? = some '-') && !(letter = '/' && rest.head? = some '*') &&
      inert rest

/-- The text breaks off inside a literal: the spliced string ends it with U+0000, or ends
the literal with a quote and leaves the next one open. -/
def breaksOff : List Char → Bool
  | [] => false
  | [letter] => letter = nul ∨ letter = quote
  | letter :: next :: rest =>
    if letter = nul then true
    else if letter = quote then
      if next = quote then breaksOff rest else inert (next :: rest)
    else breaksOff (next :: rest)

/-- What a spliced string makes of a statement: its literal has a body, no statement is
prepared, or the text goes on as other SQL. -/
inductive Splice where
  | literal (body : List Char)
  | unprepared
  | other
deriving DecidableEq

/-- What becomes of a string in the place the statement has for it. -/
def splice (spliced : String) : Splice :=
  match literalBody spliced.toList with
  | some body => .literal body
  | none => if breaksOff spliced.toList then .unprepared else .other

/-- A string without either character is a literal as it stands. -/
@[simp] theorem splice_plain {spliced : String}
    (plain : PlainText spliced) :
    splice spliced = .literal spliced.toList := by
  simp only [splice, literalBody_plain plain]

/-- The value of `column LIKE '%body%'`. -/
def likeAnywhere (body : List Char) (column : Option String) : Bool :=
  (column.map fun text => LikePattern.like (LikePattern.anywhere body) text.toList).getD false

/-- The rows `deleteFromDb` leaves. It binds the receiver's fields, which only a spliced
string can name. -/
def deleteFromDb (platform : Platform) (receiver : Post) (postIds : String) (postAmigo : List Row) :
    List Row :=
  match splice postIds with
  | .literal body => postAmigo.filter fun row => !likeAnywhere body row.postId
  | .unprepared => postAmigo
  | .other =>
    platform.deletes ("DELETE FROM POSTAMIGO WHERE POSTID LIKE  '%" ++ postIds ++ "%';") receiver postAmigo

/-- The rows the local read selects for a city. -/
def selectedRows (platform : Platform) (city : String) (postAmigo : List Row) : List Row :=
  match splice city with
  | .literal body => postAmigo.filter fun row => likeAnywhere body row.title
  | .unprepared => []
  | .other => platform.selects ("SELECT * from POSTAMIGO WHERE TITLE LIKE '%" ++ city ++ "%';") postAmigo

/-- The string of a column. None is a failed forced unwrap of a NULL. -/
def columnText (column : Option String) : Option String := column.map cString

/-- One pass of the row loop of the local read. -/
def readRow (row : Row) : Option Post :=
  (columnText row.psId).bind fun id =>
  (columnText row.title).bind fun title =>
  (columnText row.placeLocation).bind fun placeLocation =>
  (columnText row.placeImage).bind fun placeImage =>
  (columnText row.userName).bind fun userName =>
  (columnText row.recText).bind fun recText =>
  (columnText row.userId).bind fun userId =>
  (columnText row.postId).bind fun postId =>
  some { id, title, placeLocation, placeImage, userName, recText, userId, postId }

/-- The posts of all rows, in their order; none is a failed unwrap. -/
def readRows : List Row → Option (List Post)
  | [] => some []
  | row :: rest => (readRow row).bind fun post => (readRows rest).map (post :: ·)

/-- The rows `getAllPostsFromDb` returns as posts, for the city it splices. -/
def getAllPostsFromDb (platform : Platform) (city : String) (postAmigo : List Row) :
    Option (List Post) :=
  readRows (selectedRows platform city postAmigo)

/-- A row of the table of update dates. -/
structure DateRow where
  name : String
  date : Int
deriving DecidableEq

/-- The rows of one name clash. -/
def sameName (stored new : DateRow) : Prop := stored.name = new.name

instance : DecidableRel sameName := fun stored new =>
  inferInstanceAs (Decidable (stored.name = new.name))

/-- The integer value of the double nearest to an integer, ties to even. -/
def nearestDouble (value : Int) : Int :=
  let magnitude := value.natAbs
  let unit := 2 ^ (magnitude.log2 - 52)
  let quotient := magnitude / unit
  let remainder := magnitude % unit
  let rounded :=
    if unit < 2 * remainder ∨ (2 * remainder = unit ∧ quotient % 2 = 1) then quotient + 1
    else quotient
  value.sign * (rounded * unit : Nat)

/-- Reading a DOUBLE column as a 64-bit integer clamps at the largest one. -/
def columnInt64 (date : Int) : Int := if date < 2 ^ 63 then date else 2 ^ 63 - 1

/-- `LastUpdateDates.setLastUpdate`: INSERT OR REPLACE of the name's row. -/
def setLastUpdate (name : String) (lastUpdated : Int) (dates : List DateRow) : List DateRow :=
  KeyedRows.upsert sameName ⟨cString name, nearestDouble lastUpdated⟩ dates

/-- The first row whose NAME is LIKE the given name, or zero. -/
def getLastUpdateDate (name : String) (dates : List DateRow) : Int :=
  match dates.find? (fun row => LikePattern.like (cString name).toList row.name.toList) with
  | some row => columnInt64 row.date
  | none => 0

/-- A row is readable when none of its columns is NULL. -/
def Row.Complete (row : Row) : Prop :=
  row.psId ≠ none ∧ row.title ≠ none ∧ row.placeLocation ≠ none ∧ row.placeImage ≠ none ∧
    row.userName ≠ none ∧ row.recText ≠ none ∧ row.userId ≠ none ∧ row.postId ≠ none

instance (row : Row) : Decidable row.Complete := by
  unfold Row.Complete
  infer_instance

/-- Reading one row succeeds exactly when it is complete. -/
theorem readRow_isSome_iff (row : Row) : (readRow row).isSome = true ↔ row.Complete := by
  obtain ⟨psId, title, placeLocation, placeImage, userName, recText, userId, postId⟩ := row
  simp only [Option.isSome_iff_exists, readRow, columnText, Option.bind_eq_some_iff, Row.Complete,
    ne_eq, Option.map_eq_some_iff, Option.ne_none_iff_exists']
  constructor
  · rintro ⟨_, _, ⟨id, rfl, _⟩, _, ⟨title, rfl, _⟩, _, ⟨location, rfl, _⟩, _, ⟨image, rfl, _⟩,
      _, ⟨name, rfl, _⟩, _, ⟨text, rfl, _⟩, _, ⟨user, rfl, _⟩, _, ⟨postId, rfl, _⟩, _⟩
    exact ⟨⟨id, rfl⟩, ⟨title, rfl⟩, ⟨location, rfl⟩, ⟨image, rfl⟩, ⟨name, rfl⟩, ⟨text, rfl⟩,
      ⟨user, rfl⟩, ⟨postId, rfl⟩⟩
  · rintro ⟨⟨id, rfl⟩, ⟨title, rfl⟩, ⟨location, rfl⟩, ⟨image, rfl⟩, ⟨name, rfl⟩, ⟨text, rfl⟩,
      ⟨user, rfl⟩, ⟨postId, rfl⟩⟩
    exact ⟨_, _, ⟨id, rfl, rfl⟩, _, ⟨title, rfl, rfl⟩, _, ⟨location, rfl, rfl⟩, _, ⟨image, rfl, rfl⟩,
      _, ⟨name, rfl, rfl⟩, _, ⟨text, rfl, rfl⟩, _, ⟨user, rfl, rfl⟩, _, ⟨postId, rfl, rfl⟩, rfl⟩

/-- The row loop traps exactly on a row with a NULL. -/
theorem readRows_isSome_iff (rows : List Row) :
    (readRows rows).isSome = true ↔ ∀ row ∈ rows, row.Complete := by
  induction rows with
  | nil => simp [readRows]
  | cons row rest inductionHypothesis =>
    rw [List.forall_mem_cons, ← readRow_isSome_iff row, ← inductionHypothesis]
    cases first : readRow row <;> cases others : readRows rest <;> simp [readRows, first, others]

/-- Every row `addToDb` writes is complete. -/
theorem row_complete (post : Post) : post.row.Complete := by simp [Post.row, Row.Complete]

/-- A read row carries the columns of the row. -/
theorem readRow_columns {row : Row} {post : Post} (isRead : readRow row = some post) :
    columnText row.psId = some post.id ∧ columnText row.title = some post.title ∧
      columnText row.userId = some post.userId ∧ columnText row.postId = some post.postId := by
  simp only [readRow, Option.bind_eq_some_iff] at isRead
  obtain ⟨id, hasId, title, hasTitle, _, _, _, _, _, _, _, _, userId, hasUserId, postId, hasPostId,
    same⟩ := isRead
  cases Option.some.inj same
  exact ⟨hasId, hasTitle, hasUserId, hasPostId⟩

/-- The posts read from rows are the posts of those rows. -/
theorem mem_readRows {rows : List Row} {data : List Post} (isRead : readRows rows = some data)
    (post : Post) : post ∈ data ↔ ∃ row ∈ rows, readRow row = some post := by
  induction rows generalizing data with
  | nil =>
    cases Option.some.inj isRead
    simp
  | cons row rest inductionHypothesis =>
    simp only [readRows, Option.bind_eq_some_iff, Option.map_eq_some_iff] at isRead
    obtain ⟨first, isFirst, others, isOthers, rfl⟩ := isRead
    simp only [List.mem_cons, inductionHypothesis isOthers, exists_eq_or_imp, isFirst,
      Option.some.injEq]
    constructor
    · rintro (rfl | later)
      · exact Or.inl rfl
      · exact Or.inr later
    · rintro (rfl | later)
      · exact Or.inl rfl
      · exact Or.inr later

/-- A delete drops rows and changes none. -/
theorem deleteFromDb_sublist (platform : Platform) (receiver : Post) (postIds : String)
    (postAmigo : List Row) : (deleteFromDb platform receiver postIds postAmigo).Sublist postAmigo := by
  unfold deleteFromDb
  split
  · exact List.filter_sublist
  · exact List.Sublist.refl _
  · exact platform.kept _ _ _

/-- A delete for the argument can drop the row: its POSTID is LIKE the pattern, or the
argument goes on as other SQL. -/
def namedBy (postIds : String) (row : Row) : Bool :=
  match splice postIds with
  | .literal body => likeAnywhere body row.postId
  | .unprepared => false
  | .other => true

/-- A delete drops no other rows. -/
theorem deleteFromDb_kept (platform : Platform) (receiver : Post) {postIds : String}
    {postAmigo : List Row} {row : Row} (present : row ∈ postAmigo)
    (apart : namedBy postIds row = false) : row ∈ deleteFromDb platform receiver postIds postAmigo := by
  unfold namedBy at apart
  unfold deleteFromDb
  split at apart
  · exact List.mem_filter.mpr ⟨present, by simpa using apart⟩
  · exact present
  · simp at apart

/-- A plain string deletes the rows it names. -/
theorem deleteFromDb_plain (platform : Platform) (receiver : Post) {postIds : String}
    (plain : PlainText postIds) (postAmigo : List Row) :
    deleteFromDb platform receiver postIds postAmigo =
      postAmigo.filter fun row => !namedBy postIds row := by
  simp only [deleteFromDb, namedBy, splice_plain plain]

/-- What a delete can drop goes by the POSTID alone. -/
def names (postIds key : String) : Bool :=
  match splice postIds with
  | .literal body => LikePattern.like (LikePattern.anywhere body) key.toList
  | .unprepared => false
  | .other => true

/-- A row is named when its key is. -/
theorem namedBy_key (postIds : String) {row : Row} {key : String} (keyed : row.postId = some key) :
    namedBy postIds row = names postIds key := by
  simp only [namedBy, names, likeAnywhere, keyed, Option.map_some, Option.getD_some]

/-- The row's TITLE is LIKE a pattern that stays inside its literal. -/
def inCity (city : String) (row : Row) : Bool :=
  match splice city with
  | .literal body => likeAnywhere body row.title
  | .unprepared | .other => false

/-- A plain city selects the rows of which it is part of the title. -/
theorem selectedRows_plain (platform : Platform) {city : String}
    (plain : PlainText city) (postAmigo : List Row) :
    selectedRows platform city postAmigo = postAmigo.filter (inCity city) := by
  simp only [selectedRows, splice_plain plain]
  exact List.filter_congr fun row _ => by simp only [inCity, splice_plain plain]

/-- A row named by a plain string is one whose POSTID contains it. -/
theorem namedBy_plain {postIds : String}
    (plain : PlainText postIds) (row : Row) :
    namedBy postIds row = true ↔
      ∃ text, row.postId = some text ∧
        LikePattern.like (LikePattern.anywhere postIds.toList) text.toList = true := by
  simp only [namedBy, splice_plain plain, likeAnywhere]
  cases row.postId <;> simp

/-- A plain string names the rows whose POSTID it is. -/
theorem namedBy_self {postIds : String}
    (plain : PlainText postIds) {row : Row}
    (same : row.postId = some postIds) : namedBy postIds row = true :=
  (namedBy_plain plain row).mpr ⟨postIds, same, LikePattern.like_anywhere_self _⟩

end Amigo
