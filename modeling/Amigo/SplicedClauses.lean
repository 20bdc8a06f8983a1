import Amigo.FetchedPosts
import Amigo.WellFormed

/-!
# What a spliced LIKE clause selects

The local delete and the local read look for one string in one column, by
splicing it between percent signs into a LIKE pattern. Their cloud siblings
compare strings for equality. The two agree on a row when the pattern occurs in
the text of its column just when that text is the string: an occurrence inside a
longer text, in another ASCII case or through a wildcard is one too many, and a
pair of quotes in the string, which the literal reads as one, can lose the string
itself. Where the text breaks off inside a literal nothing is selected at all, so no row
may have the string.

Both statements are one clause with parameters, and the condition is stated once
for both. A string that ends the literal and goes on as other SQL is left to SQLite: it
can name any clause on the table and any parameter the caller binds, and what it selects
is not decided by the string alone. Identifiers are equal when their characters are,
titles when they are canonically equivalent.
-/

namespace Amigo

/-- The pattern made of the string selects, of these rows, those whose text in the column
equals it. -/
def SinglesOut (equal : String → Prop) (column : Row → Option String) (spliced : String)
    (rows : List Row) : Prop :=
  match splice spliced with
  | .literal body => ∀ row ∈ rows, ∀ text, column row = some text →
      (LikePattern.Occurs body text.toList ↔ equal text)
  | .unprepared => ∀ row ∈ rows, ∀ text, column row = some text → ¬ equal text
  | .other => False

/-- A clause in a closed literal looks for an occurrence of its body. -/
theorem likeAnywhere_iff (body : List Char) (column : Option String) :
    likeAnywhere body column = true ↔
      ∃ text, column = some text ∧ LikePattern.Occurs body text.toList := by
  cases column with
  | none => simp [likeAnywhere]
  | some text => simp [likeAnywhere, LikePattern.like_anywhere_iff_occurs]

/-- Two filters of a list agree exactly when the two tests agree on its members. -/
theorem filter_same_iff {α : Type*} (first second : α → Bool) (rows : List α) :
    rows.filter first = rows.filter second ↔ ∀ row ∈ rows, first row = second row := by
  constructor
  · intro same row member
    have kept : row ∈ rows.filter first ↔ row ∈ rows.filter second := by rw [same]
    rw [List.mem_filter, List.mem_filter] at kept
    exact Bool.eq_iff_iff.mpr (by simpa only [member, true_and] using kept)
  · exact List.filter_congr

/-- A clause in a closed literal selects the equal rows exactly when it singles them out. -/
theorem selects_iff (equal : String → Bool) (column : Row → Option String) {spliced : String}
    {body : List Char} (closed : splice spliced = .literal body) (rows : List Row) :
    SinglesOut (fun text => equal text = true) column spliced rows ↔
      ∀ row ∈ rows, likeAnywhere body (column row) = (column row).any equal := by
  simp only [SinglesOut, closed]
  refine forall₂_congr (fun row _ => ?_)
  rw [Bool.eq_iff_iff, likeAnywhere_iff]
  cases column row with
  | none => simp
  | some text => simp

/-- Nothing selected is right exactly when no row is equal. -/
theorem selectsNone_iff (equal : String → Bool) (column : Row → Option String) {spliced : String}
    (broken : splice spliced = .unprepared) (rows : List Row) :
    SinglesOut (fun text => equal text = true) column spliced rows ↔
      ∀ row ∈ rows, (column row).any equal = false := by
  simp only [SinglesOut, broken]
  refine forall₂_congr (fun row _ => ?_)
  cases column row with
  | none => simp
  | some text => simp

/-- A string without quotes and U+0000 that equals itself alone singles rows out exactly
when it occurs in no other text of the column. -/
theorem singlesOut_plain (column : Row → Option String) {spliced : String}
    (plain : PlainText spliced) (rows : List Row) :
    SinglesOut (· = spliced) column spliced rows ↔ ∀ row ∈ rows, ∀ text, column row = some text →
      LikePattern.Occurs spliced.toList text.toList → text = spliced := by
  simp only [SinglesOut, splice_plain plain]
  refine forall₂_congr (fun row _ => forall₂_congr (fun text _ => ⟨Iff.mp, fun alone => ⟨alone, ?_⟩⟩))
  rintro rfl
  exact LikePattern.occurs_self text.toList

/-- A plain string, and so every identifier or city, fails to single out the rows
whose text only contains it. -/
theorem singlesOut_longer {equal : String → Prop} {column : Row → Option String} {spliced : String}
    (plain : PlainText spliced) {rows : List Row} {row : Row} (member : row ∈ rows)
    {left right : String} (longer : column row = some (left ++ spliced ++ right))
    (more : ¬ equal (left ++ spliced ++ right)) : ¬ SinglesOut equal column spliced rows := by
  simp only [SinglesOut, splice_plain plain]
  intro singled
  apply more
  apply (singled row member _ longer).mp
  simpa only [String.toList_append] using
    (LikePattern.occurs_self spliced.toList).within left.toList right.toList

/-! ## The local delete -/

/-- The delete removes the rows whose POSTID is the string, and no other. -/
def DeletesExactly (platform : Platform) (receiver : Post) (postIds : String)
    (postAmigo : List Row) : Prop :=
  deleteFromDb platform receiver postIds postAmigo =
    postAmigo.filter (fun row => decide (row.postId ≠ some postIds))

/-- The delete removes exactly the named rows if the string singles them out by their
POSTID, and only then unless it goes on as other SQL. -/
theorem delete_exact_iff (platform : Platform) (receiver : Post) (postIds : String)
    (postAmigo : List Row) :
    (SinglesOut (· = postIds) Row.postId postIds postAmigo →
      DeletesExactly platform receiver postIds postAmigo) ∧
    (splice postIds ≠ .other → DeletesExactly platform receiver postIds postAmigo →
      SinglesOut (· = postIds) Row.postId postIds postAmigo) := by
  have equal : (· = postIds) = fun text => decide (text = postIds) = true := by simp
  have named (row : Row) : decide (row.postId ≠ some postIds) =
      !row.postId.any (fun text => decide (text = postIds)) := by
    cases row.postId <;> simp
  rw [equal]
  cases splices : splice postIds with
  | literal body =>
    have exact : DeletesExactly platform receiver postIds postAmigo ↔
        SinglesOut (fun text => decide (text = postIds) = true) Row.postId postIds postAmigo := by
      simp only [DeletesExactly, deleteFromDb, splices, filter_same_iff, named, Bool.not_inj_iff,
        selects_iff _ _ splices]
    exact ⟨exact.mpr, fun _ => exact.mp⟩
  | unprepared =>
    have exact : DeletesExactly platform receiver postIds postAmigo ↔
        SinglesOut (fun text => decide (text = postIds) = true) Row.postId postIds postAmigo := by
      simp only [DeletesExactly, deleteFromDb, splices, selectsNone_iff _ _ splices, named]
      rw [eq_comm, List.filter_eq_self]
      simp
    exact ⟨exact.mpr, fun _ => exact.mp⟩
  | other => simp [SinglesOut, splices]

/-- Two identifiers that differ in case only: deleting one removes both. -/
theorem delete_not_always_exact : ¬ ∀ (platform : Platform) (receiver : Post) (postIds : String)
    (postAmigo : List Row), DeletesExactly platform receiver postIds postAmigo := by
  intro always
  have exact := always Platform.plain { id := "aB3dE6gH9jK2mN5pQ8sT" } "aB3dE6gH9jK2mN5pQ8sT"
    [Post.row { id := "aB3dE6gH9jK2mN5pQ8sT", postId := "aB3dE6gH9jK2mN5pQ8sT" },
      Post.row { id := "Ab3dE6gH9jK2mN5pQ8sT", postId := "Ab3dE6gH9jK2mN5pQ8sT" }]
  exact absurd exact (by unfold DeletesExactly; decide +kernel)

/-- Generated identifiers have one length, so among them a delete is exact when no
other differs in case only. -/
theorem delete_generated_iff (platform : Platform) (receiver : Post) {postIds : String}
    (isGenerated : generated postIds = true) {postAmigo : List Row}
    (rowsGenerated : ∀ row ∈ postAmigo, ∃ id, row.postId = some id ∧ generated id = true) :
    DeletesExactly platform receiver postIds postAmigo ↔ ∀ row ∈ postAmigo, ∀ id,
      row.postId = some id →
        LikePattern.foldCase postIds.toList = LikePattern.foldCase id.toList → id = postIds := by
  have length {id : String} (form : generated id = true) : id.toList.length = 20 := by
    simp only [generated, Bool.and_eq_true, beq_iff_eq] at form
    rw [String.length_toList]
    exact form.1
  have wildcardFree : LikePattern.Plain postIds.toList := by
    intro letter member
    have alphanumeric := generated_alphanumeric isGenerated letter member
    constructor
    · rintro rfl
      exact absurd alphanumeric (by decide)
    · rintro rfl
      exact absurd alphanumeric (by decide)
  have plain := generated_plain isGenerated
  obtain ⟨enough, needed⟩ := delete_exact_iff platform receiver postIds postAmigo
  have closed : splice postIds ≠ .other := by simp [splice_plain plain]
  have exact : DeletesExactly platform receiver postIds postAmigo ↔
      SinglesOut (· = postIds) Row.postId postIds postAmigo := ⟨needed closed, enough⟩
  rw [exact, singlesOut_plain Row.postId plain]
  refine forall₂_congr (fun row member => ?_)
  obtain ⟨id, hasId, idGenerated⟩ := rowsGenerated row member
  simp only [hasId, Option.some.injEq, forall_eq']
  rw [LikePattern.occurs_same_length wildcardFree ((length isGenerated).trans (length idGenerated).symm)]

/-! ## The city filters -/

/-- The document a post's write leaves passes the title filter of the fetch. -/
def CloudAccepts (platform : Platform) (city : String) (stamp : Stamp) (post : Post) : Prop :=
  ∃ data, matchingPosts platform (some city) [⟨post.id, resolve stamp post.toJson⟩] = some data ∧
    data ≠ []

/-- The cloud compares the title with the city. -/
theorem cloudAccepts_iff (platform : Platform) (city : String) (stamp : Stamp) (post : Post) :
    CloudAccepts platform city stamp post ↔ platform.same post.title city = true := by
  have titled : (resolve stamp post.toJson).string "title" = some post.title :=
    (initJson_fields (initJson_resolve_toJson stamp post)).2.1
  have compared : platform.isCity (some city) post.title = platform.same post.title city := rfl
  cases same : platform.same post.title city with
  | true => simp [CloudAccepts, matchingPosts, titled, compared, same, initJson_resolve_toJson]
  | false => simp [CloudAccepts, matchingPosts, titled, compared, same]

/-- The two filters accept the same titles of a table, and the local read returns
the rows of the city, each once. -/
structure FiltersAgree (platform : Platform) (city : String) (postAmigo : List Row) : Prop where
  sameTitles : ∀ row ∈ postAmigo, ∀ post : Post, row.title = some post.title → ∀ stamp,
    (row ∈ selectedRows platform city postAmigo ↔ CloudAccepts platform city stamp post)
  exactRows : selectedRows platform city postAmigo =
    postAmigo.filter (fun row => row.title.any fun title => platform.same title city)
  exactRead : getAllPostsFromDb platform city postAmigo =
    readRows (postAmigo.filter (fun row => row.title.any fun title => platform.same title city))

/-- Filters that return the same rows agree. -/
theorem filtersAgree_iff (platform : Platform) (city : String) (postAmigo : List Row) :
    FiltersAgree platform city postAmigo ↔ selectedRows platform city postAmigo =
      postAmigo.filter (fun row => row.title.any fun title => platform.same title city) := by
  refine ⟨FiltersAgree.exactRows, fun exact => ⟨?_, exact, by rw [getAllPostsFromDb, exact]⟩⟩
  intro row member post titled stamp
  rw [exact, List.mem_filter, cloudAccepts_iff, titled]
  simp [member]

/-- The local city filter and the cloud city filter agree on a table if the city singles
out every row of it by its TITLE, and only then unless it goes on as other SQL. -/
theorem city_filters_agree_iff (platform : Platform) (city : String) (postAmigo : List Row) :
    (SinglesOut (fun title => platform.same title city = true) Row.title city postAmigo →
      FiltersAgree platform city postAmigo) ∧
    (splice city ≠ .other → FiltersAgree platform city postAmigo →
      SinglesOut (fun title => platform.same title city = true) Row.title city postAmigo) := by
  rw [filtersAgree_iff]
  cases splices : splice city with
  | literal body =>
    have exact : selectedRows platform city postAmigo = postAmigo.filter
          (fun row => row.title.any fun title => platform.same title city) ↔
        SinglesOut (fun title => platform.same title city = true) Row.title city postAmigo := by
      simp only [selectedRows, splices, filter_same_iff, selects_iff _ _ splices]
    exact ⟨exact.mpr, fun _ => exact.mp⟩
  | unprepared =>
    have exact : selectedRows platform city postAmigo = postAmigo.filter
          (fun row => row.title.any fun title => platform.same title city) ↔
        SinglesOut (fun title => platform.same title city = true) Row.title city postAmigo := by
      simp only [selectedRows, splices, selectsNone_iff _ _ splices]
      rw [eq_comm, List.filter_eq_nil_iff]
      simp
    exact ⟨exact.mpr, fun _ => exact.mp⟩
  | other => simp [SinglesOut, splices]

/-- Before the first city is read, the local read returns the rows of every city. -/
theorem city_filters_not_always_agree : ¬ ∀ (platform : Platform) (city : String)
    (postAmigo : List Row), FiltersAgree platform city postAmigo := by
  intro always
  have agree := always Platform.plain ""
    [Post.row { id := "AAAAAAAAAAAAAAAAAAA1", title := "Haifa" }]
  exact absurd agree.exactRows (by decide +kernel)

/-- The empty city selects every row with a title. -/
theorem inCity_empty (row : Row) : inCity "" row = true ↔ row.title ≠ none := by
  simp only [inCity, splice_plain (show PlainText "" by decide), likeAnywhere_iff,
    String.toList_empty, LikePattern.occurs_nil, and_true, ne_eq, Option.ne_none_iff_exists']

end Amigo
