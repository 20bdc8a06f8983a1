import Amigo.RowidTable
import Amigo.SyncMerge

/-!
# The order a merge leaves

SQLite keeps POSTAMIGO in a tree ordered by rowid, gives a replaced row a new
rowid and scans without an order by rowid. The list of rows used everywhere else
is what such a scan sees, so a merge moves the rows it stores to the end, in the
order of the fetched list, and the others stay in their order. The fetched list
holds each post several times next to each other; every repetition moves the
same row to the same place. Merging the list again moves each row past the
others once more and ends where it began.
-/

namespace Amigo

/-- No string of the post contains U+0000. -/
def Post.Clean (post : Post) : Prop :=
  ∀ text ∈ [post.id, post.title, post.placeLocation, post.placeImage, post.userName, post.recText,
    post.userId, post.postId], nul ∉ text.toList

instance (post : Post) : Decidable post.Clean :=
  inferInstanceAs (Decidable (∀ text ∈ [post.id, post.title, post.placeLocation, post.placeImage,
    post.userName, post.recText, post.userId, post.postId], nul ∉ text.toList))

/-- The row bound for a clean post holds its fields whole. -/
theorem Post.Clean.row {post : Post} (clean : post.Clean) : post.row = post.columns := by
  have whole : ∀ text ∈ [post.id, post.title, post.placeLocation, post.placeImage, post.userName,
      post.recText, post.userId, post.postId], cString text = text :=
    fun text member => cString_clean (clean text member)
  simp only [List.forall_mem_cons] at whole
  obtain ⟨id, title, location, image, name, text, user, postId, _⟩ := whole
  simp only [Post.row, Post.columns, id, title, location, image, name, text, user, postId]

/-- The merge loop of `Model.getAllPosts` on the table itself. -/
def mergeTable (data : List Post) (postAmigo : RowidTable Row) : RowidTable Row :=
  data.foldl (fun table post => table.insertOrReplace samePrimaryKey post.row) postAmigo

/-- A scan of the merged table is the merged list of rows. -/
theorem mergeTable_scan (data : List Post) (postAmigo : RowidTable Row) :
    (mergeTable data postAmigo).scan = mergePosts data postAmigo.scan := by
  rw [Client.mergePosts_eq, ← RowidTable.scan_foldl, List.foldl_map]
  rfl

/-- Clean posts with distinct ids have rows with distinct keys. -/
theorem columns_separate {posts : List Post} (distinct : (posts.map Post.id).Nodup) :
    KeyedRows.Separate samePrimaryKey (posts.map Post.columns) := by
  refine List.pairwise_map.mpr ((List.pairwise_map.mp distinct).imp ?_)
  intro first second different same
  exact different (Option.some.inj same.1)

/-- Repeating posts and binding them is binding them and repeating their rows. -/
theorem repeated_columns {posts : List (Post × Nat)} (clean : ∀ entry ∈ posts, entry.1.Clean) :
    (KeyedRows.repeated posts).map Post.row =
      KeyedRows.repeated (posts.map (fun entry => (entry.1.columns, entry.2))) := by
  simp only [KeyedRows.repeated, List.map_flatMap, List.flatMap_map, List.map_replicate]
  apply List.flatMap_congr
  intro entry member
  rw [(clean entry member).row]

/-- A merge of posts, each repeated next to itself, leaves the other rows of the
table in their order and after them one row for each post, in their order; and
merging them again leaves the same scan. -/
theorem merge_keeps_order (postAmigo : RowidTable Row) (posts : List (Post × Nat))
    (clean : ∀ entry ∈ posts, entry.1.Clean)
    (distinct : (posts.map (fun entry => entry.1.id)).Nodup) :
    (mergeTable (KeyedRows.repeated posts) postAmigo).scan =
      postAmigo.scan.filter
          (fun row => decide (∀ entry ∈ posts, row.psId ≠ some entry.1.id)) ++
        posts.map (fun entry => entry.1.columns) ∧
    (mergeTable (KeyedRows.repeated posts) (mergeTable (KeyedRows.repeated posts) postAmigo)).scan =
      (mergeTable (KeyedRows.repeated posts) postAmigo).scan := by
  have self : ∀ row ∈ (KeyedRows.repeated posts).map Post.row, samePrimaryKey row row := by
    intro row member
    obtain ⟨post, _, rfl⟩ := List.mem_map.mp member
    exact ⟨rfl, by simp [Post.row]⟩
  constructor
  · have last : KeyedRows.lastOfEach samePrimaryKey ((KeyedRows.repeated posts).map Post.row) =
        posts.map (fun entry => entry.1.columns) := by
      have apart : KeyedRows.Separate samePrimaryKey
          ((posts.map (fun entry => (entry.1.columns, entry.2))).map Prod.fst) := by
        have rows : KeyedRows.Separate samePrimaryKey ((posts.map Prod.fst).map Post.columns) :=
          columns_separate (by rwa [List.map_map])
        rwa [List.map_map] at rows ⊢
      rw [repeated_columns clean, KeyedRows.lastOfEach_repeated ?_ apart, List.map_map]
      · rfl
      · intro entry member
        obtain ⟨source, _, rfl⟩ := List.mem_map.mp member
        exact ⟨rfl, by simp [Post.columns]⟩
    rw [mergeTable_scan, Client.mergePosts_eq, KeyedRows.upsertAll_eq, last]
    congr 1
    apply List.filter_congr
    intro row _
    apply decide_eq_decide.mpr
    constructor
    · intro apart entry member same
      refine apart entry.1.row (List.mem_map_of_mem ?_) ?_
      · exact List.mem_flatMap.mpr ⟨entry, member, by simp [List.replicate_succ]⟩
      · rw [(clean entry member).row]
        exact ⟨same, by simp [Post.columns]⟩
    · intro apart stored isStored touching
      obtain ⟨post, isRepeated, rfl⟩ := List.mem_map.mp isStored
      obtain ⟨entry, member, isPost⟩ := List.mem_flatMap.mp isRepeated
      rw [List.eq_of_mem_replicate isPost, (clean entry member).row] at touching
      exact apart entry member touching.1
  · simp only [mergeTable_scan, Client.mergePosts_eq]
    exact KeyedRows.upsertAll_again self

/-- A post with a text. -/
def noted (id recText : String) : Post := { id := id, recText := recText, postId := id }

/-- A post known from before and a new one, each fetched twice, merged into a table
of the first and another. -/
theorem merge_keeps_order_two :
    (mergeTable (KeyedRows.repeated [(noted "p1" "new", 1), (noted "p3" "new", 1)])
      (mergeTable [noted "p1" "old", noted "p2" "kept"] RowidTable.empty)).scan =
      [noted "p2" "kept", noted "p1" "new", noted "p3" "new"].map Post.columns := by
  rw [(merge_keeps_order _ [(noted "p1" "new", 1), (noted "p3" "new", 1)] (by decide) (by decide)).1]
  decide

end Amigo
