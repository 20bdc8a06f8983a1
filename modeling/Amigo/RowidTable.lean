import Amigo.KeyedRows

/-!
# Rows under increasing rowids

A table keeps its rows in a tree ordered by an integer rowid. Here it is the list
of its entries in that order, and the order is part of the table. A new row gets
the rowid after the largest one in use. Replacing first removes the rows that
clash with the new one, so a replaced row moves to the end of the table. A scan
without an order visits the entries by rowid.

A scan therefore sees exactly the list of rows kept by replacing in insertion
order; rowids leave no other trace. Tables declared without a rowid, explicit
rowids in statements and the largest rowid there can be are not considered.
-/

universe u

/-- Entries in the order of their rowids. -/
structure RowidTable (α : Type u) where
  entries : List (Nat × α)
  increasing : entries.Pairwise (fun first second => first.1 < second.1)

namespace RowidTable

variable {α : Type u}

/-- The table of a fresh database. -/
def empty : RowidTable α := ⟨[], List.Pairwise.nil⟩

/-- The rows as an unordered scan visits them. -/
def scan (table : RowidTable α) : List α := table.entries.map Prod.snd

/-- The rowid a new row gets. -/
def newRowid (table : RowidTable α) : Nat :=
  (table.entries.map Prod.fst).foldr max 0 + 1

/-- Every rowid in use is below the new one. -/
theorem lt_newRowid {table : RowidTable α} {entry : Nat × α} (member : entry ∈ table.entries) :
    entry.1 < table.newRowid := by
  have bounded : ∀ rowids : List Nat, ∀ rowid ∈ rowids, rowid ≤ rowids.foldr max 0 := by
    intro rowids
    induction rowids with
    | nil => simp
    | cons first rest inductionHypothesis =>
      intro rowid member
      obtain rfl | later := List.mem_cons.mp member
      · exact Nat.le_max_left _ _
      · exact Nat.le_trans (inductionHypothesis rowid later) (Nat.le_max_right _ _)
  exact Nat.lt_succ_of_le (bounded _ _ (List.mem_map_of_mem member))

variable (clash : α → α → Prop) [DecidableRel clash]

/-- Remove the rows that clash with the new one and add it under a new rowid. -/
def insertOrReplace (row : α) (table : RowidTable α) : RowidTable α where
  entries := table.entries.filter (fun entry => decide (¬ clash entry.2 row)) ++
    [(table.newRowid, row)]
  increasing := by
    refine List.pairwise_append.mpr
      ⟨table.increasing.filter _, List.pairwise_singleton _ _, ?_⟩
    intro older member newer isNew
    rw [List.mem_singleton.mp isNew]
    exact lt_newRowid (List.mem_filter.mp member).1

variable {clash}

/-- A scan sees a replacement as a store in insertion order. -/
@[simp] theorem scan_insertOrReplace (row : α) (table : RowidTable α) :
    (table.insertOrReplace clash row).scan = KeyedRows.upsert clash row table.scan := by
  simp only [scan, insertOrReplace, KeyedRows.upsert, List.map_append, List.map_cons, List.map_nil,
    List.filter_map]
  rfl

/-- So it sees a list of replacements as a list of stores. -/
theorem scan_foldl (stored : List α) (table : RowidTable α) :
    (stored.foldl (fun replaced row => replaced.insertOrReplace clash row) table).scan =
      KeyedRows.upsertAll clash table.scan stored := by
  induction stored generalizing table with
  | nil => rfl
  | cons row rest inductionHypothesis =>
    rw [List.foldl_cons, inductionHypothesis, scan_insertOrReplace, KeyedRows.upsertAll_cons]

end RowidTable
