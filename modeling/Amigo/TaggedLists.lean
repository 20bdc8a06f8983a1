import Mathlib.Data.List.Forall2

/-!
# Lists with a tag at every place

A queue of work items loses an item anywhere, gains items at its end, and is emptied
as a whole. A second list that loses, gains and is emptied likewise keeps one tag with
every item, so a tag that fits its item goes on fitting the same item.
-/

namespace TaggedLists

universe u v
variable {α : Type u} {τ : Type v} {relation : α → τ → Prop}

/-- Bring the tags of a list to its new length: new items get the new tag. -/
def retag (tags : List τ) (new : τ) (length : Nat) : List τ :=
  (tags ++ List.replicate (length - tags.length) new).take length

/-- Nothing is tagged. -/
@[simp] theorem retag_zero (tags : List τ) (new : τ) : retag tags new 0 = [] := by
  simp [retag]

/-- The tags of a list that grew by some items. -/
theorem retag_append {kept added : List α} {tags : List τ} (new : τ)
    (aligned : kept.length = tags.length) :
    retag tags new (kept ++ added).length = tags ++ List.replicate added.length new := by
  have grown : (kept ++ added).length - tags.length = added.length := by
    rw [List.length_append]
    omega
  rw [retag, grown]
  apply List.take_of_length_le
  rw [List.length_append, List.length_append, List.length_replicate]
  omega

/-- One tag for all of some items. -/
theorem forall₂_replicate {items : List α} {tag : τ} (fits : ∀ item ∈ items, relation item tag) :
    List.Forall₂ relation items (List.replicate items.length tag) := by
  induction items with
  | nil => exact .nil
  | cons item rest inductionHypothesis =>
    exact .cons (fits item List.mem_cons_self)
      (inductionHypothesis (fun other member => fits other (List.mem_cons_of_mem _ member)))

/-- An item leaves with its tag. -/
theorem forall₂_eraseIdx {items : List α} {tags : List τ} (tagged : List.Forall₂ relation items tags)
    (index : Nat) : List.Forall₂ relation (items.eraseIdx index) (tags.eraseIdx index) := by
  induction tagged generalizing index with
  | nil => exact .nil
  | cons fits rest inductionHypothesis =>
    cases index with
    | zero => exact rest
    | succ index => exact .cons fits (inductionHypothesis index)

/-- The kept items keep their tags, and the added ones get the new tag. -/
theorem forall₂_retag {kept added : List α} {tags : List τ} {new : τ}
    (tagged : List.Forall₂ relation kept tags) (fits : ∀ item ∈ added, relation item new) :
    List.Forall₂ relation (kept ++ added) (retag tags new (kept ++ added).length) := by
  rw [retag_append new tagged.length_eq]
  exact List.rel_append tagged (forall₂_replicate fits)

/-- Items that are all kept keep their tags. -/
theorem forall₂_retag_kept {items : List α} {tags : List τ} (new : τ)
    (tagged : List.Forall₂ relation items tags) :
    List.Forall₂ relation items (retag tags new items.length) := by
  have same : retag tags new (items ++ []).length = tags ++ [] := retag_append new tagged.length_eq
  rw [List.append_nil, List.append_nil] at same
  rw [same]
  exact tagged

/-- A changed item keeps its tag when the change goes on fitting it. -/
theorem forall₂_modify {items : List α} {tags : List τ} (tagged : List.Forall₂ relation items tags)
    (index : Nat) {change : α → α} (fits : ∀ item tag, relation item tag → relation (change item) tag) :
    List.Forall₂ relation (items.modify index change) tags := by
  induction tagged generalizing index with
  | nil => simp
  | cons head rest inductionHypothesis =>
    cases index with
    | zero => exact .cons (fits _ _ head) rest
    | succ index => exact .cons head (inductionHypothesis index)

/-- An item has a tag at its place, and the tag fits. -/
theorem forall₂_getElem? {items : List α} {tags : List τ} (tagged : List.Forall₂ relation items tags)
    {index : Nat} {item : α} (found : items[index]? = some item) :
    ∃ tag, tags[index]? = some tag ∧ relation item tag := by
  induction tagged generalizing index with
  | nil => simp at found
  | cons fits rest inductionHypothesis =>
    cases index with
    | zero =>
      cases Option.some.inj found
      exact ⟨_, rfl, fits⟩
    | succ index => exact inductionHypothesis found

end TaggedLists
