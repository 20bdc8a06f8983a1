import Mathlib.Algebra.Order.Ring.Nat
import Mathlib.Data.Nat.Log
import Amigo.Immutable.LlrbErase

/-!
# Maps kept in a tree

A tree map is a root node with the loops that read it. Each loop walks down once:
looking a key up, counting the entries before it with the stored sizes, or
collecting on a stack the nodes an iterator still has to visit. An iterator is
such a stack with the next node on top.

A balanced tree carries what its operations keep: the root is black and well
formed and the keys increase. The operations of the source are operations of
balanced trees, and on them every loop answers as the sorted list of entries
does.
-/

namespace Amigo.Firestore

universe u v
variable {K : Type u} {V : Type v} [LinearOrder K]

namespace LlrbNode

/-- `contains`. -/
def contains (key : K) : LlrbNode K V → Bool
  | .empty _ => false
  | .node entry _ _ left right =>
    match compare key entry.1 with
    | .eq => true
    | .lt => left.contains key
    | .gt => right.contains key

/-- `find_index`, with the nodes pruned so far. -/
def findIndex (key : K) (prunedNodes : Nat) : LlrbNode K V → Option Nat
  | .empty _ => none
  | .node entry _ _ left right =>
    match compare key entry.1 with
    | .eq => some (prunedNodes + left.size)
    | .lt => left.findIndex key prunedNodes
    | .gt => right.findIndex key (prunedNodes + (left.size + 1))

/-- Push a node and its left children, the top of the stack first. -/
def accumulateLeft (stack : List (LlrbNode K V)) : LlrbNode K V → List (LlrbNode K V)
  | .empty _ => stack
  | .node entry color size left right =>
    left.accumulateLeft (.node entry color size left right :: stack)

/-- The stack of the iterator at the first entry that is not below a key. -/
def lowerBound (key : K) (stack : List (LlrbNode K V)) : LlrbNode K V → List (LlrbNode K V)
  | .empty _ => stack
  | .node entry color size left right =>
    match compare key entry.1 with
    | .eq => .node entry color size left right :: stack
    | .lt => left.lowerBound key (.node entry color size left right :: stack)
    | .gt => right.lowerBound key stack

/-- The iterator's increment; it asserts that there is a node to leave. -/
def increment : List (LlrbNode K V) → Option (List (LlrbNode K V))
  | [] => none
  | top :: stack => some (top.right.accumulateLeft stack)

variable [Inhabited K] [Inhabited V]

/-- The entry an iterator points to. -/
def pointed (stack : List (LlrbNode K V)) : Option (K × V) := stack.head?.map LlrbNode.entry

/-- `find`: the lower bound, if it has the key. -/
def find (key : K) (root : LlrbNode K V) : Option (K × V) :=
  (pointed (root.lowerBound key [])).filter (fun entry => compare key entry.1 == .eq)

/-- A tree whose root is black and well formed and whose keys increase. -/
structure Balanced (root : LlrbNode K V) : Prop where
  valid : ∃ height, Valid root .black height
  sorted : SortedEntries.Sorted root.entries

omit [Inhabited K] [Inhabited V] in
/-- The empty tree is balanced. -/
theorem balanced_empty : Balanced (emptyRep : LlrbNode K V) := ⟨⟨0, .empty⟩, List.Pairwise.nil⟩

omit [LinearOrder K] [Inhabited K] [Inhabited V] in
/-- Recoloring the root keeps the entries. -/
theorem entries_fixRootColor (node : LlrbNode K V) : node.fixRootColor.entries = node.entries := by
  unfold fixRootColor
  split <;> simp

omit [LinearOrder K] [Inhabited K] [Inhabited V] in
/-- Whatever deletion or insertion leaves at the root is well formed once it is black. -/
theorem mended_root {height : Nat} {node : LlrbNode K V} (mended : Mended .black height node) :
    ∃ height, Valid node.fixRootColor .black height := by
  obtain ⟨height, valid | loose⟩ := mended
  · exact ⟨height, by simpa [fixRootColor, valid.red_eq] using valid⟩
  · exact ⟨height + 1, by simpa [fixRootColor, loose.red_eq] using loose.blacken⟩

/-- An insertion keeps the balance and puts its entry. -/
theorem Balanced.insert {root : LlrbNode K V} (balanced : Balanced root) (key : K) (value : V) :
    Balanced (root.insert key value) ∧
      (root.insert key value).entries = SortedEntries.put key value root.entries := by
  obtain ⟨⟨height, valid⟩, sorted⟩ := balanced
  obtain ⟨same, repaired, _⟩ := innerInsert_spec valid sorted key value
  have kept : (root.insert key value).entries = SortedEntries.put key value root.entries :=
    (entries_fixRootColor _).trans same
  refine ⟨⟨?_, kept ▸ sorted.put key value⟩, kept⟩
  obtain ⟨color, after⟩ := repaired rfl
  cases color with
  | black => exact mended_root (show Mended .black height _ from ⟨height, Or.inl after⟩)
  | red => exact mended_root (show Mended .black height _ from ⟨height, Or.inr after.loose⟩)

/-- A deletion keeps the balance and removes its entry. -/
theorem Balanced.erase {root : LlrbNode K V} (balanced : Balanced root) (key : K) :
    Balanced (root.erase key) ∧
      (root.erase key).entries = SortedEntries.remove key root.entries := by
  obtain ⟨⟨height, valid⟩, sorted⟩ := balanced
  have spec : (∃ height, Valid (root.erase key) .black height) ∧
      (root.innerErase key).entries = SortedEntries.remove key root.entries := by
    cases valid with
    | empty =>
      rw [LlrbNode.erase, show (LlrbNode.empty .black : LlrbNode K V) = emptyRep from rfl,
        innerErase_empty]
      exact ⟨⟨0, .empty⟩, rfl⟩
    | @black entry size height color left right isLeft isRight sized =>
      cases color with
      | black =>
        obtain ⟨mended, same⟩ := innerErase_spec (.ready (.two isLeft isRight)) sorted
        exact ⟨mended_root mended, same⟩
      | red =>
        obtain ⟨valid, same⟩ := innerErase_spec (.ready (.leaning isLeft isRight)) sorted
        exact ⟨mended_root (show Mended .black height _ from ⟨_, Or.inl valid⟩), same⟩
  have kept : (root.erase key).entries = SortedEntries.remove key root.entries :=
    (entries_fixRootColor _).trans spec.2
  exact ⟨⟨spec.1, kept ▸ sorted.remove key⟩, kept⟩

section Reads

omit [Inhabited K] [Inhabited V]

variable {node : LlrbNode K V}

/-- A key is contained when it has a value. -/
theorem contains_eq {key : K} (sorted : SortedEntries.Sorted node.entries) :
    node.contains key = (SortedEntries.get key node.entries).isSome := by
  induction node with
  | empty => rfl
  | node entry color size left right leftHypothesis rightHypothesis =>
    obtain ⟨lower, upper, _, _⟩ := SortedEntries.sorted_split.mp sorted
    rw [entries, SortedEntries.get_split sorted, contains]
    split
    · rename_i equal
      obtain rfl := compare_eq_iff_eq.mp equal
      simp
    · rename_i ascending
      simp [compare_lt_iff_lt.mp ascending, leftHypothesis lower]
    · rename_i descending
      have higher : entry.1 < key := compare_gt_iff_gt.mp descending
      simp [higher, higher.not_gt, rightHypothesis upper]

/-- The index of a key is the number of entries below it. -/
theorem findIndex_eq (key : K) {color : Color} {height : Nat} (valid : Valid node color height)
    (sorted : SortedEntries.Sorted node.entries) (prunedNodes : Nat) :
    node.findIndex key prunedNodes = (SortedEntries.get key node.entries).map
      (fun _ => prunedNodes + (node.entries.filter (fun entry => entry.1 < key)).length) := by
  induction node generalizing color height prunedNodes with
  | empty => rfl
  | node entry nodeColor size left right leftHypothesis rightHypothesis =>
    obtain ⟨lower, upper, _, _⟩ := SortedEntries.sorted_split.mp sorted
    obtain ⟨leftColor, leftHeight, isLeft⟩ : ∃ color height, Valid left color height := by
      cases valid with
      | red isLeft => exact ⟨_, _, isLeft⟩
      | black isLeft => exact ⟨_, _, isLeft⟩
    obtain ⟨rightHeight, isRight⟩ : ∃ height, Valid right .black height := by
      cases valid with
      | red _ isRight => exact ⟨_, isRight⟩
      | black _ isRight => exact ⟨_, isRight⟩
    rw [entries, SortedEntries.get_split sorted, SortedEntries.beneath_split sorted, findIndex]
    split
    · rename_i equal
      obtain rfl := compare_eq_iff_eq.mp equal
      simp [isLeft.size_eq]
    · rename_i ascending
      simp [compare_lt_iff_lt.mp ascending, leftHypothesis isLeft lower]
    · rename_i descending
      have higher : entry.1 < key := compare_gt_iff_gt.mp descending
      rw [rightHypothesis isRight upper]
      simp only [higher, higher.not_gt, ↓reduceIte, List.length_append, List.length_cons,
        isLeft.size_eq]
      cases SortedEntries.get key right.entries with
      | none => rfl
      | some =>
        simp only [Option.map_some, Option.some.injEq]
        omega

/-- The entries an iterator still visits. -/
def remaining (stack : List (LlrbNode K V)) : List (K × V) :=
  stack.flatMap fun
    | .empty _ => []
    | .node entry _ _ _ right => entry :: right.entries

omit [LinearOrder K] in
/-- Going down to the left, all entries of the node remain. -/
theorem remaining_accumulateLeft (stack : List (LlrbNode K V)) :
    remaining (node.accumulateLeft stack) = node.entries ++ remaining stack := by
  induction node generalizing stack with
  | empty => rfl
  | node entry color size left right leftHypothesis rightHypothesis =>
    rw [accumulateLeft, leftHypothesis]
    simp [remaining, entries]

/-- From the lower bound of a key remain the entries not below it. -/
theorem remaining_lowerBound (key : K) (sorted : SortedEntries.Sorted node.entries)
    (stack : List (LlrbNode K V)) :
    remaining (node.lowerBound key stack) =
      SortedEntries.above key node.entries ++ remaining stack := by
  induction node generalizing stack with
  | empty => rfl
  | node entry color size left right leftHypothesis rightHypothesis =>
    obtain ⟨lower, upper, below, _⟩ := SortedEntries.sorted_split.mp sorted
    rw [entries, SortedEntries.above_split sorted, lowerBound]
    split
    · rename_i equal
      obtain rfl := compare_eq_iff_eq.mp equal
      have none : SortedEntries.above entry.1 left.entries = [] :=
        List.filter_eq_nil_iff.mpr (fun other member => by simpa using below other member)
      simp [remaining, none]
    · rename_i ascending
      rw [leftHypothesis lower]
      simp [remaining, (compare_lt_iff_lt.mp ascending).le]
    · rename_i descending
      have higher : entry.1 < key := compare_gt_iff_gt.mp descending
      simp [rightHypothesis upper, higher.not_ge]

/-- The iterator's stack holds nodes only. -/
def Occupied (stack : List (LlrbNode K V)) : Prop := ∀ node ∈ stack, node.isEmpty = false

omit [LinearOrder K] in
/-- On the way down to the left only nodes with an entry are stacked. -/
theorem occupied_accumulateLeft {stack : List (LlrbNode K V)} (occupied : Occupied stack) :
    Occupied (node.accumulateLeft stack) := by
  induction node generalizing stack with
  | empty => exact occupied
  | node entry color size left right leftHypothesis rightHypothesis =>
    exact leftHypothesis (List.forall_mem_cons.mpr ⟨rfl, occupied⟩)

/-- So they are on the way to a lower bound. -/
theorem occupied_lowerBound {key : K} {stack : List (LlrbNode K V)} (occupied : Occupied stack) :
    Occupied (node.lowerBound key stack) := by
  induction node generalizing stack with
  | empty => exact occupied
  | node entry color size left right leftHypothesis rightHypothesis =>
    rw [lowerBound]
    split
    · exact List.forall_mem_cons.mpr ⟨rfl, occupied⟩
    · exact leftHypothesis (List.forall_mem_cons.mpr ⟨rfl, occupied⟩)
    · exact rightHypothesis occupied

end Reads

section Iterators

omit [LinearOrder K]

variable {stack : List (LlrbNode K V)}

/-- An iterator points to the first of the entries it still visits. -/
theorem pointed_eq (occupied : Occupied stack) : pointed stack = (remaining stack).head? := by
  cases stack with
  | nil => rfl
  | cons top rest =>
    have isNode := occupied top List.mem_cons_self
    cases top with
    | empty => simp [isEmpty] at isNode
    | node => rfl

omit [Inhabited K] [Inhabited V] in
/-- An increment leaves the first of the entries behind, and only the end has none. -/
theorem increment_eq (occupied : Occupied stack) :
    (increment stack).isSome = !(remaining stack).isEmpty ∧
      ∀ next, increment stack = some next →
        Occupied next ∧ remaining next = (remaining stack).tail := by
  cases stack with
  | nil => simp [increment, remaining]
  | cons top rest =>
    have isNode := occupied top List.mem_cons_self
    cases top with
    | empty => simp [isEmpty] at isNode
    | node entry color size left right =>
      refine ⟨rfl, ?_⟩
      intro next isNext
      cases Option.some.inj isNext
      refine ⟨occupied_accumulateLeft
        (fun node member => occupied node (List.mem_cons_of_mem _ member)), ?_⟩
      rw [remaining_accumulateLeft]
      rfl

end Iterators

section Height

omit [Inhabited K] [Inhabited V] [LinearOrder K]

/-- The nodes on the longest path. -/
def depth : LlrbNode K V → Nat
  | .empty _ => 0
  | .node _ _ _ left right => 1 + Nat.max left.depth right.depth

/-- At least every second node of a path is black, and a path that passes so many black
nodes is as long in every direction. -/
theorem Valid.bounded {node : LlrbNode K V} {color : Color} {height : Nat}
    (valid : Valid node color height) :
    node.depth ≤ 2 * height + (if color = .red then 1 else 0) ∧
      2 ^ height ≤ node.entries.length + 1 := by
  induction valid with
  | empty => exact ⟨Nat.le_refl _, Nat.le_refl _⟩
  | @red entry size height left right isLeft isRight sized leftHypothesis rightHypothesis =>
    simp only [reduceCtorEq, ↓reduceIte, depth, entries, List.length_append,
      List.length_cons] at leftHypothesis rightHypothesis ⊢
    refine ⟨?_, by omega⟩
    have deepest : Nat.max left.depth right.depth ≤ 2 * height :=
      Nat.max_le.mpr ⟨leftHypothesis.1, rightHypothesis.1⟩
    omega
  | @black entry size height color left right isLeft isRight sized leftHypothesis rightHypothesis =>
    simp only [reduceCtorEq, ↓reduceIte, depth, entries, List.length_append,
      List.length_cons] at rightHypothesis ⊢
    have leftDeep : left.depth ≤ 2 * height + 1 := by
      have deep := leftHypothesis.1
      split at deep <;> omega
    refine ⟨?_, by have := leftHypothesis.2; rw [Nat.pow_succ]; omega⟩
    have deepest : Nat.max left.depth right.depth ≤ 2 * height + 1 :=
      Nat.max_le.mpr ⟨leftDeep, by omega⟩
    omega

end Height

/-- A change of the tree. -/
def change (root : LlrbNode K V) : SortedEntries.Change K V → LlrbNode K V
  | .put key value => root.insert key value
  | .remove key => root.erase key

/-- A change keeps the balance and changes the entries. -/
theorem Balanced.change {root : LlrbNode K V} (balanced : Balanced root)
    (change : SortedEntries.Change K V) :
    Balanced (root.change change) ∧ (root.change change).entries = change.entries root.entries := by
  cases change with
  | put key value => exact balanced.insert key value
  | remove key => exact balanced.erase key

/-- So does any number of changes. -/
theorem Balanced.changes {root : LlrbNode K V} (balanced : Balanced root)
    (changes : List (SortedEntries.Change K V)) :
    Balanced (changes.foldl LlrbNode.change root) ∧ (changes.foldl LlrbNode.change root).entries =
      changes.foldl SortedEntries.Change.entries root.entries := by
  induction changes generalizing root with
  | nil => exact ⟨balanced, rfl⟩
  | cons change rest inductionHypothesis =>
    obtain ⟨kept, same⟩ := balanced.change change
    obtain ⟨result, entries⟩ := inductionHypothesis kept
    exact ⟨result, by rw [List.foldl_cons, entries, same, List.foldl_cons]⟩

/-- Any sequence of insertions and deletions leaves a balanced tree with the entries that
sequence leaves in a sorted list, exact sizes, and paths at most twice as long as the
number of entries demands. -/
theorem changes_keep_balanced (changes : List (SortedEntries.Change K V)) :
    let root := changes.foldl LlrbNode.change emptyRep
    Balanced root ∧ root.entries = changes.foldl SortedEntries.Change.entries [] ∧
      root.size = root.entries.length ∧ 2 ^ root.depth ≤ (root.size + 1) ^ 2 := by
  intro root
  obtain ⟨balanced, same⟩ := balanced_empty.changes changes
  obtain ⟨height, valid⟩ := balanced.valid
  obtain ⟨deep, wide⟩ := valid.bounded
  refine ⟨balanced, same, valid.size_eq, ?_⟩
  calc 2 ^ root.depth ≤ 2 ^ (2 * height) := Nat.pow_le_pow_right (by omega) (by simpa using deep)
    _ = (2 ^ height) ^ 2 := by rw [Nat.mul_comm, Nat.pow_mul]
    _ ≤ (root.size + 1) ^ 2 := Nat.pow_le_pow_left (valid.size_eq ▸ wide) 2

end LlrbNode

end Amigo.Firestore
