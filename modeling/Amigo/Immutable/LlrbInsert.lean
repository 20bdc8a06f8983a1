import Amigo.Immutable.LlrbNode

/-!
# Insertion keeps the tree balanced

A tree is well formed when its sizes are exact, no right child is red, no red
node has a red child and every path to an empty node passes the same number of
black ones. `fixUp` is the only method that repairs a node, so it is described
once, by what its two children look like: it leaves a node alone, rotates a red
right child over, flips two red children, or rotates and flips two red links in a
row. A red node whose left child may be red is loose; that is what insertion
hands up from a red node, and its black parent repairs it.
-/

namespace Amigo.Firestore

namespace LlrbNode

universe u v
variable {K : Type u} {V : Type v}

/-- The entries in order. -/
def entries : LlrbNode K V → List (K × V)
  | .empty _ => []
  | .node entry _ _ left right => left.entries ++ entry :: right.entries

/-- The empty node has no entries. -/
@[simp] theorem entries_emptyRep : (emptyRep : LlrbNode K V).entries = [] := rfl

/-- A well-formed tree with its root's color and its number of black nodes on a path. -/
inductive Valid : LlrbNode K V → Color → Nat → Prop
  | empty : Valid (.empty .black) .black 0
  | red {entry : K × V} {size height : Nat} {left right : LlrbNode K V}
      (isLeft : Valid left .black height) (isRight : Valid right .black height)
      (sized : size = left.size + 1 + right.size) :
      Valid (.node entry .red size left right) .red height
  | black {entry : K × V} {size height : Nat} {color : Color} {left right : LlrbNode K V}
      (isLeft : Valid left color height) (isRight : Valid right .black height)
      (sized : size = left.size + 1 + right.size) :
      Valid (.node entry .black size left right) .black (height + 1)

/-- A red node of a well-formed tree, but for its left child, which may be red too. -/
def Loose (node : LlrbNode K V) (height : Nat) : Prop :=
  ∃ entry color left right, node = .node entry .red (left.size + 1 + right.size) left right ∧
    Valid left color height ∧ Valid right .black height

/-- The color of a valid node. -/
theorem Valid.color_eq {node : LlrbNode K V} {color : Color} {height : Nat}
    (valid : Valid node color height) : node.color = color := by
  cases valid <;> rfl

/-- Whether it is red. -/
theorem Valid.red_eq {node : LlrbNode K V} {color : Color} {height : Nat}
    (valid : Valid node color height) : node.red = (color == .red) := by
  rw [LlrbNode.red, valid.color_eq]

/-- The children of a red node are black. -/
theorem Valid.left_black {node : LlrbNode K V} {height : Nat} (valid : Valid node .red height) :
    node.left.red = false := by
  cases valid with
  | red isLeft => exact isLeft.red_eq

/-- No two red links follow each other. -/
theorem Valid.no_two_red {node : LlrbNode K V} {color : Color} {height : Nat}
    (valid : Valid node color height) : (node.red && node.left.red) = false := by
  cases valid with
  | empty => rfl
  | red isLeft => simp [isLeft.red_eq]
  | black => rfl

/-- A tree of black height zero has no black node. -/
theorem Valid.of_height_zero {node : LlrbNode K V} (valid : Valid node .black 0) :
    node = emptyRep := by
  cases valid
  rfl

/-- A stored size counts the entries. -/
theorem Valid.size_eq {node : LlrbNode K V} {color : Color} {height : Nat}
    (valid : Valid node color height) : node.size = node.entries.length := by
  induction valid with
  | empty => rfl
  | red _ _ sized left right =>
    simp only [size_node, entries, List.length_append, List.length_cons, sized, left, right]
    omega
  | black _ _ sized left right =>
    simp only [size_node, entries, List.length_append, List.length_cons, sized, left, right]
    omega

/-- Recoloring keeps the entries. -/
@[simp] theorem entries_setColor (color : Color) (node : LlrbNode K V) :
    (node.setColor color).entries = node.entries := by cases node <;> rfl

/-- It keeps the size. -/
@[simp] theorem size_setColor (color : Color) (node : LlrbNode K V) :
    (node.setColor color).size = node.size := by cases node <;> rfl

/-- A red node may be made black. -/
theorem Loose.blacken {node : LlrbNode K V} {height : Nat} (loose : Loose node height) :
    Valid (node.setColor .black) .black (height + 1) := by
  obtain ⟨entry, color, left, right, rfl, isLeft, isRight⟩ := loose
  exact .black isLeft isRight rfl

/-- A red node over valid children is loose. -/
theorem loose_node {entry : K × V} {size height : Nat} {color : Color} {left right : LlrbNode K V}
    (isLeft : Valid left color height) (isRight : Valid right .black height)
    (sized : size = left.size + 1 + right.size) :
    Loose (.node entry .red size left right) height :=
  ⟨entry, color, left, right, by rw [sized], isLeft, isRight⟩

/-- A valid red node is loose. -/
theorem Valid.loose {node : LlrbNode K V} {height : Nat} (valid : Valid node .red height) :
    Loose node height := by
  cases valid with
  | red isLeft isRight sized => exact loose_node isLeft isRight sized

/-- A loose node is red. -/
theorem Loose.red_eq {node : LlrbNode K V} {height : Nat} (loose : Loose node height) :
    node.red = true := by
  obtain ⟨entry, color, left, right, rfl, _⟩ := loose
  rfl

section FixUp

variable [Inhabited K] [Inhabited V] {entry : K × V} {color : Color} {size : Nat}
  {left right : LlrbNode K V}

/-- Nothing to repair but the size. -/
theorem fixUp_stay (isRight : right.red = false) (isLeft : (left.red && left.left.red) = false) :
    (LlrbNode.node entry color size left right).fixUp =
      .node entry color (left.size + 1 + right.size) left right := by
  simp [fixUp, setSize, isRight, isLeft]

/-- Two red children are flipped. -/
theorem fixUp_flip (isRight : right.red = true) (isLeft : left.red = true)
    (inner : left.left.red = false) :
    (LlrbNode.node entry color size left right).fixUp =
      .node entry color.opposite (left.size + 1 + right.size) (left.setColor .black)
        (right.setColor .black) := by
  have leftColor : left.color = .red := by simpa [red] using isLeft
  have rightColor : right.color = .red := by simpa [red] using isRight
  simp [fixUp, setSize, isRight, isLeft, inner, flipColor, leftColor, rightColor]

/-- A red right child is rotated over a black left one. -/
theorem fixUp_left {rightEntry : K × V} {rightSize : Nat} {inner outer : LlrbNode K V}
    (isLeft : left.red = false) (isOuter : outer.red = false) :
    (LlrbNode.node entry color size left (.node rightEntry .red rightSize inner outer)).fixUp =
      .node rightEntry color (left.size + 1 + rightSize)
        (.node entry .red (left.size + 1 + inner.size) left inner) outer := by
  simp [fixUp, setSize, isLeft, isOuter, rotateLeft]

/-- Two red links in a row on the left are rotated and flipped. -/
theorem fixUp_right {leftEntry : K × V} {leftSize : Nat} {outer inner : LlrbNode K V}
    (isRight : right.red = false) (isOuter : outer.red = true) :
    (LlrbNode.node entry color size (.node leftEntry .red leftSize outer inner) right).fixUp =
      .node leftEntry color.opposite (leftSize + 1 + right.size) (outer.setColor .black)
        (.node entry .black (inner.size + 1 + right.size) inner right) := by
  have outerColor : outer.color = .red := by simpa [red] using isOuter
  simp [fixUp, setSize, isRight, isOuter, rotateRight, flipColor, outerColor]

/-- Under a black node any two well-formed children of one height are repaired, and the
result is red only when both were. -/
theorem Valid.fixUp_black {leftColor rightColor : Color} {height : Nat}
    (isLeft : Valid left leftColor height) (isRight : Valid right rightColor height)
    (entry : K × V) (size : Nat) :
    (LlrbNode.node entry .black size left right).fixUp.entries =
        left.entries ++ entry :: right.entries ∧
      Valid (LlrbNode.node entry .black size left right).fixUp
        (if leftColor = .red ∧ rightColor = .red then .red else .black) (height + 1) := by
  cases rightColor with
  | black =>
    rw [fixUp_stay isRight.red_eq isLeft.no_two_red]
    exact ⟨rfl, by simpa using Valid.black isLeft isRight rfl⟩
  | red =>
    cases leftColor with
    | black =>
      cases isRight with
      | red inner outer sized =>
        rw [fixUp_left isLeft.red_eq outer.red_eq]
        refine ⟨by simp [entries], ?_⟩
        simpa using Valid.black (.red isLeft inner rfl) outer (by simp only [size_node]; omega)
    | red =>
      rw [fixUp_flip isRight.red_eq isLeft.red_eq isLeft.left_black]
      refine ⟨by simp [entries], ?_⟩
      simpa using Valid.red isLeft.loose.blacken isRight.loose.blacken rfl

/-- Under a red node two red children are flipped, and otherwise the result is loose; it
is well formed when both children are black. -/
theorem Valid.fixUp_red {leftColor rightColor : Color} {height : Nat}
    (isLeft : Valid left leftColor height) (isRight : Valid right rightColor height)
    (entry : K × V) (size : Nat) :
    (LlrbNode.node entry .red size left right).fixUp.entries =
        left.entries ++ entry :: right.entries ∧
      if leftColor = .red ∧ rightColor = .red then
        Valid (LlrbNode.node entry .red size left right).fixUp .black (height + 2)
      else Loose (LlrbNode.node entry .red size left right).fixUp height := by
  cases rightColor with
  | black =>
    rw [fixUp_stay isRight.red_eq isLeft.no_two_red]
    exact ⟨rfl, by simpa using loose_node isLeft isRight rfl⟩
  | red =>
    cases leftColor with
    | black =>
      cases isRight with
      | red inner outer sized =>
        rw [fixUp_left isLeft.red_eq outer.red_eq]
        refine ⟨by simp [entries], ?_⟩
        simpa using loose_node (.red isLeft inner rfl) outer (by simp only [size_node]; omega)
    | red =>
      rw [fixUp_flip isRight.red_eq isLeft.red_eq isLeft.left_black]
      refine ⟨by simp [entries], ?_⟩
      simpa using Valid.black isLeft.loose.blacken isRight.loose.blacken rfl

/-- A black node repairs a loose left child. -/
theorem Loose.fixUp {height : Nat} (loose : Loose left height) (isRight : Valid right .black height)
    (entry : K × V) (size : Nat) :
    (LlrbNode.node entry .black size left right).fixUp.entries =
        left.entries ++ entry :: right.entries ∧
      ∃ color, Valid (LlrbNode.node entry .black size left right).fixUp color (height + 1) := by
  obtain ⟨leftEntry, color, outer, inner, rfl, isOuter, isInner⟩ := loose
  cases color with
  | black =>
    obtain ⟨same, valid⟩ := Valid.fixUp_black (.red isOuter isInner rfl) isRight entry size
    exact ⟨same, _, valid⟩
  | red =>
    rw [fixUp_right isRight.red_eq isOuter.red_eq]
    refine ⟨by simp [entries], .red, ?_⟩
    refine .red isOuter.loose.blacken (.black isInner isRight rfl) ?_
    simp only [size_setColor, size_node]
    omega

end FixUp

section Insert

variable [Inhabited K] [Inhabited V] [LinearOrder K]

/-- Insertion below a root puts the entry in its place; a black root is well formed again,
a red one may have got a red left child. -/
theorem innerInsert_spec {node : LlrbNode K V} {color : Color} {height : Nat}
    (valid : Valid node color height) (sorted : SortedEntries.Sorted node.entries) (key : K)
    (value : V) :
    (node.innerInsert key value).entries = SortedEntries.put key value node.entries ∧
      (color = .black → ∃ after, Valid (node.innerInsert key value) after height) ∧
      (color = .red → Loose (node.innerInsert key value) height) := by
  induction valid with
  | empty =>
    refine ⟨rfl, fun _ => ⟨.red, .red .empty .empty rfl⟩, ?_⟩
    simp
  | @red entry size height left right isLeft isRight sized leftHypothesis rightHypothesis =>
    obtain ⟨lower, upper, _, _⟩ := SortedEntries.sorted_split.mp sorted
    simp only [innerInsert]
    split
    · rename_i before
      have below : key < entry.1 := compare_gt_iff_gt.mp before
      obtain ⟨same, repaired, _⟩ := leftHypothesis lower
      obtain ⟨after, isAfter⟩ := repaired rfl
      obtain ⟨kept, loose⟩ := isAfter.fixUp_red isRight entry size
      rw [kept, same, entries, SortedEntries.put_below sorted below]
      exact ⟨rfl, by simp, fun _ => by simpa using loose⟩
    · rename_i before
      have beyond : entry.1 < key := compare_lt_iff_lt.mp before
      obtain ⟨same, repaired, _⟩ := rightHypothesis upper
      obtain ⟨after, isAfter⟩ := repaired rfl
      obtain ⟨kept, loose⟩ := isLeft.fixUp_red isAfter entry size
      rw [kept, same, entries, SortedEntries.put_over sorted beyond]
      exact ⟨rfl, by simp, fun _ => by simpa using loose⟩
    · rename_i equal
      obtain rfl : entry.1 = key := compare_eq_iff_eq.mp equal
      rw [entries, entries, SortedEntries.put_same sorted]
      exact ⟨rfl, by simp, fun _ => loose_node isLeft isRight sized⟩
  | @black entry size height leftColor left right isLeft isRight sized leftHypothesis rightHypothesis =>
    obtain ⟨lower, upper, _, _⟩ := SortedEntries.sorted_split.mp sorted
    simp only [innerInsert]
    split
    · rename_i before
      have below : key < entry.1 := compare_gt_iff_gt.mp before
      obtain ⟨same, repaired, loosened⟩ := leftHypothesis lower
      have fixed : ((LlrbNode.node entry .black size (left.innerInsert key value) right).fixUp.entries =
          (left.innerInsert key value).entries ++ entry :: right.entries) ∧
          ∃ after, Valid (LlrbNode.node entry .black size (left.innerInsert key value) right).fixUp
            after (height + 1) := by
        cases leftColor with
        | black =>
          obtain ⟨after, isAfter⟩ := repaired rfl
          obtain ⟨kept, valid⟩ := isAfter.fixUp_black isRight entry size
          exact ⟨kept, _, valid⟩
        | red => exact (loosened rfl).fixUp isRight entry size
      rw [fixed.1, same, entries, SortedEntries.put_below sorted below]
      exact ⟨rfl, fun _ => fixed.2, by simp⟩
    · rename_i before
      have beyond : entry.1 < key := compare_lt_iff_lt.mp before
      obtain ⟨same, repaired, _⟩ := rightHypothesis upper
      obtain ⟨after, isAfter⟩ := repaired rfl
      obtain ⟨kept, valid⟩ := isLeft.fixUp_black isAfter entry size
      rw [kept, same, entries, SortedEntries.put_over sorted beyond]
      exact ⟨rfl, fun _ => ⟨_, valid⟩, by simp⟩
    · rename_i equal
      obtain rfl : entry.1 = key := compare_eq_iff_eq.mp equal
      rw [entries, entries, SortedEntries.put_same sorted]
      exact ⟨rfl, fun _ => ⟨_, .black isLeft isRight sized⟩, by simp⟩

end Insert

end LlrbNode

end Amigo.Firestore
