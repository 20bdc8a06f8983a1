import Mathlib.Order.Compare
import Mathlib.Tactic.Common
import Amigo.SortedEntries

/-!
# Left-leaning red-black nodes

The immutable sorted maps of the Firestore client keep their entries in
left-leaning red-black trees. A node has an entry, a color, the number of
entries at or beneath it and two children; the children of the shared empty node
are empty again. Every function below is a method of the node, in the order of
its own assignments: a method that changes its receiver returns the changed
node. Recolouring copies the node first, so it can also color an empty one; no
method asks that of a well-formed tree.

Insertion and deletion rotate and recolor on the way back. Deletion also
borrows a red link on the way down, and its receiver is not first made red at
the root, so there the way back ends in shapes that occur nowhere else.
-/

namespace Amigo.Firestore

universe u v

/-- The colors of the links between nodes. -/
inductive Color where
  | black
  | red
deriving DecidableEq

/-- `OppositeColor`. -/
def Color.opposite : Color → Color
  | .black => .red
  | .red => .black

/-- Black turns red. -/
@[simp] theorem opposite_black : Color.black.opposite = .red := rfl

/-- Red turns black. -/
@[simp] theorem opposite_red : Color.red.opposite = .black := rfl

/-- Turning a color over twice gives it back. -/
@[simp] theorem opposite_opposite (color : Color) : color.opposite.opposite = color := by
  cases color <;> rfl

/-- The nodes. The source keeps the color and the size in one word, of which the size has 31
bits; here it is any number, the same below 2^31 entries. -/
inductive LlrbNode (K : Type u) (V : Type v) where
  | empty (color : Color)
  | node (entry : K × V) (color : Color) (size : Nat) (left right : LlrbNode K V)
deriving DecidableEq

namespace LlrbNode

variable {K : Type u} {V : Type v}

/-- The shared empty node. -/
def emptyRep : LlrbNode K V := .empty .black

/-- `empty`. -/
def isEmpty : LlrbNode K V → Bool
  | .empty _ => true
  | .node .. => false

/-- `size`: the entries at or beneath a node, as stored. -/
def size : LlrbNode K V → Nat
  | .empty _ => 0
  | .node _ _ size _ _ => size

/-- `color`. -/
def color : LlrbNode K V → Color
  | .empty color => color
  | .node _ color _ _ _ => color

/-- `red`. -/
def red (node : LlrbNode K V) : Bool := node.color == .red

/-- `left`; the empty node is its own left child. -/
def left : LlrbNode K V → LlrbNode K V
  | .empty _ => emptyRep
  | .node _ _ _ left _ => left

/-- `right`; the empty node is its own right child. -/
def right : LlrbNode K V → LlrbNode K V
  | .empty _ => emptyRep
  | .node _ _ _ _ right => right

/-- `set_color`. -/
def setColor (color : Color) : LlrbNode K V → LlrbNode K V
  | .empty _ => .empty color
  | .node entry _ size left right => .node entry color size left right

/-- `set_entry`. -/
def setEntry (entry : K × V) : LlrbNode K V → LlrbNode K V
  | .empty color => .empty color
  | .node _ color size left right => .node entry color size left right

/-- `set_left`. -/
def setLeft (node left : LlrbNode K V) : LlrbNode K V :=
  match node with
  | .empty color => .empty color
  | .node entry color size _ right => .node entry color size left right

/-- `set_right`. -/
def setRight (node right : LlrbNode K V) : LlrbNode K V :=
  match node with
  | .empty color => .empty color
  | .node entry color size left _ => .node entry color size left right

section Simp

variable (key : K × V) (color : Color) (size : Nat) (left right : LlrbNode K V)

/-- The shared empty node is empty. -/
@[simp] theorem isEmpty_emptyRep : (emptyRep : LlrbNode K V).isEmpty = true := rfl

/-- The shared empty node is black. -/
@[simp] theorem red_emptyRep : (emptyRep : LlrbNode K V).red = false := rfl

/-- The shared empty node has no entries. -/
@[simp] theorem size_emptyRep : (emptyRep : LlrbNode K V).size = 0 := rfl

/-- The shared empty node is its own child. -/
@[simp] theorem left_emptyRep : (emptyRep : LlrbNode K V).left = emptyRep := rfl

/-- A node with an entry is not empty. -/
@[simp] theorem isEmpty_node : (LlrbNode.node key color size left right).isEmpty = false := rfl

/-- A node's left child is the one it was built from. -/
@[simp] theorem left_node : (LlrbNode.node key color size left right).left = left := rfl

/-- So is its right child. -/
@[simp] theorem right_node : (LlrbNode.node key color size left right).right = right := rfl

/-- The stored size of a node. -/
@[simp] theorem size_node : (LlrbNode.node key color size left right).size = size := rfl

/-- The color of a node. -/
@[simp] theorem color_node : (LlrbNode.node key color size left right).color = color := rfl

/-- A node is red when its color is. -/
@[simp] theorem red_node :
    (LlrbNode.node key color size left right).red = (color == .red) := rfl

/-- Recoloring keeps everything else. -/
@[simp] theorem setColor_node (other : Color) :
    (LlrbNode.node key color size left right).setColor other =
      .node key other size left right := rfl

/-- A new left child keeps everything else. -/
@[simp] theorem setLeft_node (other : LlrbNode K V) :
    (LlrbNode.node key color size left right).setLeft other =
      .node key color size other right := rfl

/-- So does a new right child. -/
@[simp] theorem setRight_node (other : LlrbNode K V) :
    (LlrbNode.node key color size left right).setRight other =
      .node key color size left other := rfl

end Simp

variable [Inhabited K] [Inhabited V]

/-- The entry of the empty node is the default one. -/
def entry : LlrbNode K V → K × V
  | .empty _ => default
  | .node entry _ _ _ _ => entry

/-- A node's entry is the one it was built from. -/
@[simp] theorem entry_node (entry : K × V) (color : Color) (size : Nat) (left right : LlrbNode K V) :
    (LlrbNode.node entry color size left right).entry = entry := rfl

/-- `RotateLeft`: the right child takes this node's place and color, and this node, now red,
becomes its left child. -/
def rotateLeft : LlrbNode K V → LlrbNode K V
  | .empty color => .empty color
  | .node entry color size left right =>
    .node right.entry color size
      (.node entry .red (left.size + 1 + right.left.size) left right.left) right.right

/-- `RotateRight`, the other way round. -/
def rotateRight : LlrbNode K V → LlrbNode K V
  | .empty color => .empty color
  | .node entry color size left right =>
    .node left.entry color size left.left
      (.node entry .red (left.right.size + 1 + right.size) left.right right)

omit [Inhabited K] [Inhabited V] in
/-- `FlipColor`: the node and both children change color. -/
def flipColor : LlrbNode K V → LlrbNode K V
  | .empty color => .empty color
  | .node entry color size left right =>
    .node entry color.opposite size (left.setColor left.color.opposite)
      (right.setColor right.color.opposite)

/-- The size `FixUp` sets first. -/
def setSize : LlrbNode K V → LlrbNode K V
  | .empty color => .empty color
  | .node entry color _ left right => .node entry color (left.size + 1 + right.size) left right

/-- `FixUp`: set the size, lean to the left, split two red links in a row, and pass a red link
up. -/
def fixUp (node : LlrbNode K V) : LlrbNode K V :=
  let sized := node.setSize
  let leaning := if sized.right.red && !sized.left.red then sized.rotateLeft else sized
  let rotated := if leaning.left.red && leaning.left.left.red then leaning.rotateRight else leaning
  if rotated.left.red && rotated.right.red then rotated.flipColor else rotated

/-- `FixRootColor`. -/
def fixRootColor (node : LlrbNode K V) : LlrbNode K V :=
  if node.red then node.setColor .black else node

/-- `MoveRedLeft`: borrow a red link for the left child, from above or from the right child. -/
def moveRedLeft (node : LlrbNode K V) : LlrbNode K V :=
  let flipped := node.flipColor
  if flipped.right.left.red then
    (flipped.setRight flipped.right.rotateRight).rotateLeft.flipColor
  else flipped

/-- `MoveRedRight`: borrow a red link for the right child. -/
def moveRedRight (node : LlrbNode K V) : LlrbNode K V :=
  let flipped := node.flipColor
  if flipped.left.left.red then flipped.rotateRight.flipColor else flipped

/-- The leftmost node. -/
def min : LlrbNode K V → LlrbNode K V
  | .empty color => .empty color
  | .node entry color size (.empty other) right => .node entry color size (.empty other) right
  | .node _ _ _ (.node entry color size left right) _ => min (.node entry color size left right)

/-- The rightmost node. -/
def max : LlrbNode K V → LlrbNode K V
  | .empty color => .empty color
  | .node entry color size left (.empty other) => .node entry color size left (.empty other)
  | .node _ _ _ _ (.node entry color size left right) => max (.node entry color size left right)

/-- The nodes of a tree, and its empty nodes that were colored red: what deletion descends
into always has less of both. -/
def weight : LlrbNode K V → Nat
  | .empty .black => 0
  | .empty .red => 1
  | .node _ _ _ left right => 1 + left.weight + right.weight

omit [Inhabited K] [Inhabited V] in
/-- A left child has no more of both. -/
theorem weight_left (node : LlrbNode K V) : node.left.weight ≤ node.weight := by
  cases node <;> simp [left, emptyRep, weight]
  omega

omit [Inhabited K] [Inhabited V] in
/-- One with an entry has less. -/
theorem weight_left_lt {node : LlrbNode K V} (occupied : node.left.isEmpty = false) :
    node.left.weight < node.weight := by
  cases node with
  | empty => simp [left, emptyRep, isEmpty] at occupied
  | node =>
    simp only [left, weight]
    omega

/-- Borrowing for the left child leaves it less than the whole was. -/
theorem weight_moveRedLeft {node : LlrbNode K V} (occupied : node.left.isEmpty = false) :
    node.moveRedLeft.left.weight < node.weight := by
  obtain _ | ⟨entry, color, size, _ | ⟨leftEntry, leftColor, leftSize, first, second⟩, right⟩ := node
  · simp [left, emptyRep, isEmpty] at occupied
  · simp [left, isEmpty] at occupied
  · simp only [moveRedLeft]
    split
    · rename_i borrowed
      obtain other | ⟨rightEntry, rightColor, rightSize, third, fourth⟩ := right
      · simp [flipColor, LlrbNode.right, setColor, left, emptyRep, red, LlrbNode.color] at borrowed
      · have smaller := weight_left third
        simp only [flipColor, setColor, LlrbNode.right, LlrbNode.left, setRight, rotateRight,
          rotateLeft, weight] at smaller ⊢
        omega
    · simp only [flipColor, setColor, LlrbNode.left, weight]
      omega

/-- So it does for the right child. -/
theorem weight_moveRedRight {node : LlrbNode K V} (occupied : node.right.isEmpty = false) :
    node.moveRedRight.right.weight < node.weight := by
  obtain _ | ⟨entry, color, size, left, _ | ⟨rightEntry, rightColor, rightSize, third, fourth⟩⟩ := node
  · simp [right, emptyRep, isEmpty] at occupied
  · simp [right, isEmpty] at occupied
  · simp only [moveRedRight]
    split
    · rename_i borrowed
      obtain other | ⟨leftEntry, leftColor, leftSize, first, second⟩ := left
      · simp [flipColor, LlrbNode.left, setColor, emptyRep, red, LlrbNode.color] at borrowed
      · simp only [flipColor, setColor, LlrbNode.right, LlrbNode.left, rotateRight, weight]
        omega
    · simp only [flipColor, setColor, LlrbNode.right, weight]
      omega

/-- Turned right at a red left child, the new right child is less than the whole. -/
theorem weight_rotateRight {node : LlrbNode K V} (leaning : node.left.red = true) :
    node.rotateRight.right.weight < node.weight := by
  obtain _ | ⟨entry, color, size, _ | ⟨leftEntry, leftColor, leftSize, first, second⟩, right⟩ := node
  · simp [left, emptyRep, red, LlrbNode.color] at leaning
  · rename_i leftColor
    cases leftColor
    · simp [left, red, LlrbNode.color] at leaning
    · simp [rotateRight, LlrbNode.right, emptyRep, weight]
  · simp only [rotateRight, LlrbNode.left, LlrbNode.right, weight]
    omega

/-- That turn adds nothing. -/
theorem weight_rotated {node : LlrbNode K V} (leaning : node.left.red = true) :
    node.rotateRight.weight ≤ node.weight := by
  obtain _ | ⟨entry, color, size, _ | ⟨leftEntry, leftColor, leftSize, first, second⟩, right⟩ := node
  · simp [left, emptyRep, red, LlrbNode.color] at leaning
  · rename_i leftColor
    cases leftColor
    · simp [left, red, LlrbNode.color] at leaning
    · simp only [rotateRight, LlrbNode.left, LlrbNode.right, emptyRep, weight]
      omega
  · simp only [rotateRight, LlrbNode.left, LlrbNode.right, weight]
    omega

/-- `RemoveMin`. -/
def removeMin (node : LlrbNode K V) : LlrbNode K V :=
  if node.left.isEmpty then emptyRep
  else
    let leaned := if !node.left.red && !node.left.left.red then node.moveRedLeft else node
    (leaned.setLeft leaned.left.removeMin).fixUp
termination_by node.weight
decreasing_by
  rename_i occupied
  split
  · exact weight_moveRedLeft (by simpa using occupied)
  · exact weight_left_lt (by simpa using occupied)

/-- Deletion turns a red left child over before it goes right. -/
def turned (node : LlrbNode K V) : LlrbNode K V := if node.left.red then node.rotateRight else node

/-- Deletion then borrows a red link for the right child. -/
def borrowed (node : LlrbNode K V) : LlrbNode K V :=
  if !node.right.isEmpty && !node.right.red && !node.right.left.red then node.moveRedRight else node

/-- However deletion prepared the way, the right child it enters is less. -/
theorem weight_turned_borrowed {node : LlrbNode K V} (occupied : node.isEmpty = false) :
    node.turned.borrowed.right.weight < node.weight := by
  have turnedRight : node.turned.right.weight < node.weight := by
    unfold turned
    split
    · exact weight_rotateRight ‹_›
    · cases node with
      | empty => simp [isEmpty] at occupied
      | node =>
        simp only [right_node, weight]
        omega
  have turnedWhole : node.turned.weight ≤ node.weight := by
    unfold turned
    split
    · exact weight_rotated ‹_›
    · exact Nat.le_refl _
  unfold borrowed
  split
  · rename_i borrows
    simp only [Bool.and_eq_true, Bool.not_eq_true'] at borrows
    exact Nat.lt_of_lt_of_le (weight_moveRedRight borrows.1.1) turnedWhole
  · exact turnedRight

variable [LinearOrder K]

/-- `InnerInsert`: descend by the order of the keys, and fix up on the way back. -/
def innerInsert (key : K) (value : V) : LlrbNode K V → LlrbNode K V
  | .empty _ => .node (key, value) .red 1 emptyRep emptyRep
  | .node entry color size left right =>
    match compare entry.1 key with
    | .gt => (node entry color size (left.innerInsert key value) right).fixUp
    | .lt => (node entry color size left (right.innerInsert key value)).fixUp
    | .eq => .node (entry.1, value) color size left right

/-- `insert`. -/
def insert (key : K) (value : V) (root : LlrbNode K V) : LlrbNode K V :=
  (root.innerInsert key value).fixRootColor

/-- `InnerErase`: descend by the order of the keys, borrowing a red link wherever the child
entered has none, and fix up on the way back. -/
def innerErase (key : K) (node : LlrbNode K V) : LlrbNode K V :=
  if node.isEmpty then emptyRep
  else if compare key node.entry.1 = .lt then
    let leaned :=
      if !node.left.isEmpty && !node.left.red && !node.left.left.red then node.moveRedLeft else node
    (leaned.setLeft (leaned.left.innerErase key)).fixUp
  else
    let leaned := node.turned.borrowed
    if compare key leaned.entry.1 = .eq then
      if leaned.right.isEmpty then emptyRep
      else
        -- the minimum of the right subtree takes the place of this entry
        (leaned.setEntry leaned.right.min.entry |>.setRight leaned.right.removeMin).fixUp
    else (leaned.setRight (leaned.right.innerErase key)).fixUp
termination_by node.weight
decreasing_by
  · rename_i occupied _
    split
    · rename_i borrows
      simp only [Bool.and_eq_true, Bool.not_eq_true'] at borrows
      exact weight_moveRedLeft borrows.1.1
    · cases node with
      | empty => simp [isEmpty] at occupied
      | node =>
        simp only [left_node, weight]
        omega
  · rename_i occupied _ _
    exact weight_turned_borrowed (by simpa using occupied)

/-- `erase`. -/
def erase (key : K) (root : LlrbNode K V) : LlrbNode K V :=
  (root.innerErase key).fixRootColor

end LlrbNode

end Amigo.Firestore
