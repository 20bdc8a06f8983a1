import Amigo.Immutable.LlrbInsert

/-!
# Deletion keeps the tree balanced

Deletion walks down to the key and must never take a black node out. Before each
step it makes sure that the child it goes to is red or has a red left child,
borrowing a red link from the other side where it must. What comes back is
described by what went in: a black node with a red left child stays black and
keeps its height, a red node keeps its height and may turn black. At the root
alone a black node may have two black children. There the borrowing colors the
root red, and the result can be a red root over a red child; making the root
black at the end repairs exactly that.

On the way right, borrowing can leave a black node with a red right child. It is
entered only with a key that is not below its own, so its left side stays as it is.
-/

namespace Amigo.Firestore

namespace LlrbNode

universe u v
variable {K : Type u} {V : Type v}

/-- What becomes of a node whose children were both black: a red node keeps its height; a
black one is the root, and is well formed once it is made black. -/
def Mended : Color → Nat → LlrbNode K V → Prop
  | .red, height, after => ∃ color, Valid after color height
  | .black, _, after => ∃ height, Valid after .black height ∨ Loose after height

/-- A node deletion may enter, with what it then makes of it. -/
inductive Ready : LlrbNode K V → (LlrbNode K V → Prop) → Prop
  | two {entry : K × V} {color : Color} {size height : Nat} {left right : LlrbNode K V}
      (isLeft : Valid left .black height) (isRight : Valid right .black height) :
      Ready (.node entry color size left right) (Mended color height)
  | leaning {entry : K × V} {size height : Nat} {left right : LlrbNode K V}
      (isLeft : Valid left .red height) (isRight : Valid right .black height) :
      Ready (.node entry .black size left right) (fun node => Valid node .black (height + 1))

/-- A black node with a black and then a red child may be entered for a key that is not
below its own. -/
inductive Erasable [LinearOrder K] (key : K) : LlrbNode K V → (LlrbNode K V → Prop) → Prop
  | ready {node : LlrbNode K V} {target : LlrbNode K V → Prop} (ready : Ready node target) :
      Erasable key node target
  | borrowed {entry : K × V} {size height : Nat} {left right : LlrbNode K V}
      (isLeft : Valid left .black height) (isRight : Valid right .red height)
      (notBelow : entry.1 ≤ key) :
      Erasable key (.node entry .black size left right) (fun node => Valid node .black (height + 1))

/-- A red node is ready. -/
theorem Ready.of_red {node : LlrbNode K V} {height : Nat} (valid : Valid node .red height) :
    Ready node (Mended .red height) := by
  cases valid with
  | red isLeft isRight => exact .two isLeft isRight

/-- A black node with a red left child. -/
theorem Ready.of_leaning {node : LlrbNode K V} {height : Nat} (valid : Valid node .black height)
    (leaning : node.left.red = true) : Ready node (fun after => Valid after .black height) := by
  cases valid with
  | empty => simp [LlrbNode.left] at leaning
  | @black entry size height color left right isLeft isRight sized =>
    have isRed : color = .red := by simpa [isLeft.red_eq] using leaning
    subst isRed
    exact .leaning isLeft isRight

/-- The parts of a black node with no red child. -/
theorem Valid.two {node : LlrbNode K V} {height : Nat} (valid : Valid node .black height)
    (occupied : node.isEmpty = false) (upright : node.left.red = false) :
    ∃ entry size left right lower, node = .node entry .black size left right ∧
      height = lower + 1 ∧ Valid left .black lower ∧ Valid right .black lower ∧
      size = left.size + 1 + right.size := by
  cases valid with
  | empty => simp [isEmpty] at occupied
  | @black entry size lower color left right isLeft isRight sized =>
    have isBlack : color = .black := by
      cases color
      · rfl
      · simp [isLeft.red_eq] at upright
    subst isBlack
    exact ⟨entry, size, left, right, lower, rfl, rfl, isLeft, isRight, sized⟩

/-- The parts of a black node with a red left child. -/
theorem Valid.three {node : LlrbNode K V} {height : Nat} (valid : Valid node .black height)
    (leaning : node.left.red = true) :
    ∃ entry size leftEntry leftSize outer inner right lower,
      node = .node entry .black size (.node leftEntry .red leftSize outer inner) right ∧
      height = lower + 1 ∧ Valid outer .black lower ∧ Valid inner .black lower ∧
      Valid right .black lower ∧ leftSize = outer.size + 1 + inner.size := by
  cases valid with
  | empty => simp [LlrbNode.left] at leaning
  | @black entry size lower color left right isLeft isRight sized =>
    have isRed : color = .red := by simpa [isLeft.red_eq] using leaning
    subst isRed
    cases isLeft with
    | red isOuter isInner sizedLeft =>
      exact ⟨_, _, _, _, _, _, _, lower, rfl, rfl, isOuter, isInner, isRight, sizedLeft⟩

/-- A tree that is not empty has a positive black height or is red. -/
theorem Valid.occupied {node : LlrbNode K V} {height : Nat} (valid : Valid node .black (height + 1)) :
    node.isEmpty = false := by
  cases valid
  rfl

/-- A ready node has an entry. -/
theorem Ready.occupied {node : LlrbNode K V} {target : LlrbNode K V → Prop}
    (ready : Ready node target) : node.isEmpty = false := by
  cases ready <;> rfl

/-- So has one a key can be erased from. -/
theorem Erasable.occupied [LinearOrder K] {key : K} {node : LlrbNode K V}
    {target : LlrbNode K V → Prop} (erasable : Erasable key node target) : node.isEmpty = false := by
  cases erasable with
  | ready ready => exact ready.occupied
  | borrowed => rfl

/-- A node with black children and nothing on one side is a leaf. -/
theorem Valid.leaf {left right : LlrbNode K V} {height : Nat} (isLeft : Valid left .black height)
    (isRight : Valid right .black height) (vacant : left.isEmpty = true ∨ right.isEmpty = true) :
    left = emptyRep ∧ right = emptyRep := by
  have lowest : height = 0 := by
    obtain vacant | vacant := vacant
    · cases isLeft
      · rfl
      · simp [isEmpty] at vacant
    · cases isRight
      · rfl
      · simp [isEmpty] at vacant
  subst lowest
  exact ⟨isLeft.of_height_zero, isRight.of_height_zero⟩

/-- The empty node is mended. -/
theorem mended_empty (color : Color) : Mended color 0 (emptyRep : LlrbNode K V) := by
  cases color
  · exact ⟨0, Or.inl .empty⟩
  · exact ⟨_, .empty⟩

variable [Inhabited K] [Inhabited V] {entry : K × V} {color : Color} {size : Nat}
  {left right : LlrbNode K V}

/-- Two black children again: the node keeps its color. -/
theorem mended_stay {height : Nat} (isLeft : Valid left .black height)
    (isRight : Valid right .black height) (entry : K × V) (color : Color) (size : Nat) :
    (LlrbNode.node entry color size left right).fixUp.entries =
        left.entries ++ entry :: right.entries ∧
      Mended color height (LlrbNode.node entry color size left right).fixUp := by
  rw [fixUp_stay isRight.red_eq isLeft.no_two_red]
  refine ⟨rfl, ?_⟩
  cases color with
  | black => exact ⟨_, Or.inl (.black isLeft isRight rfl)⟩
  | red => exact ⟨_, .red isLeft isRight rfl⟩

/-- The children the node has made red by flipping it. -/
theorem mended_flip {leftColor rightColor : Color} {height : Nat}
    (isLeft : Valid left leftColor height) (isRight : Valid right rightColor height)
    (entry : K × V) (color : Color) (size : Nat) :
    (LlrbNode.node entry color.opposite size left right).fixUp.entries =
        left.entries ++ entry :: right.entries ∧
      Mended color (height + 1) (LlrbNode.node entry color.opposite size left right).fixUp := by
  cases color with
  | red =>
    obtain ⟨kept, valid⟩ := isLeft.fixUp_black isRight entry size
    exact ⟨kept, _, valid⟩
  | black =>
    obtain ⟨kept, loose⟩ := isLeft.fixUp_red isRight entry size
    refine ⟨kept, ?_⟩
    split at loose
    · exact ⟨_, Or.inl loose⟩
    · exact ⟨_, Or.inr loose⟩

/-- Where the right child leans on nothing red, borrowing only turns colors over. -/
theorem moveRedLeft_flip (upright : right.left.red = false) :
    (LlrbNode.node entry color size left right).moveRedLeft =
      .node entry color.opposite size (left.setColor left.color.opposite)
        (right.setColor right.color.opposite) := by
  have same : (right.setColor right.color.opposite).left = right.left := by cases right <;> rfl
  simp [moveRedLeft, flipColor, same, upright]

/-- Else the inner grandchild comes to the top. -/
theorem moveRedLeft_borrow {rightEntry innerEntry : K × V} {rightSize innerSize : Nat}
    {inner outer last : LlrbNode K V} (isBlack : left.color = .black) :
    (LlrbNode.node entry color size left
        (.node rightEntry .black rightSize (.node innerEntry .red innerSize inner outer) last)).moveRedLeft =
      .node innerEntry color size (.node entry .black (left.size + 1 + inner.size)
          (left.setColor .red) inner)
        (.node rightEntry .black (outer.size + 1 + last.size) outer last) := by
  simp [moveRedLeft, flipColor, rotateRight, rotateLeft, isBlack]

/-- The same to the right, where the left child leans on nothing red. -/
theorem moveRedRight_flip (upright : left.left.red = false) :
    (LlrbNode.node entry color size left right).moveRedRight =
      .node entry color.opposite size (left.setColor left.color.opposite)
        (right.setColor right.color.opposite) := by
  have same : (left.setColor left.color.opposite).left = left.left := by cases left <;> rfl
  simp [moveRedRight, flipColor, same, upright]

/-- Else the left child comes to the top. -/
theorem moveRedRight_borrow {leftEntry outerEntry : K × V} {leftSize outerSize : Nat}
    {outer inner last : LlrbNode K V} (isBlack : right.color = .black) :
    (LlrbNode.node entry color size
        (.node leftEntry .black leftSize (.node outerEntry .red outerSize outer inner) last)
        right).moveRedRight =
      .node leftEntry color size (.node outerEntry .black outerSize outer inner)
        (.node entry .black (last.size + 1 + right.size) last (right.setColor .red)) := by
  simp [moveRedRight, flipColor, rotateRight, isBlack]

section Left

variable [LinearOrder K]

/-- The way left: a child that may be entered, the same entries, an entry that is not
below the node's own, and any result the child may come back with, repaired. -/
def EntersLeft (node leaned : LlrbNode K V) (target : LlrbNode K V → Prop) : Prop :=
  ∃ entry color size left right next, leaned = .node entry color size left right ∧
    Ready left next ∧ left.entries ++ entry :: right.entries = node.entries ∧
    (SortedEntries.Sorted node.entries → node.entry.1 ≤ entry.1) ∧
    ∀ after, next after →
      (LlrbNode.node entry color size after right).fixUp.entries =
          after.entries ++ entry :: right.entries ∧
        target (LlrbNode.node entry color size after right).fixUp

/-- A ready node can be entered to the left once it has borrowed. -/
theorem Ready.entersLeft {node : LlrbNode K V} {target : LlrbNode K V → Prop}
    (ready : Ready node target) (occupied : node.left.isEmpty = false) :
    EntersLeft node (if !node.left.red && !node.left.left.red then node.moveRedLeft else node)
      target := by
  cases ready with
  | @leaning entry size height left right isLeft isRight =>
    refine ⟨entry, .black, size, left, right, _, ?_, .of_red isLeft, rfl, fun _ => le_rfl, ?_⟩
    · simp [isLeft.red_eq]
    · rintro after ⟨color, isAfter⟩
      obtain ⟨kept, valid⟩ := isAfter.fixUp_black isRight entry size
      exact ⟨kept, by simpa using valid⟩
  | @two entry color size height left right isLeft isRight =>
    by_cases leaning : left.left.red = true
    · refine ⟨entry, color, size, left, right, _, ?_, .of_leaning isLeft leaning, rfl,
        fun _ => le_rfl, fun after isAfter => mended_stay isAfter isRight entry color size⟩
      simp [leaning]
    · have upright : left.left.red = false := by simpa using leaning
      obtain ⟨leftEntry, leftSize, outer, inner, lower, rfl, rfl, isOuter, isInner, leftSized⟩ :=
        isLeft.two occupied upright
      have borrows : (!(LlrbNode.node leftEntry .black leftSize outer inner).red &&
          !outer.red) = true := by simpa using upright
      simp only [left_node, borrows, ↓reduceIte]
      by_cases rightLeaning : right.left.red = true
      · -- the right child gives its red link to the left one
        obtain ⟨rightEntry, rightSize, innerEntry, innerSize, third, fourth, last, height, rfl, same,
          isThird, isFourth, isLast, _⟩ := isRight.three rightLeaning
        cases same
        rw [moveRedLeft_borrow rfl]
        refine ⟨innerEntry, color, size, _, _, _, rfl,
          .leaning (.red isOuter isInner leftSized) isThird, by simp [entries], ?_,
          fun after isAfter => mended_stay isAfter (.black isFourth isLast rfl) innerEntry color size⟩
        intro sorted
        obtain ⟨_, _, _, upper⟩ := SortedEntries.sorted_split.mp sorted
        exact (upper innerEntry (by simp [entries])).le
      · -- both children and the node are flipped
        have rightUpright : right.left.red = false := by simpa using rightLeaning
        obtain ⟨rightEntry, rightSize, third, last, height, rfl, same, isThird, isLast, rightSized⟩ :=
          isRight.two isRight.occupied rightUpright
        cases same
        rw [moveRedLeft_flip rightUpright]
        refine ⟨entry, color.opposite, size, _, _, _, rfl,
          .of_red (.red isOuter isInner leftSized), by simp [entries], fun _ => le_rfl, ?_⟩
        rintro after ⟨afterColor, isAfter⟩
        exact mended_flip isAfter (.red isThird isLast rightSized) entry color size

end Left

section Right

variable [LinearOrder K]

/-- The way right, for a key that is not below the node's own. The entry may be replaced,
but only when it is the one to delete; its successor is then taken from a child in order. -/
def EntersRight (key : K) (node leaned : LlrbNode K V) (target : LlrbNode K V → Prop) : Prop :=
  ∃ entry color size left right next, leaned = .node entry color size left right ∧
    right.isEmpty = false ∧ Erasable key right next ∧
    left.entries ++ entry :: right.entries = node.entries ∧
    (SortedEntries.Sorted node.entries → entry.1 ≤ key ∧ (entry.1 = key → Ready right next)) ∧
    ∀ entry after, next after →
      (LlrbNode.node entry color size left after).fixUp.entries =
          left.entries ++ entry :: after.entries ∧
        target (LlrbNode.node entry color size left after).fixUp

/-- A node prepared for it can be entered to the right. -/
theorem Erasable.entersRight {key : K} {node : LlrbNode K V} {target : LlrbNode K V → Prop}
    (erasable : Erasable key node target) (notBelow : node.entry.1 ≤ key)
    (occupied : node.turned.right.isEmpty = false) :
    EntersRight key node node.turned.borrowed target := by
  cases erasable with
  | @borrowed entry size height left right isLeft isRight =>
    have same : (LlrbNode.node entry .black size left right).turned =
        .node entry .black size left right := by simp [turned, isLeft.red_eq]
    rw [same]
    refine ⟨entry, .black, size, left, right, _, by simp [LlrbNode.borrowed, isRight.red_eq], by cases isRight; rfl,
      .ready (.of_red isRight), rfl, fun _ => ⟨notBelow, fun _ => .of_red isRight⟩, ?_⟩
    rintro other after ⟨color, isAfter⟩
    obtain ⟨kept, valid⟩ := isLeft.fixUp_black isAfter other size
    exact ⟨kept, by simpa using valid⟩
  | ready ready =>
    cases ready with
    | @leaning entry size height left right isLeft isRight =>
      cases isLeft with
      | @red leftEntry leftSize height outer inner isOuter isInner leftSized =>
        have rotated : (LlrbNode.node entry .black size (.node leftEntry .red leftSize outer inner)
            right).turned = .node leftEntry .black size outer
              (.node entry .red (inner.size + 1 + right.size) inner right) := by
          simp [turned, rotateRight]
        have isNew : Valid (.node entry .red (inner.size + 1 + right.size) inner right) .red height :=
          .red isInner isRight rfl
        rw [rotated]
        refine ⟨leftEntry, .black, size, outer, _, _, by simp [LlrbNode.borrowed], rfl, .ready (.of_red isNew),
          by simp [entries], ?_, ?_⟩
        · intro sorted
          obtain ⟨_, _, lower, _⟩ := SortedEntries.sorted_split.mp sorted
          have below : leftEntry.1 < entry.1 := lower leftEntry (by simp [entries])
          exact ⟨(below.trans_le notBelow).le, fun _ => .of_red isNew⟩
        · rintro other after ⟨color, isAfter⟩
          obtain ⟨kept, valid⟩ := isOuter.fixUp_black isAfter other size
          exact ⟨kept, by simpa using valid⟩
    | @two entry color size height left right isLeft isRight =>
      have same : (LlrbNode.node entry color size left right).turned =
          .node entry color size left right := by simp [turned, isLeft.red_eq]
      rw [same] at occupied ⊢
      by_cases leaning : right.left.red = true
      · refine ⟨entry, color, size, left, right, _, by simp [LlrbNode.borrowed, leaning], occupied,
          .ready (.of_leaning isRight leaning), rfl,
          fun _ => ⟨notBelow, fun _ => .of_leaning isRight leaning⟩,
          fun other after isAfter => mended_stay isLeft isAfter other color size⟩
      · have upright : right.left.red = false := by simpa using leaning
        have borrows : (LlrbNode.node entry color size left right).borrowed =
            (LlrbNode.node entry color size left right).moveRedRight := by
          have filled : right.isEmpty = false := occupied
          simp [LlrbNode.borrowed, isRight.red_eq, upright, filled]
        rw [borrows]
        obtain ⟨rightEntry, rightSize, inner, outer, lower, rfl, rfl, isInner, isOuter, rightSized⟩ :=
          isRight.two occupied upright
        by_cases leftLeaning : left.left.red = true
        · -- the left child gives its red link to the right one
          obtain ⟨leftEntry, leftSize, outerEntry, outerSize, first, second, third, height, rfl, equal,
            isFirst, isSecond, isThird, outerSized⟩ := isLeft.three leftLeaning
          cases equal
          rw [moveRedRight_borrow rfl]
          refine ⟨leftEntry, color, size, _, _, _, rfl, rfl,
            .borrowed isThird (.red isInner isOuter rightSized) notBelow, by simp [entries], ?_,
            fun other after isAfter =>
              mended_stay (.black isFirst isSecond outerSized) isAfter other color size⟩
          intro sorted
          obtain ⟨_, _, under, _⟩ := SortedEntries.sorted_split.mp sorted
          have below : leftEntry.1 < key :=
            (under leftEntry (by simp [entries])).trans_le notBelow
          exact ⟨below.le, fun equal => absurd equal below.ne⟩
        · -- both children and the node are flipped
          have leftUpright : left.left.red = false := by simpa using leftLeaning
          obtain ⟨leftEntry, leftSize, first, second, height, rfl, equal, isFirst, isSecond,
            leftSized⟩ := isLeft.two isLeft.occupied leftUpright
          cases equal
          rw [moveRedRight_flip leftUpright]
          have isRed : Valid (.node rightEntry .red rightSize inner outer) .red lower :=
            .red isInner isOuter rightSized
          refine ⟨entry, color.opposite, size, _, _, _, rfl, rfl, .ready (.of_red isRed),
            by simp [entries], fun _ => ⟨notBelow, fun _ => .of_red isRed⟩, ?_⟩
          rintro other after ⟨afterColor, isAfter⟩
          exact mended_flip (.red isFirst isSecond leftSized) isAfter other color size

end Right

/-- The leftmost node has the first entry. -/
theorem entries_min {node : LlrbNode K V} (occupied : node.isEmpty = false) :
    node.entries = node.min.entry :: node.entries.tail := by
  fun_induction LlrbNode.min node with
  | case1 => simp [isEmpty] at occupied
  | case2 => rfl
  | case3 entry color size right leftEntry leftColor leftSize left inner inductionHypothesis =>
    rw [entries, inductionHypothesis rfl]
    rfl

/-- The rightmost node has the last entry. -/
theorem entries_max {node : LlrbNode K V} (occupied : node.isEmpty = false) :
    node.entries.getLast? = some node.max.entry := by
  fun_induction LlrbNode.max node with
  | case1 => simp [isEmpty] at occupied
  | case2 => simp [entries]
  | case3 entry color size left rightEntry rightColor rightSize inner right inductionHypothesis =>
    have last := inductionHypothesis rfl
    rw [entries, List.getLast?_append, List.getLast?_cons, last]
    rfl

/-- Taking out the leftmost node takes out the first entry. -/
theorem removeMin_spec [LinearOrder K] {node : LlrbNode K V} {target : LlrbNode K V → Prop}
    (ready : Ready node target) :
    target node.removeMin ∧ node.removeMin.entries = node.entries.tail := by
  induction weighed : node.weight using Nat.strongRecOn generalizing node target with
  | _ weight inductionHypothesis =>
    rw [removeMin]
    split
    · rename_i vacant
      cases ready with
      | leaning isLeft => cases isLeft; simp at vacant
      | two isLeft isRight =>
        obtain ⟨rfl, rfl⟩ := isLeft.leaf isRight (Or.inl vacant)
        cases isLeft
        exact ⟨mended_empty _, rfl⟩
    · rename_i occupied
      have filled : node.left.isEmpty = false := by simpa using occupied
      obtain ⟨entry, color, size, left, right, next, isLeaned, enters, same, _, repaired⟩ :=
        ready.entersLeft filled
      have smaller : left.weight < weight := by
        have descends : (if !node.left.red && !node.left.left.red then node.moveRedLeft
            else node).left.weight < node.weight := by
          split
          · exact weight_moveRedLeft filled
          · exact weight_left_lt filled
        rw [isLeaned] at descends
        exact weighed ▸ descends
      obtain ⟨reached, fewer⟩ := inductionHypothesis _ smaller enters rfl
      obtain ⟨kept, done⟩ := repaired _ reached
      simp only [isLeaned, left_node, setLeft_node]
      refine ⟨done, ?_⟩
      rw [kept, fewer, ← same, entries_min enters.occupied]
      rfl

section Erase

variable [LinearOrder K] {key : K} {node : LlrbNode K V} {target : LlrbNode K V → Prop}

/-- Nothing is erased from the empty node. -/
theorem innerErase_empty (key : K) : (emptyRep : LlrbNode K V).innerErase key = emptyRep := by
  rw [innerErase]
  simp

/-- A node that turns to an empty right side is a leaf. -/
theorem Erasable.bare (erasable : Erasable key node target)
    (vacant : node.turned.right.isEmpty = true) :
    ∃ entry color size, node = .node entry color size emptyRep emptyRep ∧ target = Mended color 0 := by
  cases erasable with
  | borrowed isLeft isRight =>
    cases isRight
    simp [turned, isLeft.red_eq] at vacant
  | ready ready =>
    cases ready with
    | leaning isLeft =>
      cases isLeft
      simp [turned, rotateRight] at vacant
    | @two entry color size height left right isLeft isRight =>
      have same : right.isEmpty = true := by simpa [turned, isLeft.red_eq] using vacant
      obtain ⟨rfl, rfl⟩ := isLeft.leaf isRight (Or.inr same)
      cases isLeft
      exact ⟨entry, color, size, rfl, rfl⟩

/-- Deletion on the left of a node. -/
theorem innerErase_below (occupied : node.isEmpty = false) (below : key < node.entry.1)
    (filled : node.left.isEmpty = false) :
    ∃ leaned, leaned = (if !node.left.red && !node.left.left.red then node.moveRedLeft else node) ∧
      leaned.left.weight < node.weight ∧
      node.innerErase key = (leaned.setLeft (leaned.left.innerErase key)).fixUp := by
  refine ⟨_, rfl, ?_, ?_⟩
  · split
    · exact weight_moveRedLeft filled
    · exact weight_left_lt filled
  · have ascending : compare key node.entry.1 = .lt := compare_lt_iff_lt.mpr below
    rw [innerErase]
    simp [occupied, ascending, filled]

/-- Deletion at a node or on its right. -/
theorem innerErase_over (occupied : node.isEmpty = false) (notBelow : node.entry.1 ≤ key) :
    node.innerErase key =
      if key = node.turned.borrowed.entry.1 then
        if node.turned.borrowed.right.isEmpty then emptyRep
        else (node.turned.borrowed.setEntry node.turned.borrowed.right.min.entry |>.setRight
          node.turned.borrowed.right.removeMin).fixUp
      else (node.turned.borrowed.setRight (node.turned.borrowed.right.innerErase key)).fixUp := by
  have notAscending : compare key node.entry.1 ≠ .lt := by
    simpa [compare_lt_iff_lt] using notBelow
  rw [innerErase]
  simp [occupied, notAscending]

/-- Deletion below a node that may be entered. -/
theorem innerErase_spec (erasable : Erasable key node target)
    (sorted : SortedEntries.Sorted node.entries) :
    target (node.innerErase key) ∧
      (node.innerErase key).entries = SortedEntries.remove key node.entries := by
  induction weighed : node.weight using Nat.strongRecOn generalizing node target with
  | _ weight inductionHypothesis =>
    by_cases below : key < node.entry.1
    · have ready : Ready node target := by
        cases erasable with
        | ready ready => exact ready
        | borrowed _ _ notBelow => exact absurd below (not_lt.mpr notBelow)
      cases filled : node.left.isEmpty with
      | true =>
        cases ready with
        | leaning isLeft => cases isLeft; simp at filled
        | @two entry color size height left right isLeft isRight =>
          obtain ⟨rfl, rfl⟩ := isLeft.leaf isRight (Or.inl filled)
          have ascending : compare key entry.1 = .lt := compare_lt_iff_lt.mpr below
          have others : entry.1 ≠ key := below.ne'
          have result : (LlrbNode.node entry color size emptyRep emptyRep).innerErase key =
              (LlrbNode.node entry color size emptyRep emptyRep).fixUp := by
            rw [innerErase]
            simp [ascending, innerErase_empty]
          obtain ⟨kept, done⟩ := mended_stay isLeft isRight entry color size
          rw [result]
          exact ⟨done, by simp [kept, entries, SortedEntries.remove, others]⟩
      | false =>
        obtain ⟨leaned, isLeaned, smaller, result⟩ := innerErase_below ready.occupied below filled
        obtain ⟨entry, color, size, left, right, next, isNode, enters, same, atLeast, repaired⟩ :=
          ready.entersLeft filled
        obtain rfl := isLeaned.trans isNode
        have whole := same ▸ sorted
        obtain ⟨reached, fewer⟩ := inductionHypothesis _ (weighed ▸ smaller) (.ready enters)
          (SortedEntries.sorted_split.mp whole).1 rfl
        obtain ⟨kept, done⟩ := repaired _ reached
        rw [result]
        refine ⟨done, ?_⟩
        rw [setLeft_node, left_node, kept, fewer, ← same]
        exact (SortedEntries.remove_below whole (below.trans_le (atLeast sorted))).symm
    · have notBelow : node.entry.1 ≤ key := not_lt.mp below
      rw [innerErase_over erasable.occupied notBelow]
      cases filled : node.turned.right.isEmpty with
      | true =>
        obtain ⟨entry, color, size, rfl, rfl⟩ := erasable.bare filled
        have same : (LlrbNode.node entry color size emptyRep emptyRep).turned.borrowed =
            .node entry color size emptyRep emptyRep := by simp [turned, borrowed]
        rw [same]
        simp only [entry_node, right_node, isEmpty_emptyRep, ↓reduceIte, innerErase_empty,
          setRight_node]
        split
        · rename_i equal
          exact ⟨mended_empty color, by simp [entries, SortedEntries.remove, equal]⟩
        · rename_i distinct
          obtain ⟨kept, done⟩ := mended_stay .empty .empty entry color size
          exact ⟨done, kept.trans (by simp [entries, SortedEntries.remove, Ne.symm distinct])⟩
      | false =>
        obtain ⟨entry, color, size, left, right, next, isNode, rightFilled, enters, same, atMost,
          repaired⟩ := erasable.entersRight notBelow filled
        have whole := same ▸ sorted
        have smaller := weight_turned_borrowed erasable.occupied
        rw [isNode, right_node] at smaller
        rw [isNode]
        simp only [entry_node, right_node, rightFilled, Bool.false_eq_true, ↓reduceIte]
        split
        · rename_i equal
          subst equal
          obtain ⟨reached, fewer⟩ := removeMin_spec ((atMost sorted).2 rfl)
          obtain ⟨kept, done⟩ := repaired right.min.entry _ reached
          refine ⟨done, ?_⟩
          rw [setEntry, setRight_node, kept, fewer, ← same, SortedEntries.remove_same whole,
            ← entries_min rightFilled]
        · rename_i distinct
          obtain ⟨reached, fewer⟩ := inductionHypothesis _ (weighed ▸ smaller) enters
            (SortedEntries.sorted_split.mp whole).2.1 rfl
          obtain ⟨kept, done⟩ := repaired entry _ reached
          refine ⟨done, ?_⟩
          rw [setRight_node, kept, fewer, ← same]
          exact (SortedEntries.remove_over whole ((atMost sorted).1.lt_of_ne' distinct)).symm

end Erase

end LlrbNode

end Amigo.Firestore
