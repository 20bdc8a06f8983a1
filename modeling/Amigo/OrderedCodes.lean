import Mathlib.Data.List.Lex
import Mathlib.Order.Lattice

/-!
# Codes that keep the order

A code writes values as words over a linearly ordered alphabet. It keeps the order if of
two values the lesser has the lesser word, whatever follows the two words. Such a code
can be read back without knowing where its word ends, and codes that keep the order
compose: a list is the words of its items and then a word that comes before every
item's.
-/

namespace OrderedCodes

universe u v
variable {A : Type u} {S : Type v} [LinearOrder S]

/-- Two words part at a symbol, which is less in the first: it comes before the second
whatever follows either. -/
def Before (first second : List S) : Prop :=
  ∃ shared low high rest others, first = shared ++ low :: rest ∧
    second = shared ++ high :: others ∧ low < high

namespace Before

variable {first second : List S}

/-- Smaller first symbols come before. -/
theorem of_lt {low high : S} (less : low < high) (rest others : List S) :
    Before (low :: rest) (high :: others) := ⟨[], low, high, rest, others, rfl, rfl, less⟩

/-- Whatever follows, the order stays. -/
theorem append (before : Before first second) (rest others : List S) :
    Before (first ++ rest) (second ++ others) := by
  obtain ⟨shared, low, high, tail, end_, rfl, rfl, less⟩ := before
  exact ⟨shared, low, high, tail ++ rest, end_ ++ others, by simp, by simp, less⟩

/-- A shared front keeps the order. -/
theorem prepend (before : Before first second) (shared : List S) :
    Before (shared ++ first) (shared ++ second) := by
  obtain ⟨front, low, high, tail, others, rfl, rfl, less⟩ := before
  exact ⟨shared ++ front, low, high, tail, others, by simp, by simp, less⟩

/-- So does one shared symbol. -/
theorem cons (before : Before first second) (symbol : S) :
    Before (symbol :: first) (symbol :: second) := before.prepend [symbol]

/-- What comes before is smaller. -/
theorem lt (before : Before first second) : first < second := by
  obtain ⟨shared, low, high, tail, others, rfl, rfl, less⟩ := before
  exact List.append_left_lt (List.cons_lt_cons_iff.mpr (.inl less))

/-- Words that part are not the beginnings of the same word. -/
theorem append_ne (before : Before first second) (rest others : List S) :
    first ++ rest ≠ second ++ others := (before.append rest others).lt.ne

end Before

/-- A code that keeps the order. -/
def Ordered [LT A] (code : A → List S) : Prop := ∀ a b, a < b → Before (code a) (code b)

namespace Ordered

variable [LinearOrder A] {code : A → List S}

/-- What comes first decides, and after equal values what follows. -/
theorem lt_iff (ordered : Ordered code) (a b : A) (rest others : List S) :
    code a ++ rest < code b ++ others ↔ a < b ∨ a = b ∧ rest < others := by
  obtain less | rfl | more := lt_trichotomy a b
  · exact iff_of_true ((ordered a b less).append rest others).lt (.inl less)
  · constructor
    · intro below
      refine .inr ⟨rfl, ?_⟩
      by_contra above
      obtain rfl | above := eq_or_lt_of_le (not_lt.mp above)
      · exact below.ne rfl
      · exact below.asymm (List.append_left_lt above)
    · rintro (less | ⟨_, below⟩)
      · exact absurd less (lt_irrefl a)
      · exact List.append_left_lt below
  · refine iff_of_false ?_ ?_
    · exact ((ordered b a more).append others rest).lt.asymm
    · rintro (less | ⟨rfl, _⟩)
      · exact less.asymm more
      · exact lt_irrefl a more

/-- The word tells where it ends. -/
theorem append_inj (ordered : Ordered code) {a b : A} {rest others : List S}
    (same : code a ++ rest = code b ++ others) : a = b ∧ rest = others := by
  obtain less | rfl | more := lt_trichotomy a b
  · exact absurd same ((ordered a b less).append_ne rest others)
  · exact ⟨rfl, List.append_cancel_left same⟩
  · exact absurd same.symm ((ordered b a more).append_ne others rest)

/-- A mark in front of every word. -/
theorem marked (ordered : Ordered code) (mark : List S) : Ordered (fun a => mark ++ code a) :=
  fun _ _ less => (ordered _ _ less).prepend mark

/-- A mark after every word. -/
theorem followed (ordered : Ordered code) (mark : List S) : Ordered (fun a => code a ++ mark) :=
  fun _ _ less => (ordered _ _ less).append mark mark

/-- A list is written as its items and then a word that comes before every item's. -/
theorem list (ordered : Ordered code) {stop : List S} (stops : ∀ a, Before stop (code a)) :
    Ordered (fun items : List A => items.flatMap code ++ stop) := by
  intro items
  induction items with
  | nil =>
    intro items less
    cases items with
    | nil => exact absurd less (lt_irrefl _)
    | cons item rest =>
      have before := (stops item).append [] (rest.flatMap code ++ stop)
      simpa using before
  | cons item rest inductionHypothesis =>
    intro items less
    cases items with
    | nil => exact absurd less (List.not_lt_nil _)
    | cons next others =>
      simp only [List.flatMap_cons, List.append_assoc]
      obtain earlier | ⟨rfl, later⟩ := List.cons_lt_cons_iff.mp less
      · exact (ordered _ _ earlier).append _ _
      · exact (inductionHypothesis others later).prepend _

/-- The words of some items begin a list's word only if the items begin the list. -/
theorem list_prefix_iff (ordered : Ordered code) {stop : List S}
    (stops : ∀ a, Before stop (code a)) {front items : List A} {rest : List S} :
    front.flatMap code <+: items.flatMap code ++ (stop ++ rest) ↔ front <+: items := by
  induction front generalizing items with
  | nil => simp
  | cons item front inductionHypothesis =>
    cases items with
    | nil =>
      refine iff_of_false ?_ (by simp)
      rintro ⟨tail, same⟩
      rw [List.flatMap_cons, List.append_assoc, List.flatMap_nil, List.nil_append] at same
      exact (stops item).append_ne rest _ same.symm
    | cons next others =>
      rw [List.cons_prefix_cons, ← inductionHypothesis, List.flatMap_cons, List.flatMap_cons,
        List.append_assoc]
      constructor
      · rintro ⟨tail, same⟩
        rw [List.append_assoc] at same
        obtain ⟨rfl, rest⟩ := ordered.append_inj same
        exact ⟨rfl, tail, rest⟩
      · rintro ⟨rfl, tail, rest⟩
        exact ⟨tail, by rw [List.append_assoc, rest]⟩

end Ordered

/-- A beginning comes before the word, or is it. -/
theorem prefix_le {front word : List S} (begins : front <+: word) : front ≤ word :=
  not_lt.mp (List.IsPrefix.le begins)

/-- Between two words with a beginning in common every word has it. -/
theorem prefix_between {front low middle high : List S} (starts : front <+: low)
    (ends : front <+: high) (above : low ≤ middle) (below : middle ≤ high) : front <+: middle := by
  induction front generalizing low middle high with
  | nil => exact List.nil_prefix
  | cons symbol rest inductionHypothesis =>
    obtain ⟨lowRest, rfl⟩ := starts
    obtain ⟨highRest, rfl⟩ := ends
    cases middle with
    | nil => exact absurd above (not_le.mpr (List.nil_lt_cons _ _))
    | cons head others =>
      rw [List.cons_append] at above below
      have least := not_lt.mpr above
      have most := not_lt.mpr below
      rw [List.cons_lt_cons_iff, not_or, not_and] at least most
      obtain rfl : head = symbol := le_antisymm (not_lt.mp most.1) (not_lt.mp least.1)
      have between := inductionHypothesis ⟨lowRest, rfl⟩ ⟨highRest, rfl⟩
        (not_lt.mp (least.2 rfl)) (not_lt.mp (most.2 rfl))
      exact List.cons_prefix_cons.mpr ⟨rfl, between⟩

end OrderedCodes
