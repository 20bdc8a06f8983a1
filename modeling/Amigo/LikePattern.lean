import Mathlib.Data.List.Infix

/-!
# SQL LIKE on character lists

A pattern is a list of characters in which a percent sign stands for any
sequence of characters and an underscore for exactly one. Every other character
matches itself up to ASCII case. There is no escape character. The whole text
has to be matched, so a search for an occurrence puts a percent sign on both
sides of what is searched.

The matcher recurses on the pattern alone: a percent sign tries every suffix of
the text. Matching distributes over appended patterns by splitting the text, and
every text matches itself read as a pattern, wildcards included. Hence a text
always contains itself. Collations other than ASCII case folding, a length limit
on patterns and user-defined overloads of the operator are outside these laws.
-/

namespace LikePattern

/-- The two characters agree up to ASCII case. -/
def sameLetter (first second : Char) : Bool := first.toLower == second.toLower

/-- Match a whole text against a pattern, the pattern first. -/
def like : List Char → List Char → Bool
  | [], text => text.isEmpty
  | sign :: rest, text =>
    if sign = '%' then text.tails.any (fun suffix => like rest suffix)
    else match text with
      | [] => false
      | letter :: tail => (sign == '_' || sameLetter sign letter) && like rest tail

/-- The pattern that searches an occurrence of another pattern anywhere. -/
def anywhere (pattern : List Char) : List Char := '%' :: (pattern ++ ['%'])

/-- The empty pattern matches the empty text only. -/
@[simp] theorem like_nil (text : List Char) : like [] text = true ↔ text = [] := by
  simp [like]

/-- A percent sign consumes some prefix of the text. -/
theorem like_percent (rest text : List Char) :
    like ('%' :: rest) text = true ↔ ∃ skipped suffix, text = skipped ++ suffix ∧ like rest suffix = true := by
  simp only [like, ↓reduceIte, List.any_eq_true, List.mem_tails]
  constructor
  · rintro ⟨suffix, ⟨skipped, split⟩, matched⟩
    exact ⟨skipped, suffix, split.symm, matched⟩
  · rintro ⟨skipped, suffix, split, matched⟩
    exact ⟨suffix, ⟨skipped, split.symm⟩, matched⟩

/-- Any other sign consumes exactly one character. -/
theorem like_sign (sign : Char) (rest text : List Char) (plain : sign ≠ '%') :
    like (sign :: rest) text = true ↔ ∃ letter tail, text = letter :: tail ∧
      (sign = '_' ∨ sameLetter sign letter = true) ∧ like rest tail = true := by
  cases text with
  | nil => simp [like, plain]
  | cons letter tail => simp [like, plain]

/-- An appended pattern matches exactly the texts that split into a match of
each part. -/
theorem like_append (first second text : List Char) :
    like (first ++ second) text = true ↔
      ∃ left right, text = left ++ right ∧ like first left = true ∧ like second right = true := by
  induction first generalizing text with
  | nil => simp
  | cons sign rest inductionHypothesis =>
    by_cases percent : sign = '%'
    · subst percent
      simp only [List.cons_append, like_percent, inductionHypothesis]
      constructor
      · rintro ⟨skipped, _, rfl, left, right, rfl, matchedLeft, matchedRight⟩
        exact ⟨skipped ++ left, right, (List.append_assoc ..).symm, ⟨skipped, left, rfl, matchedLeft⟩,
          matchedRight⟩
      · rintro ⟨_, right, rfl, ⟨skipped, left, rfl, matchedLeft⟩, matchedRight⟩
        exact ⟨skipped, left ++ right, List.append_assoc .., left, right, rfl, matchedLeft,
          matchedRight⟩
    · simp only [List.cons_append, like_sign _ _ _ percent, inductionHypothesis]
      constructor
      · rintro ⟨letter, _, rfl, agrees, left, right, rfl, matchedLeft, matchedRight⟩
        exact ⟨letter :: left, right, rfl, ⟨letter, left, rfl, agrees, matchedLeft⟩, matchedRight⟩
      · rintro ⟨_, right, rfl, ⟨letter, left, rfl, agrees, matchedLeft⟩, matchedRight⟩
        exact ⟨letter, left ++ right, rfl, agrees, left, right, rfl, matchedLeft, matchedRight⟩

/-- Every text matches itself read as a pattern. -/
theorem like_self (text : List Char) : like text text = true := by
  induction text with
  | nil => rfl
  | cons letter rest inductionHypothesis =>
    by_cases percent : letter = '%'
    · subst percent
      exact (like_percent rest _).mpr ⟨['%'], rest, rfl, inductionHypothesis⟩
    · exact (like_sign letter rest _ percent).mpr
        ⟨letter, rest, rfl, Or.inr (by simp [sameLetter]), inductionHypothesis⟩

/-- A search matches exactly the texts with a matching stretch. -/
theorem like_anywhere (pattern text : List Char) :
    like (anywhere pattern) text = true ↔
      ∃ before stretch after, text = before ++ stretch ++ after ∧ like pattern stretch = true := by
  simp only [anywhere, like_percent, like_append]
  constructor
  · rintro ⟨before, _, rfl, stretch, after, rfl, matched, _⟩
    exact ⟨before, stretch, after, (List.append_assoc ..).symm, matched⟩
  · rintro ⟨before, stretch, after, rfl, matched⟩
    exact ⟨before, stretch ++ after, List.append_assoc .., stretch, after, rfl, matched,
      after, [], (List.append_nil after).symm, rfl⟩

/-- A text contains itself. -/
theorem like_anywhere_self (text : List Char) : like (anywhere text) text = true :=
  (like_anywhere text text).mpr ⟨[], text, [], by simp, like_self text⟩

/-- The pattern matches some stretch of the text. -/
def Occurs (pattern text : List Char) : Prop :=
  ∃ before stretch after, text = before ++ stretch ++ after ∧ like pattern stretch = true

/-- A pattern between percent signs matches where it occurs. -/
theorem like_anywhere_iff_occurs (pattern text : List Char) :
    like (anywhere pattern) text = true ↔ Occurs pattern text := like_anywhere pattern text

instance (pattern text : List Char) : Decidable (Occurs pattern text) :=
  decidable_of_iff _ (like_anywhere_iff_occurs pattern text)

/-- A text occurs in itself. -/
theorem occurs_self (text : List Char) : Occurs text text :=
  (like_anywhere_iff_occurs text text).mp (like_anywhere_self text)

/-- The empty pattern occurs in every text. -/
theorem occurs_nil (text : List Char) : Occurs [] text := ⟨[], [], text, rfl, rfl⟩

/-- A pattern occurs in every longer text around a text it occurs in. -/
theorem Occurs.within {pattern text : List Char} (occurs : Occurs pattern text)
    (left right : List Char) : Occurs pattern (left ++ text ++ right) := by
  obtain ⟨before, stretch, after, rfl, matched⟩ := occurs
  exact ⟨left ++ before, stretch, after ++ right, by simp only [List.append_assoc], matched⟩

/-- The pattern has no wildcard. -/
def Plain (pattern : List Char) : Prop := ∀ sign ∈ pattern, sign ≠ '%' ∧ sign ≠ '_'

/-- Letters in one ASCII case. -/
def foldCase (text : List Char) : List Char := text.map Char.toLower

/-- Without wildcards matching is equality up to ASCII case. -/
theorem like_plain {pattern : List Char} (plain : Plain pattern) (text : List Char) :
    like pattern text = true ↔ foldCase pattern = foldCase text := by
  induction pattern generalizing text with
  | nil =>
    rw [like_nil]
    exact ⟨fun empty => by rw [empty], fun same => List.map_eq_nil_iff.mp same.symm⟩
  | cons sign rest inductionHypothesis =>
    have here := plain sign List.mem_cons_self
    have later := inductionHypothesis (fun other member => plain other (List.mem_cons_of_mem _ member))
    cases text with
    | nil => simp [like, here, foldCase]
    | cons letter tail =>
      have folded : like rest tail = true ↔ rest.map Char.toLower = tail.map Char.toLower := later tail
      simp [like, here, foldCase, sameLetter, folded]

/-- Without wildcards a pattern occurs where its letters stand in a row, up to
ASCII case. -/
theorem occurs_plain {pattern : List Char} (plain : Plain pattern) (text : List Char) :
    Occurs pattern text ↔ foldCase pattern <:+: foldCase text := by
  constructor
  · rintro ⟨before, stretch, after, rfl, matched⟩
    refine ⟨foldCase before, foldCase after, ?_⟩
    rw [(like_plain plain stretch).mp matched]
    simp only [foldCase, List.map_append]
  · rintro ⟨before, after, split⟩
    obtain ⟨left, tail, rfl, isLeft, _⟩ := List.map_eq_append_iff.mp split.symm
    obtain ⟨front, stretch, rfl, _, isStretch⟩ := List.map_eq_append_iff.mp isLeft
    exact ⟨front, stretch, tail, rfl, (like_plain plain stretch).mpr isStretch.symm⟩

/-- In a text of its own length a pattern without wildcards occurs only when the
two differ in ASCII case alone. -/
theorem occurs_same_length {pattern text : List Char} (plain : Plain pattern)
    (length : pattern.length = text.length) :
    Occurs pattern text ↔ foldCase pattern = foldCase text := by
  rw [occurs_plain plain]
  constructor
  · intro inside
    apply inside.eq_of_length
    simpa only [foldCase, List.length_map] using length
  · intro same
    rw [same]

example : like (anywhere "haifa".toList) "Tel-Aviv, Haifa".toList = true := by decide

end LikePattern
