import Mathlib.Data.List.Pairwise

/-!
# Rows replaced by key

A table is a list of rows in insertion order. Storing a row first removes the
rows that clash with it and then appends it, so a stored row is always last.
The clash relation is a parameter: for a plain key it is equality of keys, and
for a nullable key two rows with no key never clash. Nothing is assumed of it
beyond what a statement names, and no ordering on rows is required.

Storing a list of rows folds single stores from the left. A row of the result
is a stored one or an old one that clashes with no stored row; under distinct
clashes each direction is exact. Removal by a predicate keeps the other rows in
order. A whole list of stores has a normal form: the untouched rows, then the
last of each of the stored ones. These laws concern lists only and mention no
storage engine.
-/

namespace KeyedRows

universe u
variable {α : Type u} (clash : α → α → Prop) [DecidableRel clash]

/-- Remove the rows that clash with the new one and append it. -/
def upsert (row : α) (rows : List α) : List α :=
  rows.filter (fun stored => decide (¬ clash stored row)) ++ [row]

/-- Store rows one after another, the first one first. -/
def upsertAll (rows : List α) (stored : List α) : List α :=
  stored.foldl (fun table row => upsert clash row table) rows

/-- No two rows at different positions clash. -/
def Separate (rows : List α) : Prop := rows.Pairwise (fun first second => ¬ clash first second)

variable {clash}

/-- The rows after one is stored. -/
@[simp] theorem mem_upsert {row tested : α} {rows : List α} :
    tested ∈ upsert clash row rows ↔ (tested ∈ rows ∧ ¬ clash tested row) ∨ tested = row := by
  simp [upsert]

/-- Storing no rows. -/
@[simp] theorem upsertAll_nil (rows : List α) : upsertAll clash rows [] = rows := rfl

/-- Storing the first of several rows. -/
@[simp] theorem upsertAll_cons (rows : List α) (row : α) (rest : List α) :
    upsertAll clash rows (row :: rest) = upsertAll clash (upsert clash row rows) rest := rfl

/-- Every row after the stores was stored, or was there before and clashes with
none of the stored rows. -/
theorem mem_upsertAll_origin {tested : α} {rows stored : List α}
    (member : tested ∈ upsertAll clash rows stored) :
    tested ∈ stored ∨ (tested ∈ rows ∧ ∀ row ∈ stored, ¬ clash tested row) := by
  induction stored generalizing rows with
  | nil => exact Or.inr ⟨member, by simp⟩
  | cons row rest inductionHypothesis =>
    rw [upsertAll_cons] at member
    obtain later | ⟨present, apart⟩ := inductionHypothesis member
    · exact Or.inl (List.mem_cons_of_mem row later)
    · obtain ⟨older, distinct⟩ | rfl := mem_upsert.mp present
      · refine Or.inr ⟨older, ?_⟩
        intro other isStored
        obtain rfl | inRest := List.mem_cons.mp isStored
        · exact distinct
        · exact apart other inRest
      · exact Or.inl List.mem_cons_self

/-- An old row that clashes with no stored row survives all the stores. -/
theorem mem_upsertAll_of_apart {tested : α} {rows stored : List α} (present : tested ∈ rows)
    (apart : ∀ row ∈ stored, ¬ clash tested row) : tested ∈ upsertAll clash rows stored := by
  induction stored generalizing rows with
  | nil => exact present
  | cons row rest inductionHypothesis =>
    rw [upsertAll_cons]
    refine inductionHypothesis ?_ (fun other inRest => apart other (List.mem_cons_of_mem row inRest))
    exact mem_upsert.mpr (Or.inl ⟨present, apart row List.mem_cons_self⟩)

/-- A stored row is in the result when every stored row it clashes with is the
row itself. Equal rows may be stored repeatedly; the last one stays. -/
theorem mem_upsertAll_of_stored {tested : α} {rows stored : List α} (isStored : tested ∈ stored)
    (alone : ∀ row ∈ stored, clash tested row → row = tested) :
    tested ∈ upsertAll clash rows stored := by
  induction stored generalizing rows with
  | nil => exact absurd isStored List.not_mem_nil
  | cons row rest inductionHypothesis =>
    have aloneLater : ∀ other ∈ rest, clash tested other → other = tested :=
      fun other inRest => alone other (List.mem_cons_of_mem row inRest)
    by_cases again : tested ∈ rest
    · exact inductionHypothesis again aloneLater
    · have first : tested = row := (List.mem_cons.mp isStored).resolve_right again
      subst first
      rw [upsertAll_cons]
      refine mem_upsertAll_of_apart (mem_upsert.mpr (Or.inr rfl)) ?_
      intro other inRest touching
      exact again (aloneLater other inRest touching ▸ inRest)

/-- One store keeps a separate table separate. -/
theorem upsert_separate {row : α} {rows : List α} (separate : Separate clash rows) :
    Separate clash (upsert clash row rows) := by
  refine List.pairwise_append.mpr ⟨separate.filter _, List.pairwise_singleton _ _, ?_⟩
  intro older member newer isRow
  rw [List.mem_singleton.mp isRow]
  simpa using (List.mem_filter.mp member).2

/-- So does a list of stores. -/
theorem upsertAll_separate {rows stored : List α} (separate : Separate clash rows) :
    Separate clash (upsertAll clash rows stored) := by
  induction stored generalizing rows with
  | nil => exact separate
  | cons row rest inductionHypothesis => exact inductionHypothesis (upsert_separate separate)

omit [DecidableRel clash] in
/-- Two clashing members of a separate table under a symmetric clash are one row. -/
theorem Separate.eq_of_clash {rows : List α} (separate : Separate clash rows)
    (symmetric : ∀ first second, clash first second → clash second first) {first second : α}
    (firstIn : first ∈ rows) (secondIn : second ∈ rows) (touching : clash first second) :
    first = second := by
  induction rows with
  | nil => exact absurd firstIn List.not_mem_nil
  | cons head rest inductionHypothesis =>
    obtain ⟨apart, restSeparate⟩ := List.pairwise_cons.mp separate
    obtain rfl | firstLater := List.mem_cons.mp firstIn
    · obtain rfl | secondLater := List.mem_cons.mp secondIn
      · rfl
      · exact absurd touching (apart second secondLater)
    · obtain rfl | secondLater := List.mem_cons.mp secondIn
      · exact absurd (symmetric _ _ touching) (apart first firstLater)
      · exact inductionHypothesis restSeparate firstLater secondLater

/-- In a separate table under a symmetric clash the rows that clash with a
member are that member alone. -/
theorem Separate.filter_clash {rows : List α} (separate : Separate clash rows)
    (symmetric : ∀ first second, clash first second → clash second first) {row : α}
    (member : row ∈ rows) (touches : clash row row) :
    rows.filter (fun stored => decide (clash stored row)) = [row] := by
  induction rows with
  | nil => exact absurd member List.not_mem_nil
  | cons head rest inductionHypothesis =>
    obtain ⟨apart, restSeparate⟩ := List.pairwise_cons.mp separate
    by_cases isHead : row = head
    · subst isHead
      have others : rest.filter (fun stored => decide (clash stored row)) = [] := by
        rw [List.filter_eq_nil_iff]
        intro stored inRest
        have distinct : ¬ clash stored row := fun same => apart stored inRest (symmetric _ _ same)
        simpa using distinct
      rw [List.filter_cons_of_pos (by simpa using touches), others]
    · have inRest : row ∈ rest := (List.mem_cons.mp member).resolve_left isHead
      rw [List.filter_cons_of_neg (by simpa using apart row inRest)]
      exact inductionHypothesis restSeparate inRest

variable (clash) in
/-- The stored rows that no later one replaces, in order. -/
def lastOfEach : List α → List α
  | [] => []
  | row :: rest =>
    if ∃ later ∈ rest, clash row later then lastOfEach rest else row :: lastOfEach rest

/-- Every row of the last ones was stored. -/
theorem mem_of_mem_lastOfEach {tested : α} {stored : List α}
    (member : tested ∈ lastOfEach clash stored) : tested ∈ stored := by
  induction stored with
  | nil => exact member
  | cons row rest inductionHypothesis =>
    rw [lastOfEach] at member
    split at member
    · exact List.mem_cons_of_mem row (inductionHypothesis member)
    · obtain rfl | later := List.mem_cons.mp member
      · exact List.mem_cons_self
      · exact List.mem_cons_of_mem row (inductionHypothesis later)

/-- A list of stores leaves the old rows that clash with none of them, in their
old order, and after them the last of each of the stored rows. -/
theorem upsertAll_eq (rows stored : List α) :
    upsertAll clash rows stored =
      rows.filter (fun row => decide (∀ later ∈ stored, ¬ clash row later)) ++
        lastOfEach clash stored := by
  induction stored generalizing rows with
  | nil =>
    have all : rows.filter (fun row => decide (∀ later ∈ ([] : List α), ¬ clash row later)) = rows :=
      List.filter_eq_self.mpr (by simp)
    rw [upsertAll_nil, lastOfEach, all, List.append_nil]
  | cons row rest inductionHypothesis =>
    have old : (rows.filter (fun older => decide (¬ clash older row))).filter
        (fun older => decide (∀ later ∈ rest, ¬ clash older later)) =
        rows.filter (fun older => decide (∀ later ∈ row :: rest, ¬ clash older later)) := by
      rw [List.filter_filter]
      apply List.filter_congr
      intro older _
      rw [← Bool.decide_and]
      have same : ((∀ later ∈ rest, ¬ clash older later) ∧ ¬ clash older row) ↔
          ∀ later ∈ row :: rest, ¬ clash older later := by
        rw [List.forall_mem_cons, and_comm]
      exact decide_eq_decide.mpr same
    rw [upsertAll_cons, inductionHypothesis, upsert, List.filter_append, old, List.append_assoc,
      lastOfEach]
    congr 1
    by_cases replaced : ∃ later ∈ rest, clash row later
    · simp [replaced]
    · have apart : ∀ later ∈ rest, ¬ clash row later :=
        fun later member touching => replaced ⟨later, member, touching⟩
      have kept : [row].filter (fun older => decide (∀ later ∈ rest, ¬ clash older later)) = [row] :=
        List.filter_eq_self.mpr (by simpa using apart)
      rw [if_neg replaced, kept]
      rfl

/-- No two of the last ones clash. -/
theorem lastOfEach_separate (stored : List α) : Separate clash (lastOfEach clash stored) := by
  have stores : upsertAll clash [] stored = lastOfEach clash stored := by
    rw [upsertAll_eq, List.filter_nil, List.nil_append]
  exact stores ▸ upsertAll_separate List.Pairwise.nil

/-- Storing the same rows once more changes nothing, when each clashes with itself. -/
theorem upsertAll_again {rows stored : List α} (self : ∀ row ∈ stored, clash row row) :
    upsertAll clash (upsertAll clash rows stored) stored = upsertAll clash rows stored := by
  have gone : (lastOfEach clash stored).filter
      (fun row => decide (∀ later ∈ stored, ¬ clash row later)) = [] := by
    rw [List.filter_eq_nil_iff]
    intro row member
    have isStored := mem_of_mem_lastOfEach member
    simpa using ⟨row, isStored, self row isStored⟩
  rw [upsertAll_eq, upsertAll_eq, List.filter_append, gone, List.append_nil, List.filter_filter]
  simp

/-- The last ones are the rows that nothing stored after them replaces. -/
theorem mem_lastOfEach_iff {row : α} {stored : List α} :
    row ∈ lastOfEach clash stored ↔
      ∃ earlier later, stored = earlier ++ row :: later ∧ ∀ other ∈ later, ¬ clash row other := by
  induction stored with
  | nil => simp [lastOfEach]
  | cons head rest inductionHypothesis =>
    have later : row ∈ lastOfEach clash rest → ∃ earlier later, head :: rest = earlier ++ row :: later ∧
        ∀ other ∈ later, ¬ clash row other := by
      intro member
      obtain ⟨earlier, later, split, last⟩ := inductionHypothesis.mp member
      exact ⟨head :: earlier, later, congrArg (head :: ·) split, last⟩
    rw [lastOfEach]
    constructor
    · split
      · exact later
      · rename_i unreplaced
        intro member
        obtain rfl | inRest := List.mem_cons.mp member
        · exact ⟨[], rest, rfl, fun other isLater touching => unreplaced ⟨other, isLater, touching⟩⟩
        · exact later inRest
    · rintro ⟨earlier, later, split, last⟩
      cases earlier with
      | nil =>
        obtain ⟨rfl, rfl⟩ := List.cons.inj split
        rw [if_neg (fun ⟨other, isLater, touching⟩ => last other isLater touching)]
        exact List.mem_cons_self
      | cons first before =>
        obtain ⟨rfl, inRest⟩ := List.cons.inj split
        have member := inductionHypothesis.mpr ⟨before, later, inRest, last⟩
        split
        · exact member
        · exact List.mem_cons_of_mem _ member

/-- Taking the last ones commutes with a map that keeps clashes as they are. -/
theorem lastOfEach_map {β : Type u} {apart : β → β → Prop} [DecidableRel apart] {convert : α → β}
    (same : ∀ first second, apart (convert first) (convert second) ↔ clash first second)
    (stored : List α) :
    lastOfEach apart (stored.map convert) = (lastOfEach clash stored).map convert := by
  induction stored with
  | nil => rfl
  | cons row rest inductionHypothesis =>
    have replaced : (∃ later ∈ rest.map convert, apart (convert row) later) ↔
        ∃ later ∈ rest, clash row later := by
      simp only [List.mem_map, exists_exists_and_eq_and, same]
    simp only [List.map_cons, lastOfEach, replaced, inductionHypothesis]
    split <;> rfl

/-- A passing row that nothing later replaces, before which every passing row is
replaced by it or by a later one, is the first of the last ones to pass. -/
theorem find?_lastOfEach_of {test : α → Bool} {row : α} {earlier later : List α}
    (passes : test row = true) (last : ∀ other ∈ later, ¬ clash row other)
    (before : ∀ other ∈ earlier, test other = true → ∃ again ∈ row :: later, clash other again) :
    (lastOfEach clash (earlier ++ row :: later)).find? test = some row := by
  induction earlier with
  | nil =>
    have kept : ¬ ∃ other ∈ later, clash row other :=
      fun ⟨other, member, touching⟩ => last other member touching
    rw [List.nil_append, lastOfEach, if_neg kept, List.find?_cons_of_pos passes]
  | cons head rest inductionHypothesis =>
    have following := inductionHypothesis (fun other member =>
      before other (List.mem_cons_of_mem head member))
    rw [List.cons_append, lastOfEach]
    split
    · exact following
    · rename_i unreplaced
      have fails : ¬ test head = true := by
        intro headPasses
        obtain ⟨again, member, touching⟩ := before head List.mem_cons_self headPasses
        exact unreplaced ⟨again, List.mem_append_right rest member, touching⟩
      rw [List.find?_cons_of_neg fails, following]

/-- The first of the last ones that passes a test is the passing row whose last
store lies furthest back: nothing later replaces it, and every passing row
before it is replaced by it or by a later one. The test must not tell clashing
rows apart. -/
theorem find?_lastOfEach_iff {test : α → Bool} {stored : List α}
    (transitive : ∀ first second third, clash first second → clash second third → clash first third)
    (compatible : ∀ first second, clash first second → test first = true → test second = true)
    (row : α) :
    (lastOfEach clash stored).find? test = some row ↔ test row = true ∧
      ∃ earlier later, stored = earlier ++ row :: later ∧ (∀ other ∈ later, ¬ clash row other) ∧
        ∀ other ∈ earlier, test other = true → ∃ again ∈ row :: later, clash other again := by
  constructor
  · intro found
    refine ⟨List.find?_some found, ?_⟩
    induction stored with
    | nil => cases found
    | cons head rest inductionHypothesis =>
      -- a head that fails the test, or is replaced, leaves the answer to the rest
      have inRest (following : (lastOfEach clash rest).find? test = some row)
          (headReplaced : test head = true → ∃ again ∈ rest, clash head again) :
          ∃ earlier later, head :: rest = earlier ++ row :: later ∧
            (∀ other ∈ later, ¬ clash row other) ∧
            ∀ other ∈ earlier, test other = true → ∃ again ∈ row :: later, clash other again := by
        obtain ⟨earlier, later, rfl, last, before⟩ := inductionHypothesis following
        refine ⟨head :: earlier, later, rfl, last, ?_⟩
        intro other member passes
        obtain rfl | inEarlier := List.mem_cons.mp member
        · obtain ⟨again, isLater, touching⟩ := headReplaced passes
          obtain between | after := List.mem_append.mp isLater
          · obtain ⟨final, isFinal, reaches⟩ := before again between (compatible _ _ touching passes)
            exact ⟨final, isFinal, transitive _ _ _ touching reaches⟩
          · exact ⟨again, after, touching⟩
        · exact before other inEarlier passes
      rw [lastOfEach] at found
      split at found
      · rename_i replaced
        exact inRest found (fun _ => replaced)
      · rename_i last
        by_cases passes : test head = true
        · rw [List.find?_cons_of_pos passes] at found
          cases Option.some.inj found
          exact ⟨[], rest, rfl, fun other member touching => last ⟨other, member, touching⟩, by simp⟩
        · rw [List.find?_cons_of_neg passes] at found
          exact inRest found (fun headPasses => absurd headPasses passes)
  · rintro ⟨passes, earlier, later, rfl, last, before⟩
    exact find?_lastOfEach_of passes last before

/-- None of the last ones passes a test exactly when none of the stored rows does. -/
theorem find?_lastOfEach_none_iff {test : α → Bool} {stored : List α}
    (compatible : ∀ first second, clash first second → test first = true → test second = true) :
    (lastOfEach clash stored).find? test = none ↔ ∀ row ∈ stored, ¬ test row = true := by
  rw [List.find?_eq_none]
  constructor
  · intro none
    induction stored with
    | nil => simp
    | cons head rest inductionHypothesis =>
      have later : ∀ row ∈ rest, ¬ test row = true := by
        apply inductionHypothesis
        intro row member
        apply none row
        rw [lastOfEach]
        split
        · exact member
        · exact List.mem_cons_of_mem head member
      refine List.forall_mem_cons.mpr ⟨?_, later⟩
      by_cases replaced : ∃ other ∈ rest, clash head other
      · obtain ⟨other, member, touching⟩ := replaced
        exact fun passes => later other member (compatible head other touching passes)
      · apply none head
        rw [lastOfEach, if_neg replaced]
        exact List.mem_cons_self
  · intro none row member
    exact none row (mem_of_mem_lastOfEach member)

/-- Each entry's row once, and as often again as its count says. -/
def repeated (entries : List (α × Nat)) : List α :=
  entries.flatMap (fun entry => List.replicate (entry.2 + 1) entry.1)

/-- The last ones of a row and its repetitions are that row. -/
theorem lastOfEach_replicate {row : α} {rest : List α} (self : clash row row)
    (apart : ∀ later ∈ rest, ¬ clash row later) (count : Nat) :
    lastOfEach clash (List.replicate (count + 1) row ++ rest) = row :: lastOfEach clash rest := by
  induction count with
  | zero =>
    have kept : ¬ ∃ later ∈ rest, clash row later :=
      fun ⟨later, member, touching⟩ => apart later member touching
    simp [lastOfEach, kept]
  | succ count inductionHypothesis =>
    have replaced : ∃ later ∈ List.replicate (count + 1) row ++ rest, clash row later :=
      ⟨row, by simp [List.replicate_succ], self⟩
    rw [List.replicate_succ, List.cons_append, lastOfEach, if_pos replaced, inductionHypothesis]

/-- Repetitions next to each other leave each row once, in order. -/
theorem lastOfEach_repeated {entries : List (α × Nat)}
    (self : ∀ entry ∈ entries, clash entry.1 entry.1)
    (separate : Separate clash (entries.map Prod.fst)) :
    lastOfEach clash (repeated entries) = entries.map Prod.fst := by
  induction entries with
  | nil => rfl
  | cons entry rest inductionHypothesis =>
    obtain ⟨apart, restSeparate⟩ := List.pairwise_cons.mp separate
    have others : ∀ later ∈ repeated rest, ¬ clash entry.1 later := by
      intro later member
      obtain ⟨other, inRest, isLater⟩ := List.mem_flatMap.mp member
      rw [List.eq_of_mem_replicate isLater]
      exact apart other.1 (List.mem_map_of_mem inRest)
    have following := inductionHypothesis
      (fun other inRest => self other (List.mem_cons_of_mem _ inRest)) restSeparate
    have first := lastOfEach_replicate (self entry List.mem_cons_self) others entry.2
    rw [List.map_cons, ← following, ← first]
    rfl

end KeyedRows
