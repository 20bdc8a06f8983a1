import Amigo.Immutable.SortedMap

/-!
# Sorted sets

A sorted set is a sorted map without values. Its scans start at the first value that is
not below a given one and go on to the end; a loop that breaks off takes the front of
what such a scan visits.
-/

namespace Amigo.Firestore

universe u

/-- A set is a map without values. -/
abbrev SortedSet (K : Type u) := SortedMap K Unit

namespace SortedSet

variable {K : Type u} [LinearOrder K] [Inhabited K]

/-- The empty set. -/
def empty : SortedSet K := .array []

/-- `empty`. -/
def isEmpty (set : SortedSet K) : Bool := set.size == 0

/-- `insert`. -/
def insert (key : K) (set : SortedSet K) : Option (SortedSet K) := SortedMap.insert key () set

/-- `erase`. -/
def erase (key : K) (set : SortedSet K) : Option (SortedSet K) := SortedMap.erase key set

/-- The values a loop over `values_from` visits. None is a failed assertion. -/
def valuesFrom (key : K) (set : SortedSet K) : Option (List K) :=
  SortedMap.visit set set.theEnd set.size (set.lowerBound key)

/-- The values of a set, in order. -/
def values (set : SortedSet K) : List K := (SortedMap.entries set).map Prod.fst

variable {set : SortedSet K}

omit [Inhabited K] in
/-- A set's values are the keys of its map. -/
theorem mem_values {key : K} :
    key ∈ set.values ↔ (SortedEntries.get key (SortedMap.entries set)).isSome = true := by
  rw [SortedEntries.get_isSome_iff, values, List.mem_map]

omit [Inhabited K] in
/-- The empty set is kept. -/
theorem kept_empty : SortedMap.Kept (empty : SortedSet K) :=
  ⟨SortedEntries.sorted_nil, Nat.zero_le _⟩

/-- Nothing but the inserted value is new. -/
theorem insert_spec (kept : set.Kept) (key : K) :
    ∃ next, insert key set = some next ∧ SortedMap.Kept next ∧
      ∀ other, other ∈ values next ↔ other = key ∨ other ∈ set.values := by
  obtain ⟨next, inserts, after, same⟩ := SortedMap.Kept.change kept (.put key ())
  refine ⟨next, inserts, after, fun other => ?_⟩
  rw [mem_values, mem_values, same, SortedEntries.Change.entries, SortedEntries.get_put]
  by_cases equal : other = key <;> simp [equal]

/-- Nothing but the erased value is gone. -/
theorem erase_spec (kept : set.Kept) (key : K) :
    ∃ next, erase key set = some next ∧ SortedMap.Kept next ∧
      ∀ other, other ∈ values next ↔ other ≠ key ∧ other ∈ set.values := by
  obtain ⟨next, erases, after, same⟩ := SortedMap.Kept.change kept (.remove key)
  refine ⟨next, erases, after, fun other => ?_⟩
  rw [mem_values, mem_values, same, SortedEntries.Change.entries, SortedEntries.get_remove]
  by_cases equal : other = key <;> simp [equal]

omit [Inhabited K] in
/-- The values ascend. -/
theorem pairwise_values (kept : set.Kept) : set.values.Pairwise (· < ·) :=
  List.pairwise_map.mpr (SortedMap.Kept.sorted kept)

/-- A scan visits the values from its start on, in order. -/
theorem valuesFrom_eq (kept : set.Kept) (key : K) :
    set.valuesFrom key = some (set.values.filter (fun other => key ≤ other)) := by
  obtain ⟨into, remaining⟩ := SortedMap.Kept.lowerBound kept key
  have ended : SortedMap.Into set set.theEnd ∧ SortedMap.remaining set set.theEnd = [] := by
    cases set with
    | array entries => exact ⟨le_rfl, List.drop_length⟩
    | tree root => exact ⟨nofun, rfl⟩
  have reaches : SortedMap.remaining set (set.lowerBound key) =
      SortedEntries.above key (SortedMap.entries set) ++ SortedMap.remaining set set.theEnd := by
    rw [remaining, ended.2, List.append_nil]
  have sorted : SortedEntries.Sorted (SortedMap.remaining set (set.lowerBound key)) := by
    rw [remaining]
    exact (SortedMap.Kept.sorted kept).filter _
  have enough : (SortedEntries.above key (SortedMap.entries set)).length ≤ set.size := by
    rw [SortedMap.Kept.size_eq kept]
    exact List.length_filter_le _ _
  rw [valuesFrom, ended.1.visit_eq into reaches sorted enough, values, List.filter_map]
  rfl

omit [Inhabited K] in
/-- Of an increasing list, the front that is wanted is all that is wanted, where nothing
unwanted comes before something wanted. -/
theorem takeWhile_eq_filter {wanted : K → Bool} {values : List K}
    (increasing : values.Pairwise (· < ·)) (closed : ∀ first ∈ values, ∀ second ∈ values,
      first < second → wanted second = true → wanted first = true) :
    values.takeWhile wanted = values.filter wanted := by
  induction values with
  | nil => rfl
  | cons first rest inductionHypothesis =>
    obtain ⟨below, others⟩ := List.pairwise_cons.mp increasing
    cases isWanted : wanted first with
    | true =>
      rw [List.takeWhile_cons_of_pos isWanted, List.filter_cons_of_pos isWanted,
        inductionHypothesis others fun before isBefore after isAfter =>
          closed before (List.mem_cons_of_mem _ isBefore) after (List.mem_cons_of_mem _ isAfter)]
    | false =>
      have none : rest.filter wanted = [] := by
        rw [List.filter_eq_nil_iff]
        intro later member isLater
        have before := closed first (by simp) later (by simp [member]) (below later member) isLater
        rw [isWanted] at before
        cases before
      rw [List.takeWhile_cons_of_neg (by simp [isWanted]),
        List.filter_cons_of_neg (by simp [isWanted]), none]

/-- A scan that breaks off at the first unwanted value finds all that is wanted from its
start on. -/
theorem scan_eq (kept : set.Kept) {key : K} {wanted : K → Bool} (closed : ∀ first second,
      key ≤ first → first < second → wanted second = true → wanted first = true) :
    (set.valuesFrom key).map (List.takeWhile wanted) =
      some (set.values.filter (fun other => key ≤ other ∧ wanted other = true)) := by
  have increasing := (pairwise_values kept).filter (fun other => key ≤ other)
  rw [valuesFrom_eq kept, Option.map_some, takeWhile_eq_filter increasing, List.filter_filter]
  · congr 2
    funext other
    rw [Bool.decide_and, Bool.and_comm, Bool.decide_eq_true]
  · intro first isFirst second _ before isWanted
    exact closed first second (by simpa using (List.mem_filter.mp isFirst).2) before isWanted

omit [Inhabited K] in
/-- A set is empty when it has no values. -/
theorem isEmpty_eq (kept : set.Kept) : set.isEmpty = set.values.isEmpty := by
  rw [isEmpty, SortedMap.Kept.size_eq kept, values]
  cases SortedMap.entries set <;> rfl

end SortedSet

end Amigo.Firestore
