import Mathlib.Order.Lattice
import Mathlib.Data.List.Basic
import Mathlib.Logic.Function.Basic

/-!
# Sorted lists of entries

A finite map over a linear order, written as the list of its entries in
increasing order of their keys, each key once. Putting an entry keeps the
entries below and above its key; taking a key out keeps all the others. These
are the laws an implementation of such a map is compared with: how the two
operations keep the order, what a lookup finds after them, and how they act on a
list split at an entry, which is what a search tree does with its root.
-/

namespace SortedEntries

universe u v
variable {K : Type u} {V : Type v} [LinearOrder K]

/-- The keys increase along the list. -/
def Sorted (entries : List (K × V)) : Prop :=
  entries.Pairwise (fun first second => first.1 < second.1)

/-- Store a value under a key, in its place. -/
def put (key : K) (value : V) (entries : List (K × V)) : List (K × V) :=
  entries.filter (fun entry => entry.1 < key) ++
    (key, value) :: entries.filter (fun entry => key < entry.1)

/-- Take a key out. -/
def remove (key : K) (entries : List (K × V)) : List (K × V) :=
  entries.filter (fun entry => entry.1 ≠ key)

/-- The value under a key. -/
def get (key : K) (entries : List (K × V)) : Option V :=
  (entries.find? (fun entry => entry.1 = key)).map Prod.snd

/-- The entries from a key on. -/
def above (key : K) (entries : List (K × V)) : List (K × V) :=
  entries.filter (fun entry => key ≤ entry.1)

/-- No entries are sorted. -/
@[simp] theorem sorted_nil : Sorted ([] : List (K × V)) := List.Pairwise.nil

/-- A list split at an entry is sorted when its two sides are, and lie below and above. -/
theorem sorted_split {below : List (K × V)} {entry : K × V} {beyond : List (K × V)} :
    Sorted (below ++ entry :: beyond) ↔ Sorted below ∧ Sorted beyond ∧
      (∀ other ∈ below, other.1 < entry.1) ∧ ∀ other ∈ beyond, entry.1 < other.1 := by
  simp only [Sorted, List.pairwise_append, List.pairwise_cons, List.mem_cons, forall_eq_or_imp]
  constructor
  · rintro ⟨lower, ⟨upper, rest⟩, across⟩
    exact ⟨lower, rest, fun other member => (across other member).1, upper⟩
  · rintro ⟨lower, rest, under, upper⟩
    exact ⟨lower, ⟨upper, rest⟩, fun other member =>
      ⟨under other member, fun last isLast => (under other member).trans (upper last isLast)⟩⟩

/-- An insertion keeps the entries sorted. -/
theorem Sorted.put {entries : List (K × V)} (sorted : Sorted entries) (key : K) (value : V) :
    Sorted (put key value entries) := by
  refine sorted_split.mpr ⟨sorted.filter _, sorted.filter _, ?_, ?_⟩
  · intro other member
    simpa using (List.mem_filter.mp member).2
  · intro other member
    simpa using (List.mem_filter.mp member).2

/-- So does a removal. -/
theorem Sorted.remove {entries : List (K × V)} (sorted : Sorted entries) (key : K) :
    Sorted (remove key entries) := sorted.filter _

section Split

variable {below beyond : List (K × V)} {entry : K × V} {key : K}

/-- A list below a key has nothing above it. -/
theorem split_below (under : ∀ other ∈ below, other.1 < key) :
    below.filter (fun other => other.1 < key) = below ∧
      below.filter (fun other => key < other.1) = [] ∧
      below.filter (fun other => other.1 ≠ key) = below := by
  refine ⟨List.filter_eq_self.mpr ?_, List.filter_eq_nil_iff.mpr ?_, List.filter_eq_self.mpr ?_⟩
  · exact fun other member => decide_eq_true (under other member)
  · exact fun other member => by simpa using (under other member).le
  · exact fun other member => decide_eq_true (under other member).ne

/-- A list above a key has nothing below it. -/
theorem split_over (upper : ∀ other ∈ beyond, key < other.1) :
    beyond.filter (fun other => key < other.1) = beyond ∧
      beyond.filter (fun other => other.1 < key) = [] ∧
      beyond.filter (fun other => other.1 ≠ key) = beyond := by
  refine ⟨List.filter_eq_self.mpr ?_, List.filter_eq_nil_iff.mpr ?_, List.filter_eq_self.mpr ?_⟩
  · exact fun other member => decide_eq_true (upper other member)
  · exact fun other member => by simpa using (upper other member).le
  · exact fun other member => decide_eq_true (upper other member).ne'

/-- A key below the split entry is put into the lower side. -/
theorem put_below (sorted : Sorted (below ++ entry :: beyond)) (before : key < entry.1) (value : V) :
    put key value (below ++ entry :: beyond) = put key value below ++ entry :: beyond := by
  obtain ⟨_, _, _, upper⟩ := sorted_split.mp sorted
  have higher := split_over (fun other member => before.trans (upper other member))
  simp [put, List.filter_append, before, before.le, higher.1, higher.2.1]

/-- A key above the split entry is put into the upper side. -/
theorem put_over (sorted : Sorted (below ++ entry :: beyond)) (after : entry.1 < key) (value : V) :
    put key value (below ++ entry :: beyond) = below ++ entry :: put key value beyond := by
  obtain ⟨_, _, lower, _⟩ := sorted_split.mp sorted
  have under := split_below (fun other member => (lower other member).trans after)
  simp [put, List.filter_append, after, after.le, under.1, under.2.1]

/-- The key of the split entry replaces it. -/
theorem put_same (sorted : Sorted (below ++ entry :: beyond)) (value : V) :
    put entry.1 value (below ++ entry :: beyond) = below ++ (entry.1, value) :: beyond := by
  obtain ⟨_, _, lower, upper⟩ := sorted_split.mp sorted
  have under := split_below lower
  have higher := split_over upper
  simp [put, List.filter_append, under.1, under.2.1, higher.1, higher.2.1]

/-- A key below an entry is removed before it. -/
theorem remove_below (sorted : Sorted (below ++ entry :: beyond)) (before : key < entry.1) :
    remove key (below ++ entry :: beyond) = remove key below ++ entry :: beyond := by
  obtain ⟨_, _, _, upper⟩ := sorted_split.mp sorted
  have higher := split_over (fun other member => before.trans (upper other member))
  rw [remove, List.filter_append, List.filter_cons_of_pos (by simpa using before.ne'), higher.2.2]
  rfl

/-- A key above an entry is removed behind it. -/
theorem remove_over (sorted : Sorted (below ++ entry :: beyond)) (after : entry.1 < key) :
    remove key (below ++ entry :: beyond) = below ++ entry :: remove key beyond := by
  obtain ⟨_, _, lower, _⟩ := sorted_split.mp sorted
  have under := split_below (fun other member => (lower other member).trans after)
  rw [remove, List.filter_append, List.filter_cons_of_pos (by simpa using after.ne), under.2.2]
  rfl

/-- The key of an entry is removed with it. -/
theorem remove_same (sorted : Sorted (below ++ entry :: beyond)) :
    remove entry.1 (below ++ entry :: beyond) = below ++ beyond := by
  obtain ⟨_, _, lower, upper⟩ := sorted_split.mp sorted
  rw [remove, List.filter_append, List.filter_cons_of_neg (by simp), (split_below lower).2.2,
    (split_over upper).2.2]

/-- A lookup in a split list goes to one side, or finds the entry. -/
theorem get_split (sorted : Sorted (below ++ entry :: beyond)) :
    get key (below ++ entry :: beyond) =
      if key < entry.1 then get key below
      else if entry.1 < key then get key beyond else some entry.2 := by
  obtain ⟨_, _, lower, upper⟩ := sorted_split.mp sorted
  have notBelow (above : entry.1 ≤ key) : below.find? (fun other => other.1 = key) = none := by
    rw [List.find?_eq_none]
    exact fun other member => by simpa using ((lower other member).trans_le above).ne
  have notOver (beneath : key < entry.1) : beyond.find? (fun other => other.1 = key) = none := by
    rw [List.find?_eq_none]
    exact fun other member => by simpa using (beneath.trans (upper other member)).ne'
  obtain beneath | same | higher := lt_trichotomy key entry.1
  · simp [get, List.find?_append, beneath, beneath.ne', notOver beneath]
  · simp [get, List.find?_append, ← same, notBelow same.symm.le]
  · simp [get, List.find?_append, higher, higher.not_gt, higher.ne, notBelow higher.le]

/-- The entries from a key on, of a split list. -/
theorem above_split (sorted : Sorted (below ++ entry :: beyond)) :
    above key (below ++ entry :: beyond) =
      if key ≤ entry.1 then above key below ++ entry :: beyond else above key beyond := by
  obtain ⟨_, _, lower, upper⟩ := sorted_split.mp sorted
  simp only [above, List.filter_append]
  split
  · rename_i beneath
    have whole : beyond.filter (fun other => key ≤ other.1) = beyond :=
      List.filter_eq_self.mpr (fun other member => by simpa using beneath.trans (upper other member).le)
    rw [List.filter_cons_of_pos (by simpa using beneath), whole]
  · rename_i higher
    have none : below.filter (fun other => key ≤ other.1) = [] :=
      List.filter_eq_nil_iff.mpr
        (fun other member => by simpa using (lower other member).trans (not_le.mp higher))
    rw [none, List.filter_cons_of_neg (by simpa using higher), List.nil_append]

/-- The entries below a key, of a split list. -/
theorem beneath_split (sorted : Sorted (below ++ entry :: beyond)) :
    (below ++ entry :: beyond).filter (fun other => other.1 < key) =
      if key < entry.1 then below.filter (fun other => other.1 < key)
      else if entry.1 < key then below ++ entry :: beyond.filter (fun other => other.1 < key)
      else below := by
  obtain ⟨_, _, lower, upper⟩ := sorted_split.mp sorted
  have none (beneath : key ≤ entry.1) : beyond.filter (fun other => other.1 < key) = [] :=
    List.filter_eq_nil_iff.mpr
      (fun other member => by simpa using beneath.trans (upper other member).le)
  have whole (higher : entry.1 ≤ key) : below.filter (fun other => other.1 < key) = below :=
    List.filter_eq_self.mpr
      (fun other member => by simpa using (lower other member).trans_le higher)
  rw [List.filter_append]
  split
  · rename_i beneath
    rw [List.filter_cons_of_neg (by simpa using beneath.le), none beneath.le, List.append_nil]
  · rename_i notBeneath
    rw [whole (not_lt.mp notBeneath)]
    split
    · rename_i higher
      rw [List.filter_cons_of_pos (by simpa using higher)]
    · rename_i notHigher
      rw [List.filter_cons_of_neg (by simpa using not_lt.mp notHigher), none (not_lt.mp notHigher),
        List.append_nil]

end Split

/-- A sorted list is what lies below a key and then what does not. -/
theorem beneath_above {entries : List (K × V)} (sorted : Sorted entries) (key : K) :
    entries.filter (fun entry => entry.1 < key) ++ above key entries = entries := by
  induction entries with
  | nil => rfl
  | cons entry rest inductionHypothesis =>
    have whole : Sorted ([] ++ entry :: rest) := sorted
    rw [show entry :: rest = [] ++ entry :: rest from rfl, beneath_split whole, above_split whole]
    obtain beneath | same | higher := lt_trichotomy key entry.1
    · simp [beneath, beneath.le, above]
    · simp [same, above]
    · simpa [higher, higher.not_gt, higher.not_ge]
        using inductionHypothesis (sorted_split.mp whole).2.1

/-- A key has a value when it is the key of an entry. -/
theorem get_isSome_iff {key : K} {entries : List (K × V)} :
    (get key entries).isSome = true ↔ key ∈ entries.map Prod.fst := by
  simp [get, List.find?_isSome, List.mem_map]

/-- A lookup among the entries kept by their keys finds what it found, if its key is kept. -/
theorem get_filter (keep : K → Bool) (key : K) (entries : List (K × V)) :
    get key (entries.filter (fun entry => keep entry.1)) =
      if keep key then get key entries else none := by
  simp only [get, List.find?_filter]
  cases kept : keep key with
  | true =>
    congr 2
    funext entry
    by_cases same : entry.1 = key <;> simp [same, kept]
  | false =>
    have none : entries.find? (fun entry => decide (keep entry.1 = true ∧ decide (entry.1 = key) = true)) =
        Option.none := by
      rw [List.find?_eq_none]
      rintro entry _ found
      obtain ⟨isKept, same⟩ := of_decide_eq_true found
      rw [of_decide_eq_true same, kept] at isKept
      exact absurd isKept (by simp)
    simp only [none, Option.map_none, Bool.false_eq_true, ↓reduceIte]

/-- A key is looked up in the first entries, then in the others. -/
theorem get_append (key : K) (first second : List (K × V)) :
    get key (first ++ second) = (get key first).or (get key second) := by
  simp only [get, List.find?_append]
  cases first.find? (fun entry => entry.1 = key) <;> rfl

/-- Putting an entry changes what is found under its key and nothing else. -/
theorem get_put (key other : K) (value : V) (entries : List (K × V)) :
    get other (put key value entries) = if other = key then some value else get other entries := by
  have middle : get other ((key, value) :: entries.filter (fun entry => decide (key < entry.1))) =
      if key = other then some value
      else get other (entries.filter (fun entry => decide (key < entry.1))) := by
    by_cases same : key = other <;> simp [get, same]
  rw [put, get_append, middle, get_filter (fun tested => decide (tested < key)),
    get_filter (fun tested => decide (key < tested))]
  obtain beneath | same | higher := lt_trichotomy other key
  · simp [beneath, beneath.ne, beneath.ne', beneath.not_gt]
  · simp [same]
  · simp [higher, higher.ne, higher.ne', higher.not_gt]

/-- Taking a key out leaves nothing under it and everything else. -/
theorem get_remove (key other : K) (entries : List (K × V)) :
    get other (remove key entries) = if other = key then none else get other entries := by
  rw [remove, get_filter (fun tested => decide (tested ≠ key))]
  by_cases same : other = key <;> simp [same]

/-- A change of a map. -/
inductive Change (K : Type u) (V : Type v) where
  | put (key : K) (value : V)
  | remove (key : K)

/-- A change of the list of entries. -/
def Change.entries (entries : List (K × V)) : Change K V → List (K × V)
  | .put key value => SortedEntries.put key value entries
  | .remove key => SortedEntries.remove key entries

/-- A change of the map from keys to values. -/
def Change.values (values : K → Option V) : Change K V → K → Option V
  | .put key value => Function.update values key (some value)
  | .remove key => Function.update values key none

/-- The list of entries is the map. -/
theorem get_change (entries : List (K × V)) (change : Change K V) (key : K) :
    get key (change.entries entries) = change.values (fun key => get key entries) key := by
  cases change with
  | put changed value => simp [Change.entries, Change.values, get_put, Function.update_apply]
  | remove changed => simp [Change.entries, Change.values, get_remove, Function.update_apply]

/-- A sequence of changes of the list is that sequence of changes of the map. -/
theorem get_changes (changes : List (Change K V)) (entries : List (K × V)) :
    (fun key => get key (changes.foldl Change.entries entries)) =
      changes.foldl Change.values (fun key => get key entries) := by
  induction changes generalizing entries with
  | nil => rfl
  | cons change rest inductionHypothesis =>
    rw [List.foldl_cons, List.foldl_cons, inductionHypothesis]
    congr 1
    funext key
    exact get_change entries change key

end SortedEntries
