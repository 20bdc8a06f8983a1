import Mathlib.Data.List.Induction
import Amigo.Immutable.TreeSortedMap

/-!
# Sorted maps

A sorted map is a sorted array while it is small and a tree once it has grown. An
array has room for a fixed number of entries, and writing past it is an assertion
that fails; an insertion into a full array therefore first moves the entries to a
tree. A tree that has lost its last entry becomes an array again. An iterator is
a position in the array or a stack of nodes, and a range of keys is visited by
incrementing one iterator until it equals another.

Which of the two a map is depends on its whole past. What it answers does not: it
answers as the map from keys to values does that saw the same changes.
-/

namespace Amigo.Firestore

universe u v
variable {K : Type u} {V : Type v} [LinearOrder K]

/-- The room in an array. -/
def kFixedSize : Nat := 25

/-- Append to an array. None is a failed assertion that there is room. -/
def FixedArray.append {α : Type*} (array values : List α) : Option (List α) :=
  if array.length + values.length ≤ kFixedSize then some (array ++ values) else none

namespace ArraySortedMap

/-- The position of the first entry that is not below a key. -/
def lowerBound (key : K) (entries : List (K × V)) : Nat :=
  entries.findIdx (fun entry => !(compare entry.1 key == .lt))

/-- The position of the entry of a key. -/
def find (key : K) (entries : List (K × V)) : Option Nat :=
  entries.findIdx? (fun entry => compare key entry.1 == .eq)

/-- `ArraySortedMap::insert`: an equal entry leaves the array as it is, else it is copied part
by part. -/
def insert [DecidableEq V] (key : K) (value : V) (entries : List (K × V)) :
    Option (List (K × V)) :=
  let pos := lowerBound key entries
  let replacingEntry := (entries[pos]?).any (fun entry => compare key entry.1 == .eq)
  if replacingEntry && (entries[pos]?).any (fun entry => value == entry.2) then some entries
  else
    (FixedArray.append [] (entries.take pos)).bind fun copy =>
      (FixedArray.append copy [(key, value)]).bind fun copy =>
        FixedArray.append copy (entries.drop (if replacingEntry then pos + 1 else pos))

/-- `ArraySortedMap::erase`. -/
def erase (key : K) (entries : List (K × V)) : Option (List (K × V)) :=
  match find key entries with
  | none => some entries
  | some pos =>
    if entries.length ≤ 1 then some []
    else (FixedArray.append [] (entries.take pos)).bind fun copy =>
      FixedArray.append copy (entries.drop (pos + 1))

/-- The lower bound splits a sorted array. -/
theorem lowerBound_split (key : K) {entries : List (K × V)} (sorted : SortedEntries.Sorted entries) :
    entries.take (lowerBound key entries) = entries.filter (fun entry => entry.1 < key) ∧
      entries.drop (lowerBound key entries) = SortedEntries.above key entries := by
  induction entries with
  | nil => exact ⟨rfl, rfl⟩
  | cons entry rest inductionHypothesis =>
    have whole : SortedEntries.Sorted ([] ++ entry :: rest) := sorted
    have tail : SortedEntries.Sorted rest := (SortedEntries.sorted_split.mp whole).2.1
    rw [show entry :: rest = [] ++ entry :: rest from rfl, SortedEntries.beneath_split whole,
      SortedEntries.above_split whole, List.nil_append, lowerBound, List.findIdx_cons]
    obtain beneath | same | higher := lt_trichotomy key entry.1
    · simp [compare_gt_iff_gt.mpr beneath, beneath, beneath.le, SortedEntries.above]
    · simp [same, SortedEntries.above]
    · have ascending : compare entry.1 key = .lt := compare_lt_iff_lt.mpr higher
      simpa [ascending, higher, higher.not_gt, higher.not_ge, lowerBound]
        using inductionHypothesis tail

/-- The entries from a key on begin with its entry when there is one. -/
theorem above_cases (key : K) {entries : List (K × V)} (sorted : SortedEntries.Sorted entries) :
    (∃ value, SortedEntries.above key entries =
        (key, value) :: entries.filter (fun entry => key < entry.1)) ∨
      (SortedEntries.above key entries = entries.filter (fun entry => key < entry.1) ∧
        ∀ entry ∈ entries, entry.1 ≠ key) := by
  by_cases present : ∃ entry ∈ entries, entry.1 = key
  · obtain ⟨entry, member, rfl⟩ := present
    obtain ⟨below, beyond, rfl⟩ := List.append_of_mem member
    obtain ⟨_, _, lower, upper⟩ := SortedEntries.sorted_split.mp sorted
    refine Or.inl ⟨entry.2, ?_⟩
    have none : SortedEntries.above entry.1 below = [] :=
      List.filter_eq_nil_iff.mpr (fun other member => by simpa using lower other member)
    simp [SortedEntries.above_split sorted, none, List.filter_append,
      (SortedEntries.split_below lower).2.1, (SortedEntries.split_over upper).1]
  · refine Or.inr ⟨?_, fun entry member same => present ⟨entry, member, same⟩⟩
    refine List.filter_congr fun entry member => ?_
    have distinct : key ≠ entry.1 := fun same => present ⟨entry, member, same.symm⟩
    simp [le_iff_lt_or_eq, distinct]

omit [LinearOrder K] in
/-- Copying the two sides of a position around new entries that fit. -/
theorem copy_eq {before middle after : List (K × V)}
    (room : before.length + middle.length + after.length ≤ kFixedSize) :
    ((FixedArray.append [] before).bind fun copy =>
      (FixedArray.append copy middle).bind fun copy => FixedArray.append copy after) =
      some (before ++ middle ++ after) := by
  have first : before.length ≤ kFixedSize := by omega
  have second : before.length + middle.length ≤ kFixedSize := by omega
  simp [FixedArray.append, first, second, room]

/-- An insertion that has room puts the entry in its place. -/
theorem insert_eq [DecidableEq V] {key : K} {value : V} {entries : List (K × V)}
    (sorted : SortedEntries.Sorted entries) (room : entries.length < kFixedSize) :
    insert key value entries = some (SortedEntries.put key value entries) := by
  obtain ⟨taken, dropped⟩ := lowerBound_split key sorted
  have whole := SortedEntries.beneath_above sorted key
  have length := congrArg List.length whole
  rw [List.length_append] at length
  have pointed : entries[lowerBound key entries]? = (SortedEntries.above key entries).head? := by
    rw [← dropped, List.head?_drop]
  simp only [insert, pointed, taken]
  obtain ⟨stored, present⟩ | ⟨absent, others⟩ := above_cases key sorted
  · have equal : (compare key key == .eq) = true := by simp
    rw [present] at whole length
    have rest : entries.drop (lowerBound key entries + 1) =
        entries.filter (fun entry => key < entry.1) := by
      rw [← List.drop_drop, dropped, present]
      rfl
    simp only [present, List.head?_cons, Option.any_some, equal, Bool.true_and, ↓reduceIte, rest]
    split
    · rename_i same
      rw [SortedEntries.put, of_decide_eq_true same, whole]
    · rw [copy_eq (by simp only [List.length_cons, List.length_nil] at length ⊢; omega)]
      simp [SortedEntries.put]
  · have distinct : ((SortedEntries.above key entries).head?.any
        (fun entry => compare key entry.1 == .eq)) = false := by
      cases found : (SortedEntries.above key entries).head? with
      | none => rfl
      | some entry =>
        have member : entry ∈ entries := List.mem_of_mem_filter (List.mem_of_mem_head? found)
        simpa using (others entry member).symm
    simp only [distinct, Bool.false_and, Bool.false_eq_true, ↓reduceIte, dropped]
    rw [absent] at length ⊢
    rw [copy_eq (by simp only [List.length_cons, List.length_nil]; omega)]
    simp [SortedEntries.put]

/-- A deletion takes the key out, and what is left fits. -/
theorem erase_eq {key : K} {entries : List (K × V)} (sorted : SortedEntries.Sorted entries)
    (room : entries.length ≤ kFixedSize) :
    erase key entries = some (SortedEntries.remove key entries) := by
  unfold erase
  split
  · rename_i absent
    have others : ∀ entry ∈ entries, entry.1 ≠ key := by
      intro entry member same
      have missed := List.findIdx?_eq_none_iff.mp absent entry member
      simp [same] at missed
    rw [SortedEntries.remove, List.filter_eq_self.mpr (by simpa using others)]
  · rename_i pos found
    obtain ⟨inside, isKey, _⟩ := List.findIdx?_eq_some_iff_getElem.mp found
    have whole : entries.take pos ++ entries[pos] :: entries.drop (pos + 1) = entries := by
      rw [← List.drop_eq_getElem_cons, List.take_append_drop]
    generalize entries[pos] = entry at isKey whole
    have same : key = entry.1 := compare_eq_iff_eq.mp (by simpa using isKey)
    have fewer : SortedEntries.remove key entries = entries.take pos ++ entries.drop (pos + 1) :=
      calc SortedEntries.remove key entries
          = SortedEntries.remove entry.1 (entries.take pos ++ entry :: entries.drop (pos + 1)) := by
            rw [whole, same]
        _ = entries.take pos ++ entries.drop (pos + 1) :=
            SortedEntries.remove_same (whole.symm ▸ sorted)
    rw [fewer]
    split
    · rename_i single
      have first : pos = 0 := by omega
      subst first
      rw [List.take_zero, List.drop_eq_nil_of_le (by omega), List.append_nil]
    · have taken : ([] : List (K × V)).length + (entries.take pos).length ≤ kFixedSize := by
        rw [List.length_nil, List.length_take]
        omega
      have fits : (entries.take pos).length + (entries.drop (pos + 1)).length ≤ kFixedSize := by
        rw [List.length_take, List.length_drop]
        omega
      rw [FixedArray.append, if_pos taken, Option.bind_some, List.nil_append, FixedArray.append,
        if_pos fits]

/-- The position of a key is the number of entries below it. -/
theorem find_eq {key : K} {entries : List (K × V)} (sorted : SortedEntries.Sorted entries) :
    find key entries = (SortedEntries.get key entries).map
      (fun _ => (entries.filter (fun entry => entry.1 < key)).length) := by
  induction entries with
  | nil => rfl
  | cons entry rest inductionHypothesis =>
    have whole : SortedEntries.Sorted ([] ++ entry :: rest) := sorted
    obtain ⟨_, tail, _, upper⟩ := SortedEntries.sorted_split.mp whole
    rw [show entry :: rest = [] ++ entry :: rest from rfl, SortedEntries.get_split whole,
      SortedEntries.beneath_split whole, List.nil_append, find, List.findIdx?_cons]
    obtain beneath | same | higher := lt_trichotomy key entry.1
    · have absent : rest.findIdx? (fun other => compare key other.1 == .eq) = none := by
        rw [List.findIdx?_eq_none_iff]
        intro other member
        have ascending : compare key other.1 = .lt :=
          compare_lt_iff_lt.mpr (beneath.trans (upper other member))
        simp [ascending]
      simp [compare_lt_iff_lt.mpr beneath, beneath, absent, SortedEntries.get]
    · simp [same]
    · have descending : compare key entry.1 = .gt := compare_gt_iff_gt.mpr higher
      simp only [descending, higher, higher.not_gt, ↓reduceIte, List.nil_append, List.length_cons]
      rw [← find, inductionHypothesis tail]
      cases SortedEntries.get key rest <;> rfl

/-- The entry at the position of a key has the value under it. -/
theorem find_value {key : K} {entries : List (K × V)} (sorted : SortedEntries.Sorted entries) :
    ((find key entries).bind fun pos => (entries[pos]?).map Prod.snd) =
      SortedEntries.get key entries := by
  induction entries with
  | nil => rfl
  | cons entry rest inductionHypothesis =>
    have whole : SortedEntries.Sorted ([] ++ entry :: rest) := sorted
    have tail := inductionHypothesis (SortedEntries.sorted_split.mp whole).2.1
    simp only [SortedEntries.get, List.find?_cons, find, List.findIdx?_cons] at tail ⊢
    by_cases same : entry.1 = key
    · simp [same]
    · have distinct : compare key entry.1 ≠ .eq := fun equal =>
        same (compare_eq_iff_eq.mp equal).symm
      simp only [beq_eq_false_iff_ne.mpr distinct, Bool.false_eq_true, ↓reduceIte, same,
        decide_false, ← tail]
      cases rest.findIdx? (fun other => compare key other.1 == .eq) <;> rfl

end ArraySortedMap

/-- `SortedMap`: an array while it is small, a tree from then on. -/
inductive SortedMap (K : Type u) (V : Type v) where
  | array (entries : List (K × V))
  | tree (root : LlrbNode K V)

/-- A position in the array, or the nodes still to visit. -/
inductive SortedMapIterator (K : Type u) (V : Type v) where
  | array (position : Nat)
  | tree (stack : List (LlrbNode K V))

namespace SortedMap

variable [Inhabited K] [Inhabited V] [DecidableEq V]

/-- `TreeSortedMap::Create`. -/
def create (entries : List (K × V)) : LlrbNode K V :=
  entries.foldl (fun node element => node.insert element.1 element.2) LlrbNode.emptyRep

/-- None is a failed assertion. -/
def insert (key : K) (value : V) : SortedMap K V → Option (SortedMap K V)
  | .array entries =>
    if kFixedSize ≤ entries.length then some (.tree ((create entries).insert key value))
    else (ArraySortedMap.insert key value entries).map .array
  | .tree root => some (.tree (root.insert key value))

/-- `SortedMap::erase`: a tree that has become empty is an array again. -/
def erase (key : K) : SortedMap K V → Option (SortedMap K V)
  | .array entries => (ArraySortedMap.erase key entries).map .array
  | .tree root =>
    let result := root.erase key
    some (if result.isEmpty then .array [] else .tree result)

omit [Inhabited K] [Inhabited V] [DecidableEq V] [LinearOrder K] in
/-- `size`. -/
def size : SortedMap K V → Nat
  | .array entries => entries.length
  | .tree root => root.size

/-- `contains`. -/
def contains (key : K) : SortedMap K V → Bool
  | .array entries => (ArraySortedMap.find key entries).isSome
  | .tree root => root.contains key

/-- `find_index`. -/
def findIndex (key : K) : SortedMap K V → Option Nat
  | .array entries => ArraySortedMap.find key entries
  | .tree root => root.findIndex key 0

/-- `get`. -/
def get (key : K) : SortedMap K V → Option V
  | .array entries => (ArraySortedMap.find key entries).bind fun pos => (entries[pos]?).map Prod.snd
  | .tree root => (root.find key).map Prod.snd

/-- `lower_bound`. -/
def lowerBound (key : K) : SortedMap K V → SortedMapIterator K V
  | .array entries => .array (ArraySortedMap.lowerBound key entries)
  | .tree root => .tree (root.lowerBound key [])

/-- `end`. -/
def theEnd : SortedMap K V → SortedMapIterator K V
  | .array entries => .array entries.length
  | .tree _ => .tree []

/-- The key an iterator points to. None is a failed assertion. -/
def keyAt : SortedMap K V → SortedMapIterator K V → Option K
  | .array entries, .array position => (entries[position]?).map Prod.fst
  | .tree _, .tree stack => (LlrbNode.pointed stack).map Prod.fst
  | _, _ => none

/-- `operator++`. None is a failed assertion. -/
def increment : SortedMapIterator K V → Option (SortedMapIterator K V)
  | .array position => some (.array (position + 1))
  | .tree stack => (LlrbNode.increment stack).map .tree

/-- Iterators of a tree are equal when they are both at the end or at equal keys. -/
def same : SortedMapIterator K V → SortedMapIterator K V → Bool
  | .array first, .array second => first == second
  | .tree first, .tree second =>
    match LlrbNode.pointed first, LlrbNode.pointed second with
    | none, none => true
    | some first, some second => first.1 == second.1
    | _, _ => false
  | _, _ => false

/-- The loop over a range, with a bound on its rounds. -/
def visit (map : SortedMap K V) (last : SortedMapIterator K V) :
    Nat → SortedMapIterator K V → Option (List K)
  | 0, position => if same position last then some [] else none
  | rounds + 1, position =>
    if same position last then some []
    else (map.keyAt position).bind fun key => (increment position).bind fun next =>
      (map.visit last rounds next).map (key :: ·)

/-- `keys_in`: the range from one key to before another. -/
def keysIn (startKey endKey : K) (map : SortedMap K V) :
    SortedMapIterator K V × SortedMapIterator K V :=
  if compare startKey endKey = .lt then (map.lowerBound startKey, map.lowerBound endKey)
  else (map.theEnd, map.theEnd)

omit [LinearOrder K] [Inhabited K] [Inhabited V] [DecidableEq V] in
/-- The entries of a map in the order of their keys. -/
def entries : SortedMap K V → List (K × V)
  | .array entries => entries
  | .tree root => root.entries

omit [Inhabited K] [Inhabited V] [DecidableEq V] in
/-- What the operations keep: a sorted array that fits, or a balanced tree. -/
def Kept : SortedMap K V → Prop
  | .array entries => SortedEntries.Sorted entries ∧ entries.length ≤ kFixedSize
  | .tree root => root.Balanced

omit [Inhabited K] [Inhabited V] [DecidableEq V] in
/-- The entries of a kept map are sorted. -/
theorem Kept.sorted {map : SortedMap K V} (kept : map.Kept) : SortedEntries.Sorted map.entries := by
  cases map with
  | array entries => exact kept.1
  | tree root => exact LlrbNode.Balanced.sorted kept

omit [DecidableEq V] in
/-- Inserting the entries of a sorted array one by one rebuilds it as a tree. -/
theorem create_spec {entries : List (K × V)} (sorted : SortedEntries.Sorted entries) :
    (create entries).Balanced ∧ (create entries).entries = entries := by
  induction entries using List.reverseRecOn with
  | nil => exact ⟨LlrbNode.balanced_empty, rfl⟩
  | append_singleton earlier entry inductionHypothesis =>
    obtain ⟨before, _, lower, _⟩ := SortedEntries.sorted_split.mp sorted
    obtain ⟨balanced, same⟩ := inductionHypothesis before
    have step : create (earlier ++ [entry]) = (create earlier).insert entry.1 entry.2 := by
      simp [create, List.foldl_append]
    obtain ⟨after, put⟩ := balanced.insert entry.1 entry.2
    obtain ⟨kept, none, _⟩ := SortedEntries.split_below lower
    rw [step]
    refine ⟨after, ?_⟩
    rw [put, same, SortedEntries.put, kept, none]

/-- A change of a map. None is a failed assertion. -/
def change (map : SortedMap K V) : SortedEntries.Change K V → Option (SortedMap K V)
  | .put key value => map.insert key value
  | .remove key => map.erase key

omit [Inhabited K] [Inhabited V] [DecidableEq V] in
/-- An insertion adds at most one entry. -/
theorem put_length (key : K) (value : V) (entries : List (K × V)) :
    (SortedEntries.put key value entries).length ≤ entries.length + 1 := by
  have apart : (entries.filter (fun entry => entry.1 < key)).length +
      (entries.filter (fun entry => key < entry.1)).length ≤ entries.length := by
    induction entries with
    | nil => exact Nat.le_refl _
    | cons entry rest inductionHypothesis =>
      obtain beneath | same | higher := lt_trichotomy key entry.1
      · simp only [List.filter_cons, beneath, beneath.not_gt, decide_true, decide_false,
          Bool.false_eq_true, ↓reduceIte, List.length_cons]
        omega
      · simp only [List.filter_cons, same, lt_irrefl, decide_false, Bool.false_eq_true, ↓reduceIte,
          List.length_cons] at inductionHypothesis ⊢
        omega
      · simp only [List.filter_cons, higher, higher.not_gt, decide_true, decide_false,
          Bool.false_eq_true, ↓reduceIte, List.length_cons]
        omega
  simp only [SortedEntries.put, List.length_append, List.length_cons]
  omega

/-- No change fails, and each is a change of the sorted list of entries. -/
theorem Kept.change {map : SortedMap K V} (kept : map.Kept) (change : SortedEntries.Change K V) :
    ∃ next, map.change change = some next ∧ next.Kept ∧
      next.entries = change.entries map.entries := by
  cases map with
  | tree root =>
    cases change with
    | put key value =>
      obtain ⟨balanced, same⟩ := kept.insert key value
      exact ⟨_, rfl, balanced, same⟩
    | remove key =>
      obtain ⟨balanced, same⟩ := kept.erase key
      simp only [SortedMap.change, erase]
      split
      · rename_i vacant
        refine ⟨_, rfl, ⟨SortedEntries.sorted_nil, Nat.zero_le _⟩, ?_⟩
        rw [SortedEntries.Change.entries, entries, entries, ← same]
        cases erased : root.erase key with
        | empty => rfl
        | node => simp [erased] at vacant
      · exact ⟨_, rfl, balanced, same⟩
  | array entries =>
    obtain ⟨sorted, fits⟩ := kept
    cases change with
    | put key value =>
      simp only [SortedMap.change, insert]
      split
      · obtain ⟨created, copied⟩ := create_spec sorted
        obtain ⟨balanced, same⟩ := created.insert key value
        exact ⟨_, rfl, balanced, same.trans (by rw [copied]; rfl)⟩
      · rename_i room
        refine ⟨.array (SortedEntries.put key value entries), ?_, ⟨sorted.put key value, ?_⟩, rfl⟩
        · rw [ArraySortedMap.insert_eq sorted (not_le.mp room)]
          rfl
        · exact (put_length key value entries).trans (not_le.mp room)
    | remove key =>
      refine ⟨.array (SortedEntries.remove key entries), ?_,
        ⟨sorted.remove key, (List.length_filter_le _ _).trans fits⟩, rfl⟩
      rw [SortedMap.change, erase, ArraySortedMap.erase_eq sorted fits]
      rfl

/-- Any number of changes never fails, keeps the map and changes its entries as a map. -/
theorem Kept.changes {map : SortedMap K V} (kept : map.Kept)
    (changes : List (SortedEntries.Change K V)) :
    ∃ last, changes.foldlM SortedMap.change map = some last ∧ last.Kept ∧
      last.entries = changes.foldl SortedEntries.Change.entries map.entries := by
  induction changes generalizing map with
  | nil => exact ⟨map, rfl, kept, rfl⟩
  | cons change rest inductionHypothesis =>
    obtain ⟨next, changed, after, same⟩ := kept.change change
    obtain ⟨last, finished, result, entries⟩ := inductionHypothesis after
    refine ⟨last, ?_, result, ?_⟩
    · rw [List.foldlM_cons, changed]
      exact finished
    · rw [entries, same, List.foldl_cons]

section Reads

omit [DecidableEq V]

variable {map : SortedMap K V}

omit [Inhabited K] [Inhabited V] in
/-- The size counts the entries. -/
theorem Kept.size_eq (kept : map.Kept) : map.size = map.entries.length := by
  cases map with
  | array => rfl
  | tree root =>
    obtain ⟨height, valid⟩ := LlrbNode.Balanced.valid kept
    exact valid.size_eq

omit [Inhabited K] [Inhabited V] in
/-- A key is contained when it has a value. -/
theorem Kept.contains_eq (kept : map.Kept) (key : K) :
    map.contains key = (SortedEntries.get key map.entries).isSome := by
  cases map with
  | array stored =>
    rw [contains, ArraySortedMap.find_eq kept.1, Option.isSome_map]
    rfl
  | tree root => exact LlrbNode.contains_eq (LlrbNode.Balanced.sorted kept)

omit [Inhabited K] [Inhabited V] in
/-- The index of a key counts the entries below it. -/
theorem Kept.findIndex_eq (kept : map.Kept) (key : K) :
    map.findIndex key = (SortedEntries.get key map.entries).map
      (fun _ => (map.entries.filter (fun entry => entry.1 < key)).length) := by
  cases map with
  | array entries => exact ArraySortedMap.find_eq kept.1
  | tree root =>
    obtain ⟨height, valid⟩ := LlrbNode.Balanced.valid kept
    have found := LlrbNode.findIndex_eq key valid (LlrbNode.Balanced.sorted kept) 0
    simp only [Nat.zero_add] at found
    exact found

/-- A lookup gives the value of the key. -/
theorem Kept.get_eq (kept : map.Kept) (key : K) :
    map.get key = SortedEntries.get key map.entries := by
  cases map with
  | array entries => exact ArraySortedMap.find_value kept.1
  | tree root =>
    have sorted := LlrbNode.Balanced.sorted kept
    have occupied : LlrbNode.Occupied (root.lowerBound key []) :=
      LlrbNode.occupied_lowerBound (by simp [LlrbNode.Occupied])
    have visits := LlrbNode.remaining_lowerBound key sorted []
    simp only [get, LlrbNode.find, LlrbNode.pointed_eq occupied, visits, entries]
    simp only [LlrbNode.remaining, List.flatMap_nil, List.append_nil]
    obtain ⟨value, present⟩ | ⟨absent, others⟩ := ArraySortedMap.above_cases key sorted
    · have found : SortedEntries.get key (SortedEntries.above key root.entries) = some value := by
        rw [present]
        simp [SortedEntries.get]
      rw [SortedEntries.above, SortedEntries.get_filter (fun tested => decide (key ≤ tested))] at found
      rw [present]
      simpa [Option.filter] using found.symm
    · have missed : SortedEntries.get key root.entries = none := by
        simpa [SortedEntries.get] using fun _ value member => others _ member
      rw [missed, absent]
      cases first : (root.entries.filter (fun entry => key < entry.1)).head? with
      | none => rfl
      | some entry =>
        have member := List.mem_of_mem_filter (List.mem_of_mem_head? first)
        have distinct : key ≠ entry.1 := (others entry member).symm
        simp [Option.filter, distinct]

end Reads

/-- No assertion fails, and the entries are the function that saw the same changes. -/
theorem changed (changes : List (SortedEntries.Change K V)) :
    ∃ map : SortedMap K V, changes.foldlM SortedMap.change (.array []) = some map ∧ map.Kept ∧
      ∀ key, SortedEntries.get key map.entries =
        changes.foldl SortedEntries.Change.values (fun _ => none) key := by
  have empty : (SortedMap.array [] : SortedMap K V).Kept :=
    ⟨SortedEntries.sorted_nil, Nat.zero_le _⟩
  obtain ⟨map, finished, kept, same⟩ := empty.changes changes
  have values : (fun key => SortedEntries.get key map.entries) =
      changes.foldl SortedEntries.Change.values (fun _ => none) := by
    rw [same]
    exact SortedEntries.get_changes changes []
  exact ⟨map, finished, kept, congrFun values⟩

/-- Whatever insertions and deletions a map has seen, no assertion has failed and it
answers as the function does that saw them: every lookup finds its value, every key has
the index it has among the keys in increasing order, and the size is their number. -/
theorem refines_map (changes : List (SortedEntries.Change K V)) :
    ∃ map : SortedMap K V, changes.foldlM SortedMap.change (.array []) = some map ∧
      (∀ key, map.get key = changes.foldl SortedEntries.Change.values (fun _ => none) key) ∧
      (∀ key, map.contains key =
        (changes.foldl SortedEntries.Change.values (fun _ => none) key).isSome) ∧
      ∃ keys : List K, keys.Pairwise (· < ·) ∧ map.size = keys.length ∧
        (∀ key, key ∈ keys ↔
          (changes.foldl SortedEntries.Change.values (fun _ => none) key).isSome = true) ∧
        ∀ key, map.findIndex key =
          if key ∈ keys then some (keys.countP (fun other => other < key)) else none := by
  obtain ⟨map, finished, kept, value⟩ := changed changes
  refine ⟨map, finished, fun key => (kept.get_eq key).trans (value key), fun key => ?_,
    map.entries.map Prod.fst, List.pairwise_map.mpr kept.sorted, ?_, fun key => ?_, fun key => ?_⟩
  · rw [kept.contains_eq, value]
  · rw [kept.size_eq, List.length_map]
  · rw [← value, SortedEntries.get_isSome_iff]
  · rw [kept.findIndex_eq, List.countP_map, List.countP_eq_length_filter]
    cases found : SortedEntries.get key map.entries with
    | none =>
      have absent : key ∉ map.entries.map Prod.fst := by
        rw [← SortedEntries.get_isSome_iff, found]
        simp
      simp only [Option.map_none, absent, ↓reduceIte]
    | some =>
      have present : key ∈ map.entries.map Prod.fst := by
        rw [← SortedEntries.get_isSome_iff, found]
        rfl
      simp only [Option.map_some, present, ↓reduceIte]
      rfl

section Ranges

omit [DecidableEq V]

variable {map : SortedMap K V}

omit [Inhabited K] [Inhabited V] [LinearOrder K] in
/-- The entries an iterator still visits. -/
def remaining : SortedMap K V → SortedMapIterator K V → List (K × V)
  | .array entries, .array position => entries.drop position
  | .tree _, .tree stack => LlrbNode.remaining stack
  | _, _ => []

omit [Inhabited K] [Inhabited V] [LinearOrder K] in
/-- An iterator into the map. -/
def Into : SortedMap K V → SortedMapIterator K V → Prop
  | .array entries, .array position => position ≤ entries.length
  | .tree _, .tree stack => LlrbNode.Occupied stack
  | _, _ => False

omit [LinearOrder K] in
/-- An iterator points to the first of the entries that remain. -/
theorem Into.keyAt_eq {position : SortedMapIterator K V} (into : map.Into position) :
    map.keyAt position = (map.remaining position).head?.map Prod.fst := by
  cases map <;> cases position
  · simp [keyAt, remaining]
  · exact into.elim
  · exact into.elim
  · rw [keyAt, LlrbNode.pointed_eq into]
    rfl

omit [Inhabited K] [Inhabited V] [LinearOrder K] in
/-- The next position leaves the others. -/
theorem Into.increment {position : SortedMapIterator K V} (into : map.Into position)
    (more : map.remaining position ≠ []) :
    ∃ next, SortedMap.increment position = some next ∧ map.Into next ∧
      map.remaining next = (map.remaining position).tail := by
  cases map <;> cases position
  · rename_i entries position
    have inside : position < entries.length := by
      by_contra outside
      exact more (List.drop_eq_nil_of_le (not_lt.mp outside))
    exact ⟨_, rfl, inside, by simp [remaining]⟩
  · exact into.elim
  · exact into.elim
  · rename_i root stack
    obtain ⟨goesOn, after⟩ := LlrbNode.increment_eq into
    have isSome : (LlrbNode.increment stack).isSome = true := by
      rw [goesOn]
      simpa [remaining] using more
    obtain ⟨next, isNext⟩ := Option.isSome_iff_exists.mp isSome
    exact ⟨.tree next, by rw [SortedMap.increment, isNext]; rfl, after next isNext⟩

/-- Of two iterators into a map the earlier is the later when nothing lies between. -/
theorem Into.same_eq {first last : SortedMapIterator K V} (isFirst : map.Into first)
    (isLast : map.Into last) {between : List (K × V)}
    (reaches : map.remaining first = between ++ map.remaining last)
    (sorted : SortedEntries.Sorted (map.remaining first)) : same first last = between.isEmpty := by
  cases map <;> cases first <;> cases last <;> try exact isFirst.elim
  · rename_i entries position finish
    have lengths := congrArg List.length reaches
    simp only [remaining, List.length_append, List.length_drop] at lengths
    have inside : position ≤ entries.length := isFirst
    have finishInside : finish ≤ entries.length := isLast
    cases between with
    | nil =>
      simp only [List.length_nil] at lengths
      simp only [same, List.isEmpty_nil, beq_iff_eq]
      omega
    | cons entry rest =>
      simp only [List.length_cons] at lengths
      simp only [same, List.isEmpty_cons, beq_eq_false_iff_ne]
      omega
  · exact isLast.elim
  · exact isLast.elim
  · rename_i root stack later
    simp only [same, LlrbNode.pointed_eq isFirst, LlrbNode.pointed_eq isLast]
    simp only [remaining] at reaches sorted
    cases between with
    | nil =>
      rw [reaches, List.nil_append]
      cases (LlrbNode.remaining later).head? <;> simp
    | cons entry rest =>
      rw [reaches]
      cases ended : LlrbNode.remaining later with
      | nil => rfl
      | cons other others =>
        rw [reaches, ended, List.cons_append] at sorted
        have below : entry.1 < other.1 :=
          (List.pairwise_cons.mp sorted).1 other (List.mem_append_right _ List.mem_cons_self)
        simpa using below.ne

/-- The loop over a range visits the keys between its two iterators, and ends. -/
theorem Into.visit_eq {last : SortedMapIterator K V} (isLast : map.Into last)
    {position : SortedMapIterator K V} (into : map.Into position) {between : List (K × V)}
    (reaches : map.remaining position = between ++ map.remaining last)
    (sorted : SortedEntries.Sorted (map.remaining position)) {rounds : Nat}
    (enough : between.length ≤ rounds) :
    map.visit last rounds position = some (between.map Prod.fst) := by
  induction between generalizing position rounds with
  | nil =>
    have ended : same position last = true := into.same_eq isLast reaches sorted
    cases rounds <;> simp [visit, ended]
  | cons entry rest inductionHypothesis =>
    have goesOn : same position last = false := into.same_eq isLast reaches sorted
    cases rounds with
    | zero => simp at enough
    | succ rounds =>
      obtain ⟨next, isNext, intoNext, tail⟩ := into.increment (by rw [reaches]; simp)
      rw [reaches, List.cons_append, List.tail_cons] at tail
      have later : SortedEntries.Sorted (map.remaining next) := by
        rw [reaches, List.cons_append] at sorted
        rw [tail]
        exact (List.pairwise_cons.mp sorted).2
      have visited := inductionHypothesis intoNext tail later
        (Nat.le_of_succ_le_succ enough)
      rw [visit, goesOn, into.keyAt_eq, reaches, isNext]
      simp [visited]

omit [Inhabited K] [Inhabited V] in
/-- From the lower bound of a key remain the entries not below it. -/
theorem Kept.lowerBound (kept : map.Kept) (key : K) :
    map.Into (map.lowerBound key) ∧
      map.remaining (map.lowerBound key) = SortedEntries.above key map.entries := by
  cases map with
  | array entries =>
    refine ⟨?_, (ArraySortedMap.lowerBound_split key kept.1).2⟩
    exact List.findIdx_le_length
  | tree root =>
    refine ⟨LlrbNode.occupied_lowerBound (by simp [LlrbNode.Occupied]), ?_⟩
    have visits := LlrbNode.remaining_lowerBound key (LlrbNode.Balanced.sorted kept) []
    rw [SortedMap.lowerBound, remaining, visits]
    exact List.append_nil _

/-- A range visits exactly the keys from its start to before its end, in order, whatever
the map has become, and no increment runs past the end. -/
theorem keysIn_exact [DecidableEq V] (changes : List (SortedEntries.Change K V)) (startKey endKey : K) :
    ∃ map : SortedMap K V, changes.foldlM SortedMap.change (.array []) = some map ∧
      ∀ rounds, map.size ≤ rounds →
        ∃ keys : List K, map.visit (map.keysIn startKey endKey).2 rounds
            (map.keysIn startKey endKey).1 = some keys ∧ keys.Pairwise (· < ·) ∧
          ∀ key, key ∈ keys ↔ startKey ≤ key ∧ key < endKey ∧
            (changes.foldl SortedEntries.Change.values (fun _ => none) key).isSome = true := by
  obtain ⟨map, finished, kept, value⟩ := changed changes
  refine ⟨map, finished, fun rounds enough => ?_⟩
  by_cases ascending : startKey < endKey
  · obtain ⟨intoStart, fromStart⟩ := kept.lowerBound startKey
    obtain ⟨intoEnd, fromEnd⟩ := kept.lowerBound endKey
    have apart : SortedEntries.above startKey (SortedEntries.above endKey map.entries) =
        SortedEntries.above endKey map.entries := by
      refine List.filter_eq_self.mpr fun entry member => ?_
      have beyond : endKey ≤ entry.1 := by simpa using (List.mem_filter.mp member).2
      simpa using ascending.le.trans beyond
    have reaches : map.remaining (map.lowerBound startKey) =
        SortedEntries.above startKey (map.entries.filter (fun entry => entry.1 < endKey)) ++
          map.remaining (map.lowerBound endKey) := by
      rw [fromStart, fromEnd]
      conv_lhs => rw [← SortedEntries.beneath_above kept.sorted endKey]
      rw [SortedEntries.above, List.filter_append]
      exact congrArg _ apart
    have sorted : SortedEntries.Sorted (map.remaining (map.lowerBound startKey)) := by
      rw [fromStart]
      exact kept.sorted.filter _
    have within : (SortedEntries.above startKey
        (map.entries.filter (fun entry => entry.1 < endKey))).length ≤ rounds := by
      refine Nat.le_trans ?_ (kept.size_eq ▸ enough)
      exact (List.length_filter_le _ _).trans (List.length_filter_le _ _)
    refine ⟨(SortedEntries.above startKey
      (map.entries.filter (fun entry => entry.1 < endKey))).map Prod.fst, ?_,
      List.pairwise_map.mpr ((kept.sorted.filter _).filter _), fun key => ?_⟩
    · simp only [keysIn, compare_lt_iff_lt.mpr ascending, ↓reduceIte]
      exact intoEnd.visit_eq intoStart reaches sorted within
    · rw [← value, SortedEntries.get_isSome_iff]
      simp only [SortedEntries.above, List.mem_map, List.mem_filter, decide_eq_true_eq]
      constructor
      · rintro ⟨entry, ⟨⟨member, before⟩, from'⟩, rfl⟩
        exact ⟨from', before, entry, member, rfl⟩
      · rintro ⟨from', before, entry, member, rfl⟩
        exact ⟨entry, ⟨⟨member, before⟩, from'⟩, rfl⟩
  · have descending : compare startKey endKey ≠ .lt := by
      simpa [compare_lt_iff_lt] using ascending
    have ended : same map.theEnd map.theEnd = true := by
      cases map <;> simp [theEnd, same, LlrbNode.pointed]
    refine ⟨[], ?_, List.Pairwise.nil, fun key => ?_⟩
    · simp only [keysIn, descending, ↓reduceIte]
      cases rounds <;> simp [visit, ended]
    · simp only [List.not_mem_nil, false_iff, not_and]
      exact fun first last => absurd (first.trans_lt last) ascending

end Ranges

end SortedMap

end Amigo.Firestore
