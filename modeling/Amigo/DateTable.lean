import Amigo.LocalStore

/-!
# The table of last updates as a key-value store

A date is written under the exact text of its name and looked up by LIKE, and it
passes through a column of doubles. A lookup therefore answers with the last value
of one name it matches, the one whose last call lies furthest back, rounded to the
nearest double and clamped to 64 bits. The law of a key-value store holds when
that name is the one asked for and its value has at most 53 significant bits, or
when another name's value happens to read back as the right one.

Every sequence of calls on the table a fresh install creates is covered, with the
names the app uses as the case where only the double remains to be watched. That the
rounding used here is to a nearest double is proved first.
-/

namespace Amigo

/-! ## A double holds 53 bits -/

/-- The value has at most 53 significant bits. -/
def FitsDouble (value : Int) : Prop :=
  ∃ significand shift : Nat, value.natAbs = significand * 2 ^ shift ∧ significand < 2 ^ 53

/-- The distance between the doubles around a value. -/
def doubleUnit (value : Int) : Nat := 2 ^ (value.natAbs.log2 - 52)

/-- The unit of a double is positive. -/
theorem doubleUnit_pos (value : Int) : 0 < doubleUnit value := Nat.two_pow_pos _

/-- A magnitude has fewer than 2^53 units. -/
theorem quotient_lt (value : Int) : value.natAbs / doubleUnit value < 2 ^ 53 := by
  have upper : value.natAbs < 2 ^ (value.natAbs.log2 + 1) := Nat.lt_log2_self
  have covered : 2 ^ (value.natAbs.log2 + 1) ≤ 2 ^ 53 * doubleUnit value := by
    rw [doubleUnit, ← Nat.pow_add]
    exact Nat.pow_le_pow_right (by decide) (by omega)
  exact Nat.div_lt_of_lt_mul (Nat.mul_comm _ _ ▸ Nat.lt_of_lt_of_le upper covered)

/-- Rounding takes the multiple of the unit below or the one above, whichever is not
farther. -/
theorem nearestDouble_eq (value : Int) : ∃ rounded : Nat,
    nearestDouble value = value.sign * (rounded * doubleUnit value : Nat) ∧
      ((rounded = value.natAbs / doubleUnit value ∧
          2 * (value.natAbs % doubleUnit value) ≤ doubleUnit value) ∨
        (rounded = value.natAbs / doubleUnit value + 1 ∧
          doubleUnit value ≤ 2 * (value.natAbs % doubleUnit value))) := by
  refine ⟨_, rfl, ?_⟩
  rw [← doubleUnit]
  split
  · rename_i up
    exact Or.inr ⟨rfl, by omega⟩
  · rename_i down
    exact Or.inl ⟨rfl, by omega⟩

/-- A rounded value is a double. -/
theorem nearestDouble_fits (value : Int) : FitsDouble (nearestDouble value) := by
  obtain ⟨rounded, result, choice⟩ := nearestDouble_eq value
  have bound : rounded ≤ 2 ^ 53 := by
    have below := quotient_lt value
    omega
  by_cases zero : value = 0
  · subst zero
    exact ⟨0, 0, by simp [result], by decide⟩
  · have magnitude : (nearestDouble value).natAbs = rounded * doubleUnit value := by
      rw [result, Int.natAbs_mul, Int.natAbs_sign_of_ne_zero zero, Int.natAbs_natCast, Nat.one_mul]
    obtain below | full := Nat.lt_or_eq_of_le bound
    · exact ⟨rounded, _, magnitude, below⟩
    · refine ⟨2 ^ 52, value.natAbs.log2 - 52 + 1, ?_, by decide⟩
      rw [magnitude, full, doubleUnit, ← Nat.pow_add, ← Nat.pow_add]
      congr 1
      omega

/-- No double lies strictly between the two multiples of the unit around a value. -/
theorem fitsDouble_apart (value : Int) {other : Int} (fits : FitsDouble other) :
    other.natAbs ≤ value.natAbs / doubleUnit value * doubleUnit value ∨
      (value.natAbs / doubleUnit value + 1) * doubleUnit value ≤ other.natAbs := by
  obtain ⟨significand, shift, split, small⟩ := fits
  by_cases coarse : value.natAbs.log2 - 52 ≤ shift
  · obtain ⟨count, isMultiple⟩ : doubleUnit value ∣ other.natAbs :=
      split ▸ Nat.dvd_mul_left_of_dvd (Nat.pow_dvd_pow 2 coarse) significand
    rw [isMultiple, Nat.mul_comm (doubleUnit value)]
    obtain below | above := Nat.lt_or_ge (value.natAbs / doubleUnit value) count
    · exact Or.inr (Nat.mul_le_mul_right _ below)
    · exact Or.inl (Nat.mul_le_mul_right _ above)
  · left
    have large : value.natAbs ≠ 0 := by
      rintro zero
      simp [zero] at coarse
    have lower := Nat.log2_self_le large
    have power : 2 ^ 52 * doubleUnit value = 2 ^ value.natAbs.log2 := by
      rw [doubleUnit, ← Nat.pow_add]
      congr 1
      omega
    have units : 2 ^ 52 ≤ value.natAbs / doubleUnit value :=
      (Nat.le_div_iff_mul_le (doubleUnit_pos value)).mpr (power ▸ lower)
    have fine : other.natAbs < 2 ^ 53 * 2 ^ shift :=
      split ▸ Nat.mul_lt_mul_of_pos_right small (Nat.two_pow_pos shift)
    have within : 2 ^ 53 * 2 ^ shift ≤ 2 ^ value.natAbs.log2 := by
      rw [← Nat.pow_add]
      exact Nat.pow_le_pow_right (by decide) (by omega)
    have reached := Nat.mul_le_mul_right (doubleUnit value) units
    omega

/-- No double is nearer to a value than the one it is rounded to. -/
theorem nearestDouble_nearest (value : Int) {other : Int} (fits : FitsDouble other) :
    (nearestDouble value - value).natAbs ≤ (other - value).natAbs := by
  obtain ⟨rounded, result, choice⟩ := nearestDouble_eq value
  have apart := fitsDouble_apart value fits
  have divided := Nat.div_add_mod value.natAbs (doubleUnit value)
  have remainder := Nat.mod_lt value.natAbs (doubleUnit_pos value)
  rw [Nat.add_mul, Nat.one_mul] at apart
  rw [Nat.mul_comm] at divided
  have magnitude : rounded * doubleUnit value = value.natAbs / doubleUnit value * doubleUnit value ∧
      2 * (value.natAbs % doubleUnit value) ≤ doubleUnit value ∨
    rounded * doubleUnit value =
        value.natAbs / doubleUnit value * doubleUnit value + doubleUnit value ∧
      doubleUnit value ≤ 2 * (value.natAbs % doubleUnit value) := by
    obtain ⟨rfl, near⟩ | ⟨rfl, near⟩ := choice
    · exact Or.inl ⟨rfl, near⟩
    · exact Or.inr ⟨by rw [Nat.add_mul, Nat.one_mul], near⟩
  rw [result]
  generalize rounded * doubleUnit value = nearest at magnitude ⊢
  generalize value.natAbs / doubleUnit value * doubleUnit value = lower at *
  generalize value.natAbs % doubleUnit value = rest at *
  obtain negative | zero | positive := Int.lt_trichotomy value 0
  · rw [Int.sign_eq_neg_one_of_neg negative]
    omega
  · rw [zero]
    simp
  · rw [Int.sign_eq_one_of_pos positive]
    omega

/-- Rounding moves exactly the values with more than 53 significant bits. -/
theorem nearestDouble_eq_self_iff (value : Int) : nearestDouble value = value ↔ FitsDouble value := by
  constructor
  · intro same
    exact same ▸ nearestDouble_fits value
  · intro fits
    have near := nearestDouble_nearest value fits
    omega

/-- Small integers are doubles. -/
theorem fitsDouble_small {value : Int} (small : value.natAbs ≤ 2 ^ 53) : FitsDouble value := by
  obtain below | equal := Nat.lt_or_eq_of_le small
  · exact ⟨value.natAbs, 0, by simp, below⟩
  · exact ⟨1, 53, by rw [equal, Nat.one_mul], by decide⟩

/-- What a stored value reads back as. -/
def readBack (value : Int) : Int := columnInt64 (nearestDouble value)

/-- A 64-bit value is read back unchanged exactly when it has at most 53 significant
bits, or when it is the largest one, to which the clamp returns. -/
theorem readBack_eq_self_iff (value : Int64) :
    readBack value.toInt = value.toInt ↔ FitsDouble value.toInt ∨ value = Int64.maxValue := by
  have bound : value.toInt < 2 ^ 63 := Int64.toInt_lt value
  rw [← nearestDouble_eq_self_iff, readBack, columnInt64]
  have largest : value = Int64.maxValue ↔ value.toInt = 2 ^ 63 - 1 := by
    rw [← Int64.toInt_inj]
    exact Iff.rfl
  rw [largest]
  split
  · rename_i inside
    constructor
    · exact Or.inl
    · rintro (same | isLargest)
      · exact same
      · have rounded : nearestDouble (2 ^ 63 - 1) = 2 ^ 63 := by decide +kernel
        rw [isLargest, rounded] at inside
        omega
  · rename_i outside
    constructor
    · intro same
      exact Or.inr same.symm
    · rintro (same | isLargest)
      · rw [same] at outside
        exact absurd bound outside
      · exact isLargest.symm

/-! ## The store -/

/-- A call of `setLastUpdate`. Its name is bound whole. -/
structure DateCall where
  name : String
  lastUpdated : Int64
  clean : nul ∉ name.toList

/-- The table after a sequence of calls on a fresh install. -/
def setAll (calls : List DateCall) : List DateRow :=
  calls.foldl (fun dates call => setLastUpdate call.name call.lastUpdated.toInt dates) []

/-- What a key-value store returns: the value of the last call under exactly this
name, or zero. -/
def lastValue (name : String) (calls : List DateCall) : Int :=
  ((calls.filter (fun call => decide (call.name = name))).getLast?.map
    (fun call => call.lastUpdated.toInt)).getD 0

/-- A lookup of the name matches the name of a call. -/
def Matches (name : String) (call : DateCall) : Prop :=
  LikePattern.like (cString name).toList call.name.toList = true

/-- The call whose value a lookup finds: the last one of its name, a name the lookup
matches, such that every other matching name called before is called again after. -/
def Answers (name : String) (calls : List DateCall) (call : DateCall) : Prop :=
  Matches name call ∧ ∃ earlier later, calls = earlier ++ call :: later ∧
    (∀ other ∈ later, call.name ≠ other.name) ∧
    ∀ other ∈ earlier, Matches name other → ∃ again ∈ call :: later, other.name = again.name

/-- The row a call leaves. -/
def DateCall.row (call : DateCall) : DateRow :=
  ⟨cString call.name, nearestDouble call.lastUpdated.toInt⟩

/-- Calls for one name. -/
def sameCall (first second : DateCall) : Prop := first.name = second.name

instance : DecidableRel sameCall := fun first second =>
  inferInstanceAs (Decidable (first.name = second.name))

/-- The rows a table of calls leaves are those of the last call of each name, in the
order of these calls. -/
theorem setAll_eq (calls : List DateCall) :
    setAll calls = (KeyedRows.lastOfEach sameCall calls).map DateCall.row := by
  have stores : setAll calls = KeyedRows.upsertAll sameName [] (calls.map DateCall.row) := by
    rw [setAll, KeyedRows.upsertAll, List.foldl_map]
    rfl
  have same (call other : DateCall) : sameName call.row other.row ↔ sameCall call other := by
    simp only [sameName, sameCall, DateCall.row, cString_clean call.clean, cString_clean other.clean]
  rw [stores, KeyedRows.upsertAll_eq, List.filter_nil, List.nil_append, KeyedRows.lastOfEach_map same]

/-- A lookup reads the value of the call that answers it. -/
theorem getLastUpdateDate_eq (name : String) (calls : List DateCall) :
    getLastUpdateDate name (setAll calls) =
      (((KeyedRows.lastOfEach sameCall calls).find? (fun call =>
        LikePattern.like (cString name).toList call.name.toList)).map
          (fun call => readBack call.lastUpdated.toInt)).getD 0 := by
  have tested (call : DateCall) : call.row.name = call.name := cString_clean call.clean
  simp only [getLastUpdateDate, setAll_eq, List.find?_map, Function.comp_def, tested]
  cases (KeyedRows.lastOfEach sameCall calls).find? _ <;> rfl

/-- The call the lookup finds is the one that answers it. -/
theorem found_iff_answers (name : String) (calls : List DateCall) (call : DateCall) :
    (KeyedRows.lastOfEach sameCall calls).find? (fun call =>
      LikePattern.like (cString name).toList call.name.toList) = some call ↔
    Answers name calls call := by
  apply KeyedRows.find?_lastOfEach_iff
  · intro first second third left right
    exact left.trans right
  · intro first second same matched
    exact same ▸ matched

/-- Under a name that no call has, the store returns zero. -/
theorem lastValue_missing {name : String} {calls : List DateCall}
    (missing : ∀ call ∈ calls, call.name ≠ name) : lastValue name calls = 0 := by
  have none : calls.filter (fun call => decide (call.name = name)) = [] := by
    rw [List.filter_eq_nil_iff]
    intro call member
    simpa using missing call member
  rw [lastValue, none]
  rfl

/-- The store returns the value of a call that no later one of its name follows. -/
theorem lastValue_last {earlier later : List DateCall} {call : DateCall}
    (last : ∀ other ∈ later, call.name ≠ other.name) :
    lastValue call.name (earlier ++ call :: later) = call.lastUpdated.toInt := by
  have gone : later.filter (fun other => decide (other.name = call.name)) = [] := by
    rw [List.filter_eq_nil_iff]
    intro other member
    simpa using (last other member).symm
  rw [lastValue, List.filter_append, List.filter_cons_of_pos (by simp), gone,
    List.getLast?_concat]
  rfl

/-- A name matches itself, so a lookup no call answers is of a name no call has. -/
theorem matches_own (call : DateCall) : Matches call.name call := by
  rw [Matches, cString_clean call.clean]
  exact LikePattern.like_self _

/-- A lookup returns the last value under exactly its name if and only if the call
that answers it is of that name and its value fits a double or is the largest one,
or is of another name and its value happens to read back as the right one. -/
theorem date_table_exact_iff (name : String) (calls : List DateCall) :
    getLastUpdateDate name (setAll calls) = lastValue name calls ↔
      ∀ call, Answers name calls call →
        (call.name = name ∧
          (FitsDouble call.lastUpdated.toInt ∨ call.lastUpdated = Int64.maxValue)) ∨
        (call.name ≠ name ∧ readBack call.lastUpdated.toInt = lastValue name calls) := by
  rw [getLastUpdateDate_eq]
  simp only [← found_iff_answers]
  cases found : (KeyedRows.lastOfEach sameCall calls).find? (fun call =>
      LikePattern.like (cString name).toList call.name.toList) with
  | none =>
    have unmatched : ∀ call ∈ calls, ¬ Matches name call :=
      (KeyedRows.find?_lastOfEach_none_iff (fun _ _ same matched => same ▸ matched)).mp found
    have missing : ∀ call ∈ calls, call.name ≠ name := by
      intro call member same
      exact unmatched call member (same ▸ matches_own call)
    simp [lastValue_missing missing]
  | some call =>
    have answers := (found_iff_answers name calls call).mp found
    simp only [Option.some.injEq, forall_eq', Option.map_some, Option.getD_some]
    by_cases own : call.name = name
    · obtain ⟨_, earlier, later, rfl, last, _⟩ := answers
      subst own
      rw [lastValue_last last, readBack_eq_self_iff]
      simp
    · simp [own]

/-- One more than 2^53 is read back as 2^53. -/
theorem date_table_not_always_exact : ¬ ∀ (name : String) (calls : List DateCall),
    getLastUpdateDate name (setAll calls) = lastValue name calls := by
  intro always
  have exact := always "USER" [⟨"USER", 9007199254740993, by decide⟩]
  exact absurd exact (by decide +kernel)

/-- The names the app stores dates under. -/
def tableNames : List String := ["POSTAMIGO", "USER"]

/-- The app's own names do not match each other, so for them the table is a key-value
store of all dates up to 2^53. -/
theorem date_table_app_names {name : String} (isTable : name ∈ tableNames) {calls : List DateCall}
    (tables : ∀ call ∈ calls, call.name ∈ tableNames)
    (small : ∀ call ∈ calls, call.lastUpdated.toInt.natAbs ≤ 2 ^ 53) :
    getLastUpdateDate name (setAll calls) = lastValue name calls := by
  rw [date_table_exact_iff]
  rintro call ⟨matched, earlier, later, rfl, _⟩
  have member : call ∈ earlier ++ call :: later := by simp
  have apart : ∀ first ∈ tableNames, ∀ second ∈ tableNames,
      LikePattern.like (cString first).toList second.toList = true → second = first := by
    decide +kernel
  exact Or.inl ⟨apart name isTable call.name (tables call member) matched, Or.inl (fitsDouble_small (small call member))⟩

end Amigo
