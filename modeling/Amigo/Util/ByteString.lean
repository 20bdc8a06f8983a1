import Mathlib.Data.List.Basic
import Mathlib.Order.Fin.Basic
import Mathlib.Tactic.Ring
import Amigo.OrderedCodes

/-!
# Bytes and the numbers they write

The number that some bytes write, the first byte counting most, and a number written in
so many bytes. Words of equal length are ordered as their numbers; bytes that are
turned over write what is missing to the largest number, and are ordered the other way.
-/

namespace Amigo.Firestore

open OrderedCodes

/-- A byte. -/
abbrev Byte := Fin 256

instance byteNonzero : NeZero 256 := ⟨by decide⟩

/-- An opaque string of bytes. -/
abbrev ByteString := List Byte

namespace ByteString

/-- The number that bytes write, the first of them counting most. -/
def value : ByteString → Nat
  | [] => 0
  | byte :: rest => byte.val * 256 ^ rest.length + value rest

/-- The last bytes of a number, so many of them. -/
def bigEndian : Nat → Nat → ByteString
  | 0, _ => []
  | length + 1, number => Fin.ofNat 256 (number / 256 ^ length) :: bigEndian length number

/-- A number is written in as many bytes as asked. -/
@[simp] theorem length_bigEndian (length number : Nat) :
    (bigEndian length number).length = length := by
  induction length with
  | zero => rfl
  | succ length inductionHypothesis => rw [bigEndian, List.length_cons, inductionHypothesis]

/-- Bytes have a value below the power their length gives. -/
theorem value_lt (bytes : ByteString) : value bytes < 256 ^ bytes.length := by
  induction bytes with
  | nil => simp [value]
  | cons byte rest inductionHypothesis =>
    have most : byte.val * 256 ^ rest.length ≤ 255 * 256 ^ rest.length :=
      Nat.mul_le_mul_right _ (Nat.le_of_lt_succ byte.isLt)
    rw [value, List.length_cons, Nat.pow_succ]
    omega

/-- The value of bytes and others behind them. -/
theorem value_append (bytes others : ByteString) :
    value (bytes ++ others) = value bytes * 256 ^ others.length + value others := by
  induction bytes with
  | nil => simp [value]
  | cons byte rest inductionHypothesis =>
    rw [List.cons_append, value, value, inductionHypothesis, List.length_append]
    ring

/-- Written and read back, a number is cut to its length. -/
theorem value_bigEndian (length number : Nat) :
    value (bigEndian length number) = number % 256 ^ length := by
  induction length with
  | zero => simp [value, bigEndian, Nat.mod_one]
  | succ length inductionHypothesis =>
    rw [bigEndian, value, inductionHypothesis, length_bigEndian, Fin.val_ofNat, Nat.pow_succ,
      Nat.mod_mul, Nat.mul_comm]
    ring

/-- Bytes are the number they write. -/
theorem bigEndian_value (bytes : ByteString) : bigEndian bytes.length (value bytes) = bytes := by
  have shift (length number more : Nat) :
      bigEndian length (more * 256 ^ length + number) = bigEndian length number := by
    induction length generalizing more with
    | zero => rfl
    | succ length inductionHypothesis =>
      have split : more * 256 ^ (length + 1) + number =
          more * 256 * 256 ^ length + number := by ring
      have positive : 0 < 256 ^ length := Nat.pos_of_ne_zero (by simp)
      rw [bigEndian, bigEndian, split, inductionHypothesis, List.cons.injEq, Fin.ext_iff]
      refine ⟨?_, rfl⟩
      rw [Fin.val_ofNat, Fin.val_ofNat, Nat.add_comm, Nat.add_mul_div_right _ _ positive,
        Nat.add_mul_mod_self_right]
  induction bytes with
  | nil => rfl
  | cons byte rest inductionHypothesis =>
    have positive : 0 < 256 ^ rest.length := Nat.pos_of_ne_zero (by simp)
    have first : (byte.val * 256 ^ rest.length + value rest) / 256 ^ rest.length = byte.val := by
      rw [Nat.add_comm, Nat.add_mul_div_right _ _ positive, Nat.div_eq_of_lt (value_lt rest),
        Nat.zero_add]
    rw [List.length_cons, bigEndian, value, first, shift, inductionHypothesis, List.cons.injEq,
      Fin.ext_iff]
    exact ⟨by simp, rfl⟩

/-- Bytes of one length that write the same number are the same. -/
theorem value_inj {bytes others : ByteString} (same : bytes.length = others.length)
    (equal : value bytes = value others) : bytes = others := by
  rw [← bigEndian_value bytes, equal, same, bigEndian_value]

/-- Bytes of one length part where their numbers differ. -/
theorem before_of_value {bytes others : ByteString} (same : bytes.length = others.length)
    (less : value bytes < value others) : Before bytes others := by
  induction bytes generalizing others with
  | nil =>
    rw [List.length_eq_zero_iff.mp same.symm] at less
    exact absurd less (lt_irrefl _)
  | cons byte rest inductionHypothesis =>
    cases others with
    | nil => simp at same
    | cons other more =>
      rw [List.length_cons, List.length_cons, Nat.add_right_cancel_iff] at same
      obtain lower | rfl | higher := lt_trichotomy byte other
      · exact .of_lt lower rest more
      · refine (inductionHypothesis same ?_).cons byte
        rw [value, value, same] at less
        omega
      · have most := value_lt more
        have gap : (other.val + 1) * 256 ^ rest.length ≤ byte.val * 256 ^ rest.length :=
          Nat.mul_le_mul_right _ higher
        rw [value, value, ← same] at less
        rw [← same] at most
        rw [Nat.add_mul] at gap
        omega

/-- The first string after all that begin so: the last byte is raised, and bytes that are
the greatest are left out before. -/
def prefixSuccessor (beginning : ByteString) : ByteString :=
  match beginning.reverse.dropWhile (fun byte => byte = 255) with
  | [] => []
  | byte :: front => front.reverse ++ [byte + 1]

/-- A last byte below 255 is raised. -/
theorem prefixSuccessor_append (front : ByteString) {last : Byte} (small : last ≠ 255) :
    prefixSuccessor (front ++ [last]) = front ++ [last + 1] := by
  simp [prefixSuccessor, small]

/-- Before the successor is what is before the beginning, and what begins so. -/
theorem lt_successor_iff (front : ByteString) {last : Byte} (small : last ≠ 255)
    (key : ByteString) :
    key < front ++ [last + 1] ↔ key < front ++ [last] ∨ front ++ [last] <+: key := by
  induction front generalizing key with
  | nil =>
    cases key with
    | nil => simp
    | cons byte rest =>
      have raised : (last + 1).val = last.val + 1 := by
        have bound := last.isLt
        have notLast : last.val ≠ 255 := fun same => small (Fin.ext same)
        rw [Fin.val_add]
        exact Nat.mod_eq_of_lt (by simp; omega)
      have least : byte < last + 1 ↔ byte < last ∨ last = byte := by
        rw [Fin.lt_def, Fin.lt_def, Fin.ext_iff, raised]
        omega
      simp [List.cons_lt_cons_iff, least]
  | cons byte front inductionHypothesis =>
    cases key with
    | nil => simp
    | cons other rest =>
      simp only [List.cons_append, List.cons_lt_cons_iff, inductionHypothesis,
        List.cons_prefix_cons]
      tauto

/-- Every byte turned over. -/
def complement (bytes : ByteString) : ByteString := bytes.map Fin.rev

/-- The complement has as many bytes. -/
@[simp] theorem length_complement (bytes : ByteString) :
    (complement bytes).length = bytes.length := List.length_map _

/-- The complement of the complement is the string. -/
@[simp] theorem complement_complement (bytes : ByteString) :
    complement (complement bytes) = bytes := by
  rw [complement, complement, List.map_map, Fin.rev_involutive.comp_self, List.map_id]

/-- Strings are complemented one after the other. -/
theorem complement_append (bytes others : ByteString) :
    complement (bytes ++ others) = complement bytes ++ complement others := List.map_append

/-- A string and its complement add up to all ones. -/
theorem value_complement (bytes : ByteString) :
    value (complement bytes) + value bytes + 1 = 256 ^ bytes.length := by
  induction bytes with
  | nil => rfl
  | cons byte rest inductionHypothesis =>
    have turned : byte.rev.val + byte.val = 255 := by
      rw [Fin.val_rev]
      omega
    have whole : (byte.rev.val + byte.val) * 256 ^ rest.length + 256 ^ rest.length =
        256 ^ (byte :: rest).length := by
      rw [turned, List.length_cons]
      ring
    have unfolded : complement (byte :: rest) = byte.rev :: complement rest := rfl
    rw [unfolded, value, value, length_complement, ← whole, ← inductionHypothesis]
    ring

/-- Words turned over part the other way. -/
theorem before_complement {bytes others : ByteString} (before : Before bytes others) :
    Before (complement others) (complement bytes) := by
  obtain ⟨shared, low, high, rest, more, rfl, rfl, less⟩ := before
  rw [complement_append, complement_append]
  exact (Before.of_lt (Fin.rev_lt_rev.mpr less) _ _).prepend _

end ByteString

end Amigo.Firestore
