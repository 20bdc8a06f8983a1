import Mathlib.Tactic.IntervalCases
import Amigo.Util.OrderedCode

/-!
# Written numbers

A number that is not negative is written in the fewest bytes that hold it beside the
bits that tell its length; a negative one is written as the number of the same bits
without its sign, turned over. So numbers are ordered as they are written, whatever
follows.
-/

namespace Amigo.Firestore.OrderedCode

open OrderedCodes ByteString

/-- The bits that tell the length, in a number of so many bytes. -/
def header (length : Nat) : Nat := 2 ^ (7 * length) * (2 ^ length - 1)

/-- The fewest bytes for a number of 63 bits. -/
structure Fits (number length : Nat) : Prop where
  positive : 1 ≤ length
  atMost : length ≤ 10
  small : number < 2 ^ 63
  enough : number < 2 ^ (7 * length - 1)
  needed : length = 1 ∨ 2 ^ (7 * (length - 1) - 1) ≤ number

/-- Of two numbers the lesser needs no more bytes. -/
theorem Fits.mono {low high lowLength highLength : Nat} (lowFits : Fits low lowLength)
    (highFits : Fits high highLength) (less : low ≤ high) : lowLength ≤ highLength := by
  obtain rfl | needed := lowFits.needed
  · exact highFits.positive
  · have more := (needed.trans less).trans_lt highFits.enough
    have exponents := (Nat.pow_lt_pow_iff_right (by decide)).mp more
    have one := highFits.positive
    omega

/-- A number fits one length only. -/
theorem Fits.unique {number length other : Nat} (fits : Fits number length)
    (alike : Fits number other) : length = other :=
  Nat.le_antisymm (fits.mono alike le_rfl) (alike.mono fits le_rfl)

/-- A number lies between the powers of two its bits give. -/
theorem bits_bounds (number : Nat) :
    number < 2 ^ bits number ∧ (bits number = 0 ∨ 2 ^ (bits number - 1) ≤ number) := by
  by_cases zero : number = 0
  · simp [bits, zero]
  · rw [bits, if_neg zero]
    exact ⟨Nat.lt_log2_self, .inr (Nat.log2_self_le zero)⟩

/-- The table of lengths. -/
theorem kBitsToLength_spec (count : Fin 64) : ∃ length : Fin 11,
    kBitsToLength[count.val]? = some length.val ∧ 1 ≤ length.val ∧
      count.val ≤ 7 * length.val - 1 ∧ (length.val = 1 ∨ 7 * (length.val - 1) ≤ count.val) := by
  revert count
  decide +kernel

/-- The length of the encoding is the fewest bytes that do. -/
theorem exists_fits {n : Int} (small : magnitude n < 2 ^ 63) :
    ∃ length, signedEncodingLength n = some length ∧ Fits (magnitude n) length := by
  obtain ⟨above, below⟩ := bits_bounds (magnitude n)
  have few : bits (magnitude n) < 64 := by
    obtain zero | below := below
    · omega
    · have exponents := (Nat.pow_lt_pow_iff_right (by decide)).mp (below.trans_lt small)
      omega
  obtain ⟨length, found, positive, enough, needed⟩ := kBitsToLength_spec ⟨_, few⟩
  refine ⟨length, found, positive, Nat.lt_succ_iff.mp length.isLt, small,
    above.trans_le (Nat.pow_le_pow_right (by decide) enough), ?_⟩
  obtain one | more := needed
  · exact .inl one
  · by_cases one : length.val = 1
    · exact .inl one
    · refine .inr ?_
      obtain zero | below := below
      · simp only [zero] at more
        omega
      · exact (Nat.pow_le_pow_right (by decide) (Nat.sub_le_sub_right more 1)).trans below

/-- The table of lengths gives the length the number fits. -/
theorem signedEncodingLength_iff {n : Int} (small : magnitude n < 2 ^ 63) (length : Nat) :
    signedEncodingLength n = some length ↔ Fits (magnitude n) length := by
  obtain ⟨known, found, fits⟩ := exists_fits small
  rw [found, Option.some_inj]
  constructor
  · rintro rfl
    exact fits
  · exact fits.unique

/-- A number in so many bytes, with the bits that tell their count. -/
def sized (length number : Nat) : ByteString := bigEndian length (header length + number)

/-- A header and the numbers beneath it fill the bytes. -/
theorem header_eq (length : Nat) : header length + 2 ^ (7 * length) = 256 ^ length := by
  have one : 1 ≤ 2 ^ length := Nat.one_le_two_pow
  rw [header, ← Nat.mul_succ, Nat.succ_eq_add_one, Nat.sub_add_cancel one, ← Nat.pow_add,
    show 256 = 2 ^ 8 from rfl, ← Nat.pow_mul]
  congr 1
  omega

/-- Half of what a length leaves to its number. -/
theorem Fits.halved {number length : Nat} (fits : Fits number length) :
    2 ^ (7 * length) = 2 * 2 ^ (7 * length - 1) := by
  have one := fits.positive
  rw [← Nat.pow_succ']
  congr 1
  omega

/-- The word of a number has the value of its header and itself. -/
theorem Fits.value_sized {number length : Nat} (fits : Fits number length) :
    value (sized length number) = header length + number := by
  have whole := header_eq length
  have halved := fits.halved
  have enough := fits.enough
  rw [sized, value_bigEndian, Nat.mod_eq_of_lt (by omega)]

/-- A number of more bytes comes after. -/
theorem Fits.before {low high lowLength highLength : Nat} (lowFits : Fits low lowLength)
    (highFits : Fits high highLength) (less : low < high) :
    Before (sized lowLength low) (sized highLength high) := by
  have lowValue := lowFits.value_sized
  have highValue := highFits.value_sized
  obtain same | shorter := (lowFits.mono highFits less.le).eq_or_lt
  · subst same
    refine before_of_value (by simp [sized]) ?_
    omega
  · obtain ⟨more, rfl⟩ := Nat.exists_eq_add_of_lt shorter
    -- the longer word's first bytes alone are more than the shorter word
    have split := List.take_append_drop lowLength (sized (lowLength + more + 1) high)
    generalize frontEq : (sized (lowLength + more + 1) high).take lowLength = front at split
    generalize tailEq : (sized (lowLength + more + 1) high).drop lowLength = tail at split
    have frontLength : front.length = lowLength := by
      rw [← frontEq, List.length_take, sized, length_bigEndian]
      omega
    have tailLength : tail.length = more + 1 := by
      rw [← tailEq, List.length_drop, sized, length_bigEndian]
      omega
    have front_more : value (sized lowLength low) < value front := by
      by_contra least
      have within : value front + 1 + 2 ^ (7 * lowLength - 1) ≤ 256 ^ lowLength := by
        have whole := header_eq lowLength
        have halved := lowFits.halved
        have enough := lowFits.enough
        omega
      have scaled := Nat.mul_le_mul_right (256 ^ (more + 1)) within
      have room : 2 ^ (7 * (lowLength + more + 1)) ≤
          2 ^ (7 * lowLength - 1) * 256 ^ (more + 1) := by
        rw [show 256 = 2 ^ 8 from rfl, ← Nat.pow_mul, ← Nat.pow_add]
        have one := lowFits.positive
        exact Nat.pow_le_pow_right (by decide) (by omega)
      have below := value_lt tail
      have whole := header_eq (lowLength + more + 1)
      have bytes : 256 ^ (lowLength + more + 1) = 256 ^ lowLength * 256 ^ (more + 1) := by
        rw [← Nat.pow_add, Nat.add_assoc]
      rw [← split, value_append, tailLength] at highValue
      rw [tailLength] at below
      rw [Nat.add_mul, Nat.add_mul, Nat.one_mul] at scaled
      omega
    have first := before_of_value (by rw [frontLength, sized, length_bigEndian]) front_more
    simpa [split] using first.append [] tail

/-- A number as it is written. -/
def numberWord (n : Int) : ByteString :=
  let word := sized ((signedEncodingLength n).getD 0) (magnitude n)
  if n < 0 then complement word else word

/-- The numbers that are written. -/
abbrev SignedNum := {n : Int // -2 ^ 63 ≤ n ∧ n < 2 ^ 63}

/-- A signed number has 63 bits of magnitude. -/
theorem magnitude_lt (n : SignedNum) : magnitude n < 2 ^ 63 := by
  have lower := n.2.1
  have upper := n.2.2
  rw [magnitude]
  split_ifs <;> omega

/-- A word that is not turned over begins with the bit 1. -/
theorem sized_head {number length : Nat} (fits : Fits number length) :
    ∃ first rest, sized length number = first :: rest ∧ (128 : Byte) ≤ first := by
  obtain ⟨less, rfl⟩ := Nat.exists_eq_add_of_le' fits.positive
  refine ⟨_, _, rfl, ?_⟩
  have whole := header_eq (less + 1)
  have halved := fits.halved
  have enough := fits.enough
  have room : 2 ^ (7 * (less + 1)) ≤ 128 * 256 ^ less := by
    rw [show 256 = 2 ^ 8 from rfl, show 128 = 2 ^ 7 from rfl, ← Nat.pow_mul, ← Nat.pow_add]
    exact Nat.pow_le_pow_right (by decide) (by omega)
  rw [Nat.pow_succ] at whole
  have positive : 0 < 256 ^ less := Nat.pos_of_ne_zero (by simp)
  have low : 128 ≤ (header (less + 1) + number) / 256 ^ less :=
    (Nat.le_div_iff_mul_le positive).mpr (by omega)
  have high : (header (less + 1) + number) / 256 ^ less < 256 :=
    (Nat.div_lt_iff_lt_mul positive).mpr (by omega)
  rw [Fin.le_def, Fin.val_ofNat, Nat.mod_eq_of_lt high]
  exact low

/-- The words of numbers stand in the order of the numbers. -/
theorem ordered_numberWord : Ordered (fun n : SignedNum => numberWord n) := by
  intro low high less
  obtain ⟨lowLength, lowFound, lowFits⟩ := exists_fits (magnitude_lt low)
  obtain ⟨highLength, highFound, highFits⟩ := exists_fits (magnitude_lt high)
  show Before (numberWord low) (numberWord high)
  rw [numberWord, numberWord, lowFound, highFound, Option.getD_some, Option.getD_some]
  have lessValue : low.1 < high.1 := less
  by_cases lowSign : low.1 < 0
  · by_cases highSign : high.1 < 0
    · rw [if_pos lowSign, if_pos highSign]
      refine before_complement (highFits.before lowFits ?_)
      rw [magnitude, magnitude, if_pos lowSign, if_pos highSign]
      omega
    · rw [if_pos lowSign, if_neg highSign]
      obtain ⟨first, rest, word, large⟩ := sized_head lowFits
      obtain ⟨other, others, alike, larger⟩ := sized_head highFits
      rw [word, alike]
      refine .of_lt ?_ _ _
      rw [Fin.le_def] at large larger
      rw [Fin.lt_def, Fin.val_rev]
      simp only [Fin.isValue, Fin.coe_ofNat_eq_mod] at large larger
      omega
  · have highSign : ¬ high.1 < 0 := by omega
    rw [if_neg lowSign, if_neg highSign]
    refine lowFits.before highFits ?_
    rw [magnitude, magnitude, if_neg lowSign, if_neg highSign]
    omega

/-- The bits that tell the length, in the first two bytes. -/
def headerBits (length : Nat) : Byte × Byte := kLengthToHeaderBits.getD length (0, 0)

/-- The header bits meet no bit of the number, nor care whether it is turned over. -/
theorem headerBits_spec (length : Fin 11) (two : 2 ≤ length.val) :
    kLengthToHeaderBits[length.val]? = some (headerBits length) ∧
      header length = (headerBits length).1.val * 256 ^ (length.val - 1) +
        (headerBits length).2.val * 256 ^ (length.val - 2) ∧
      ∀ byte : Byte,
        (byte.val < 2 ^ (8 - length.val) →
          (byte ^^^ (headerBits length).1).val = byte.val + (headerBits length).1.val) ∧
        (byte.val < 2 ^ (16 - length.val) →
          (byte ^^^ (headerBits length).2).val = byte.val + (headerBits length).2.val) ∧
        byte.rev ^^^ (headerBits length).1 = (byte ^^^ (headerBits length).1).rev ∧
        byte.rev ^^^ (headerBits length).2 = (byte ^^^ (headerBits length).2).rev := by
  revert length
  decide +kernel

/-- The last bytes of a number are the number in so many bytes. -/
theorem drop_bigEndian (more length number : Nat) :
    (bigEndian (more + length) number).drop more = bigEndian length number := by
  induction more with
  | zero => rw [Nat.zero_add, List.drop_zero]
  | succ more inductionHypothesis =>
    rw [Nat.add_right_comm, bigEndian, List.drop_succ_cons, inductionHypothesis]

/-- The number in ten bytes. -/
theorem bigEndian_ten {number : Nat} (small : number < 2 ^ 64) :
    bigEndian 10 number = [0, 0] ++ bigEndian 8 number := by
  have first : number / 256 ^ 9 = 0 := Nat.div_eq_of_lt (by omega)
  have second : number / 256 ^ 8 = 0 := Nat.div_eq_of_lt (by omega)
  rw [bigEndian, bigEndian, first, second]
  rfl

/-- The header bits, put on the first two bytes of the number. -/
theorem sized_eq {number length : Nat} (fits : Fits number length) (two : 2 ≤ length) :
    ∃ first second rest, bigEndian length number = first :: second :: rest ∧
      sized length number =
        (first ^^^ (headerBits length).1) :: (second ^^^ (headerBits length).2) :: rest := by
  obtain ⟨less, rfl⟩ := Nat.exists_eq_add_of_le' two
  obtain ⟨-, bits, bytes⟩ := headerBits_spec ⟨less + 2, Nat.lt_succ_iff.mpr fits.atMost⟩ two
  have most := fits.atMost
  refine ⟨_, _, _, rfl, value_inj (by simp [sized]) ?_⟩
  have first_small : (Fin.ofNat 256 (number / 256 ^ (less + 1))).val < 2 ^ (8 - (less + 2)) := by
    refine (Nat.mod_le _ _).trans_lt ((Nat.div_lt_iff_lt_mul (by positivity)).mpr ?_)
    refine fits.enough.trans_le ?_
    rw [show 256 = 2 ^ 8 from rfl, ← Nat.pow_mul, ← Nat.pow_add]
    exact Nat.pow_le_pow_right (by decide) (by omega)
  have second_small : (Fin.ofNat 256 (number / 256 ^ less)).val < 2 ^ (16 - (less + 2)) := by
    refine (Nat.mod_le _ _).trans_lt ((Nat.div_lt_iff_lt_mul (by positivity)).mpr ?_)
    refine fits.enough.trans_le ?_
    rw [show 256 = 2 ^ 8 from rfl, ← Nat.pow_mul, ← Nat.pow_add]
    exact Nat.pow_le_pow_right (by decide) (by omega)
  have plain := value_bigEndian (less + 2) number
  have whole := header_eq (less + 2)
  have halved := fits.halved
  have enough := fits.enough
  rw [Nat.mod_eq_of_lt (by omega), bigEndian, bigEndian, value, value] at plain
  rw [fits.value_sized, value, value, (bytes _).1 first_small, (bytes _).2.1 second_small, bits]
  simp only [List.length_cons, length_bigEndian] at plain ⊢
  rw [Nat.add_mul, Nat.add_mul, show less + 2 - 1 = less + 1 from rfl,
    show less + 2 - 2 = less from rfl]
  omega

/-- The bytes of a negative number are those of its magnitude, turned over. -/
theorem networkOrder_negative {n : Int} (negative : n < 0) (small : magnitude n < 2 ^ 63) :
    networkOrder n = complement (bigEndian 8 (magnitude n)) := by
  have bits : (n % 2 ^ 64).toNat = 2 ^ 64 - 1 - magnitude n := by
    rw [magnitude, if_pos negative] at small ⊢
    omega
  refine value_inj (by simp [networkOrder]) ?_
  have turned := value_complement (bigEndian 8 (magnitude n))
  rw [value_bigEndian, length_bigEndian, Nat.mod_eq_of_lt (by omega)] at turned
  rw [networkOrder, value_bigEndian, bits, Nat.mod_eq_of_lt (by omega)]
  omega

/-- A number from zero on is written as its magnitude. -/
theorem networkOrder_positive {n : Int} (positive : ¬ n < 0) (small : magnitude n < 2 ^ 63) :
    networkOrder n = bigEndian 8 (magnitude n) := by
  have bits : (n % 2 ^ 64).toNat = magnitude n := by
    rw [magnitude, if_neg positive] at small ⊢
    omega
  rw [networkOrder, bits]

/-- The one byte of a small number. -/
theorem oneByte (number : Fin 64) :
    (0x80 : Byte) ^^^ Fin.ofNat 256 number.val = Fin.ofNat 256 (128 + number.val) ∧
      (0x80 : Byte) ^^^ Fin.ofNat 256 (255 - number.val) =
        (Fin.ofNat 256 (128 + number.val) : Byte).rev := by
  revert number
  decide +kernel

/-- One byte holds its header bit and the number. -/
theorem sized_one (number : Nat) : sized 1 number = [Fin.ofNat 256 (128 + number)] := by
  simp [sized, bigEndian, header]

/-- The writer never fails. -/
theorem writeSignedNumIncreasing_eq (n : SignedNum) :
    writeSignedNumIncreasing n = some (numberWord n) := by
  have small := magnitude_lt n
  obtain ⟨length, found, fits⟩ := exists_fits small
  rw [writeSignedNumIncreasing, numberWord, found, Option.getD_some]
  by_cases fast : magnitude n < 64
  · have one : length = 1 :=
      fits.unique ⟨le_rfl, by decide, small, by simpa using fast, .inl rfl⟩
    have byte := oneByte ⟨magnitude n, fast⟩
    rw [if_pos fast, one, sized_one]
    by_cases negative : n.1 < 0
    · have last : (n.1 % 256).toNat = 255 - magnitude n := by
        rw [magnitude, if_pos negative] at fast ⊢
        omega
      rw [if_pos negative, last, byte.2]
      rfl
    · have last : (n.1 % 256).toNat = magnitude n := by
        rw [magnitude, if_neg negative] at fast ⊢
        omega
      rw [if_neg negative, last, byte.1]
  · have two : 2 ≤ length := by
      by_contra less
      have one : length = 1 := by
        have positive := fits.positive
        omega
      have enough := fits.enough
      rw [one] at enough
      exact fast enough
    have wide := bigEndian_ten (show magnitude n < 2 ^ 64 by omega)
    have shorter := drop_bigEndian (10 - length) length (magnitude n)
    rw [Nat.sub_add_cancel fits.atMost, wide] at shorter
    obtain ⟨first, second, rest, plain, word⟩ := sized_eq fits two
    obtain ⟨bits, -, bytes⟩ := headerBits_spec ⟨length, Nat.lt_succ_iff.mpr fits.atMost⟩ two
    rw [plain] at shorter
    rw [if_neg fast, word]
    by_cases negative : n.1 < 0
    · have turned : (0xff :: 0xff :: networkOrder n.1 : ByteString).drop (10 - length) =
          first.rev :: second.rev :: complement rest := by
        rw [networkOrder_negative negative small]
        exact (List.map_drop ..).symm.trans (congrArg complement shorter)
      simp [negative, two, bits, turned, kMaxSigned64Length, bytes, complement]
    · have straight : (0 :: 0 :: networkOrder n.1 : ByteString).drop (10 - length) =
          first :: second :: rest := by
        rw [networkOrder_positive negative small]
        exact shorter
      simp [negative, two, bits, straight, kMaxSigned64Length]

end Amigo.Firestore.OrderedCode
