import Amigo.Util.OrderedNumbers

/-!
# Written numbers read back

The first bits tell how many bytes a number has. Turning all bytes over turns what is
read over, so it is enough to follow the numbers that are not negative. The reader takes
what the writer writes and nothing else; the assertion that a number was written in the
fewest bytes fails only on bytes that were not written so.
-/

namespace Amigo.Firestore.OrderedCode

open OrderedCodes ByteString

/-- The length that the first bytes tell, the sign's bit being 1. -/
def headerLength (first second third : Byte) : Option Nat :=
  if first ≠ 0xff then some (7 - (first ^^^ 0xff).val.log2)
  else if second < 0x80 then some 8
  else if second < 0xc0 then some 9
  else if second = 0xc0 ∧ third < 0x80 then some 10
  else none

/-- The lengths that the first byte alone tells. -/
theorem firstByte_spec (first : Byte) (large : 128 ≤ first.val) (less : first.val ≠ 255)
    (length : Fin 11) : 7 - (first ^^^ 0xff).val.log2 = length.val ↔
      1 ≤ length.val ∧ length.val ≤ 7 ∧ 256 - 2 ^ (8 - length.val) ≤ first.val ∧
        first.val < 256 - 2 ^ (7 - length.val) := by
  revert first length
  decide +kernel

/-- The step of the reader adds a byte. -/
theorem toNat_shift_or (x : BitVec 64) (byte : Byte) :
    (x <<< 8 ||| BitVec.ofNat 64 byte.val).toNat = 256 * (x.toNat % 2 ^ 56) + byte.val := by
  have small := byte.isLt
  have shifted : x.toNat <<< 8 % 2 ^ 64 = 2 ^ 8 * (x.toNat % 2 ^ 56) := by
    rw [Nat.shiftLeft_eq]
    omega
  have kept : byte.val % 2 ^ 64 = byte.val := Nat.mod_eq_of_lt (by omega)
  rw [BitVec.toNat_or, BitVec.toNat_shiftLeft, BitVec.toNat_ofNat, shifted, kept,
    ← Nat.two_pow_add_eq_or_of_lt small]

/-- Shifting bytes into a word gives their value there. -/
theorem foldl_value (bytes : ByteString) (number : Nat) :
    bytes.foldl (fun (x : BitVec 64) (byte : Byte) => x <<< 8 ||| BitVec.ofNat 64 byte.val)
        (BitVec.ofNat 64 number) =
      BitVec.ofNat 64 (number * 256 ^ bytes.length + value bytes) := by
  induction bytes generalizing number with
  | nil => simp [value]
  | cons byte rest inductionHypothesis =>
    have step : BitVec.ofNat 64 number <<< 8 ||| BitVec.ofNat 64 byte.val =
        BitVec.ofNat 64 (number * 256 + byte.val) := by
      have small := byte.isLt
      rw [← BitVec.toNat_inj, toNat_shift_or, BitVec.toNat_ofNat, BitVec.toNat_ofNat]
      omega
    rw [List.foldl_cons, step, inductionHypothesis, value, List.length_cons]
    congr 1
    ring

/-- Shifting in the complement gives the complement. -/
theorem foldl_complement (bytes : ByteString) (x : BitVec 64) :
    (complement bytes).foldl
        (fun (x : BitVec 64) (byte : Byte) => x <<< 8 ||| BitVec.ofNat 64 byte.val) (~~~x) =
      ~~~(bytes.foldl
        (fun (x : BitVec 64) (byte : Byte) => x <<< 8 ||| BitVec.ofNat 64 byte.val) x) := by
  induction bytes generalizing x with
  | nil => rfl
  | cons byte rest inductionHypothesis =>
    have step : ~~~x <<< 8 ||| BitVec.ofNat 64 byte.rev.val =
        ~~~(x <<< 8 ||| BitVec.ofNat 64 byte.val) := by
      have small := byte.isLt
      have below := x.isLt
      rw [← BitVec.toNat_inj, toNat_shift_or, BitVec.toNat_not, BitVec.toNat_not, toNat_shift_or,
        Fin.val_rev]
      omega
    have unfolded : complement (byte :: rest) = byte.rev :: complement rest := rfl
    rw [unfolded, List.foldl_cons, List.foldl_cons, step, inductionHypothesis]

/-- What is read of eight bytes at the end is the number, but for what does not fit. -/
theorem ofNat_last {src : ByteString} {length : Nat} (eight : 8 ≤ length)
    (enough : length ≤ src.length) :
    BitVec.ofNat 64 (value ((src.drop (length - 8)).take 8)) =
      BitVec.ofNat 64 (value (src.take length)) := by
  have split : src.take length = src.take (length - 8) ++ (src.drop (length - 8)).take 8 := by
    rw [← List.take_add, Nat.sub_add_cancel eight]
  have last : ((src.drop (length - 8)).take 8).length = 8 := by
    rw [List.length_take, List.length_drop]
    omega
  rw [← BitVec.toNat_inj, BitVec.toNat_ofNat, BitVec.toNat_ofNat, split, value_append, last]
  omega

/-- Eight bytes turned over are the number turned over. -/
theorem ofNat_complement {bytes : ByteString} (eight : bytes.length = 8) :
    BitVec.ofNat 64 (value (complement bytes)) = ~~~BitVec.ofNat 64 (value bytes) := by
  have turned := value_complement bytes
  rw [eight] at turned
  rw [← BitVec.toNat_inj, BitVec.toNat_not, BitVec.toNat_ofNat, BitVec.toNat_ofNat]
  omega

/-- Eight bytes and more are three and others. -/
theorem three_bytes {first : Byte} {tail : ByteString} (few : ¬ (first :: tail).length < 8) :
    ∃ second third rest, tail = second :: third :: rest := by
  match tail, few with
  | [], few => simp at few
  | [_], few => simp at few
  | second :: third :: rest, _ => exact ⟨second, third, rest, rfl⟩

/-- The sign's bit. -/
theorem byte_flips (byte : Byte) : (byte &&& 0x80 = 0 ↔ byte.val < 128) ∧ byte ^^^ 0 = byte ∧
    byte ^^^ 0xff = byte.rev := by
  revert byte
  decide +kernel

/-- Bytes of a number that is not negative. -/
theorem readRaw_straight {first : Byte} (large : 128 ≤ first.val) (tail : ByteString) :
    readRaw (first :: tail) =
      (headerLength first (tail[0]?.getD 0) (tail[1]?.getD 0)).bind fun length =>
        if (first :: tail).length < length then none
        else some (length, BitVec.ofNat 64 (value ((first :: tail).take length))) := by
  have sign : ¬ first &&& 0x80 = 0 := by
    rw [(byte_flips first).1]
    omega
  have same (byte : Byte) : byte ^^^ 0 = byte := (byte_flips byte).2.1
  rw [readRaw, headerLength]
  simp only [if_neg sign, same]
  by_cases short : first = 0xff
  · rw [if_neg (not_not.mpr short), if_neg (not_not.mpr short)]
    by_cases few : (first :: tail).length < 8
    · rw [if_pos few]
      split_ifs
      · exact (if_pos few).symm
      · exact (if_pos (few.trans (by decide))).symm
      · exact (if_pos (few.trans (by decide))).symm
      · rfl
    · rw [if_neg few]
      obtain ⟨second, third, rest, rfl⟩ := three_bytes few
      have agree (length : Nat) (eight : 8 ≤ length) :
          (if (first :: second :: third :: rest).length < length then none
            else some (length, BitVec.ofNat 64
              (value (((first :: second :: third :: rest).drop (length - 8)).take 8)))) =
          if (first :: second :: third :: rest).length < length then none
            else some (length, BitVec.ofNat 64
              (value ((first :: second :: third :: rest).take length))) := by
        split_ifs with less
        · rfl
        · rw [ofNat_last eight (Nat.not_lt.mp less)]
      simp only [List.getElem?_cons_succ, List.getElem?_cons_zero, Option.getD_some,
        Option.bind_eq_bind, Option.bind_some]
      by_cases eight : second < 128
      · rw [if_neg (not_le.mpr eight), if_pos eight]
        exact agree 8 le_rfl
      · rw [if_pos (not_lt.mp eight), if_neg eight]
        by_cases nine : second < 0xc0
        · rw [if_pos nine, if_pos nine]
          exact agree 9 (by decide)
        · rw [if_neg nine, if_neg nine]
          by_cases ten : second = 0xc0 ∧ third < 0x80
          · rw [if_pos ten, if_pos ten]
            exact agree 10 (by decide)
          · rw [if_neg ten, if_neg ten]
            rfl
  · have fold := foldl_value ((first :: tail).take (7 - (first ^^^ 0xff).val.log2)) 0
    rw [if_pos short, if_pos short, Option.bind_some]
    split_ifs with few
    · rfl
    · rw [Nat.zero_mul, Nat.zero_add] at fold
      rw [← fold]
      rfl

/-- Bytes of a negative number are read as the bytes turned over, and turned back. -/
theorem readRaw_complement {first : Byte} (large : 128 ≤ first.val) (tail : ByteString) :
    readRaw (complement (first :: tail)) =
      (readRaw (first :: tail)).map fun read => (read.1, ~~~read.2) := by
  have sign : ¬ first &&& 0x80 = 0 := by
    rw [(byte_flips first).1]
    omega
  have turned : first.rev &&& 0x80 = 0 := by
    rw [(byte_flips first.rev).1, Fin.val_rev]
    omega
  have same (byte : Byte) : byte ^^^ 0 = byte := (byte_flips byte).2.1
  have back (byte : Byte) : byte.rev ^^^ 0xff = byte := by
    rw [(byte_flips byte.rev).2.2, Fin.rev_rev]
  have unfolded : complement (first :: tail) = first.rev :: complement tail := rfl
  have taken (length : Nat) : (first.rev :: complement tail).take length =
      complement ((first :: tail).take length) := by
    rw [← unfolded, complement, complement, List.map_take]
  have lengths : (first.rev :: complement tail).length = (first :: tail).length := by simp
  rw [unfolded, readRaw, readRaw]
  simp only [if_neg sign, if_pos turned, same, back, lengths, taken]
  by_cases short : first = 0xff
  · rw [if_neg (not_not.mpr short), if_neg (not_not.mpr short)]
    by_cases few : (first :: tail).length < 8
    · rw [if_pos few, if_pos few]
      rfl
    · rw [if_neg few, if_neg few]
      obtain ⟨second, third, rest, rfl⟩ := three_bytes few
      have agree (length : Nat) (eight : 8 ≤ length) :
          (if (first :: second :: third :: rest).length < length then none
            else some (length, BitVec.ofNat 64 (value
              (((first.rev :: complement (second :: third :: rest)).drop (length - 8)).take 8)))) =
          (if (first :: second :: third :: rest).length < length then none
            else some (length, BitVec.ofNat 64 (value
              (((first :: second :: third :: rest).drop (length - 8)).take 8)))).map
            fun read => (read.1, ~~~read.2) := by
        split_ifs with less
        · rfl
        · rw [← unfolded, complement, ← List.map_drop, ← List.map_take, ← complement,
            ofNat_complement (by rw [List.length_take, List.length_drop]; omega)]
          rfl
      have head : complement (second :: third :: rest) =
        second.rev :: third.rev :: complement rest := rfl
      rw [head] at agree ⊢
      simp only [List.getElem?_cons_succ, List.getElem?_cons_zero, Option.bind_eq_bind,
        Option.bind_some, back]
      by_cases large : 0x80 ≤ second
      · rw [if_pos large, if_pos large]
        by_cases nine : second < 0xc0
        · rw [if_pos nine, if_pos nine]
          exact agree 9 (by decide)
        · rw [if_neg nine, if_neg nine]
          by_cases ten : second = 0xc0 ∧ third < 0x80
          · rw [if_pos ten, if_pos ten]
            exact agree 10 (by decide)
          · rw [if_neg ten, if_neg ten]
            rfl
      · rw [if_neg large, if_neg large]
        exact agree 8 le_rfl
  · rw [if_pos short, if_pos short]
    split_ifs
    · rfl
    · have fold := foldl_complement ((first :: tail).take (7 - (first ^^^ 0xff).val.log2)) 0
      exact congrArg some (congrArg (Prod.mk _) fold)

/-- A number behind its header. -/
structure Headed (length whole : Nat) : Prop where
  positive : 1 ≤ length
  atMost : length ≤ 10
  least : header length ≤ whole
  enough : whole < header length + 2 ^ (7 * length - 1)
  small : whole < header length + 2 ^ 63

/-- A header within the first byte. -/
theorem headed_short {less first rest : Nat} (short : less < 7) (below : rest < 256 ^ less) :
    Headed (less + 1) (first * 256 ^ less + rest) ↔
      256 - 2 ^ (8 - (less + 1)) ≤ first ∧ first < 256 - 2 ^ (7 - (less + 1)) := by
  interval_cases less
  all_goals
    simp only [Nat.reduceAdd, Nat.reduceSub, Nat.reducePow] at below ⊢
    constructor
    · rintro ⟨-, -, least, enough, -⟩
      simp only [header, Nat.reduceMul, Nat.reduceSub, Nat.reducePow] at least enough
      omega
    · rintro ⟨least, enough⟩
      refine ⟨by decide, by decide, ?_, ?_, ?_⟩ <;>
        simp only [header, Nat.reduceMul, Nat.reduceSub, Nat.reducePow] <;> omega

/-- A header of the whole first byte, the one after it and the bit of the third that makes
the number fit. -/
theorem headed_long {more first second third rest : Nat} (long : more < 3) (isByte : first < 256)
    (alsoByte : second < 256) (below : rest < 256 ^ (5 + more)) (third_small : third < 256) :
    Headed (more + 8) (first * 256 ^ (7 + more) + second * 256 ^ (6 + more) +
        third * 256 ^ (5 + more) + rest) ↔
      first = 255 ∧ (more = 0 ∧ second < 128 ∨ more = 1 ∧ 128 ≤ second ∧ second < 192 ∨
        more = 2 ∧ second = 192 ∧ third < 128) := by
  interval_cases more
  all_goals
    simp only [Nat.reduceAdd, Nat.reducePow] at below ⊢
    constructor
    · rintro ⟨-, -, least, enough, small⟩
      simp only [header, Nat.reduceMul, Nat.reduceSub, Nat.reducePow] at least enough small
      obtain rfl : first = 255 := by omega
      refine ⟨rfl, ?_⟩
      simp only [OfNat.ofNat_ne_zero, zero_ne_one, one_ne_zero, OfNat.zero_ne_ofNat,
        OfNat.one_ne_ofNat, OfNat.ofNat_ne_one, true_and, false_and, or_false, false_or]
      omega
    · intro bits
      refine ⟨by decide, by decide, ?_, ?_, ?_⟩ <;>
        simp only [header, Nat.reduceMul, Nat.reduceSub, Nat.reducePow] <;> omega

/-- The length that is told is the length whose header there is. -/
theorem headerLength_iff {first : Byte} (large : 128 ≤ first.val) {tail : ByteString}
    {length : Nat} (within : length ≤ (first :: tail).length) :
    headerLength first (tail[0]?.getD 0) (tail[1]?.getD 0) = some length ↔
      Headed length (value ((first :: tail).take length)) := by
  by_cases range : 1 ≤ length ∧ length ≤ 10
  · obtain ⟨positive, atMost⟩ := range
    by_cases short : length ≤ 7
    · obtain ⟨less, rfl⟩ := Nat.exists_eq_add_of_le' positive
      have taken : (tail.take less).length = less := by
        rw [List.length_take]
        rw [List.length_cons] at within
        omega
      have below := value_lt (tail.take less)
      rw [taken] at below
      rw [List.take_succ_cons, value, taken, headed_short (by omega) below, headerLength]
      by_cases top : first = 0xff
      · have more : 0 < 2 ^ (7 - (less + 1)) := Nat.two_pow_pos _
        refine iff_of_false ?_ ?_
        · rw [if_neg (not_not.mpr top)]
          split_ifs <;> simp <;> omega
        · rw [top]
          simp only [Fin.isValue, Fin.coe_ofNat_eq_mod]
          omega
      · have spec := firstByte_spec first large (fun same => top (Fin.ext same))
          ⟨less + 1, by omega⟩
        rw [if_pos top, Option.some_inj, spec]
        simp only [positive, short, true_and]
    · obtain ⟨more, rfl⟩ := Nat.exists_eq_add_of_le' (Nat.succ_le_of_lt (Nat.lt_of_not_le short))
      have eight : ¬ (first :: tail).length < 8 := by omega
      obtain ⟨second, third, rest, rfl⟩ := three_bytes eight
      have taken : (rest.take (5 + more)).length = 5 + more := by
        rw [List.length_take]
        simp only [List.length_cons] at within
        omega
      have below := value_lt (rest.take (5 + more))
      rw [taken] at below
      have whole : value ((first :: second :: third :: rest).take (more + 8)) =
          first.val * 256 ^ (7 + more) + second.val * 256 ^ (6 + more) +
            third.val * 256 ^ (5 + more) + value (rest.take (5 + more)) := by
        rw [show more + 8 = 5 + more + 1 + 1 + 1 by omega, List.take_succ_cons,
          List.take_succ_cons, List.take_succ_cons, value, value, value, List.length_cons,
          List.length_cons, taken, show 5 + more + 1 + 1 = 7 + more by omega,
          show 5 + more + 1 = 6 + more by omega]
        omega
      have secondLess (bound : Byte) : second < bound ↔ second.val < bound.val := Iff.rfl
      have thirdLess (bound : Byte) : third < bound ↔ third.val < bound.val := Iff.rfl
      rw [whole, headed_long (by omega) first.isLt second.isLt below third.isLt, headerLength]
      simp only [List.getElem?_cons_succ, List.getElem?_cons_zero, Option.getD_some, secondLess,
        thirdLess, Fin.ext_iff, ne_eq, Fin.isValue, Fin.coe_ofNat_eq_mod]
      split_ifs <;> simp <;> omega
  · refine iff_of_false ?_ (fun headed => range ⟨headed.positive, headed.atMost⟩)
    intro told
    rw [headerLength] at told
    by_cases top : first = 0xff
    · rw [if_neg (not_not.mpr top)] at told
      split_ifs at told <;> simp at told <;> omega
    · have spec := firstByte_spec first large (fun same => top (Fin.ext same))
        ⟨length, by
          rw [if_pos top, Option.some_inj] at told
          omega⟩
      rw [if_pos top, Option.some_inj] at told
      have bounds := spec.mp told
      exact range ⟨bounds.1, bounds.2.1.trans (by decide)⟩

/-- The reader of a header accepts exactly the words that a header begins, at their value. -/
theorem readRaw_iff {first : Byte} (large : 128 ≤ first.val) (tail : ByteString) (length : Nat)
    (raw : BitVec 64) : readRaw (first :: tail) = some (length, raw) ↔
      length ≤ (first :: tail).length ∧ Headed length (value ((first :: tail).take length)) ∧
        raw = BitVec.ofNat 64 (value ((first :: tail).take length)) := by
  rw [readRaw_straight large, Option.bind_eq_some_iff]
  constructor
  · rintro ⟨told, found, read⟩
    split_ifs at read with short
    cases read
    have within := Nat.not_lt.mp short
    exact ⟨within, (headerLength_iff large within).mp found, rfl⟩
  · rintro ⟨within, headed, rfl⟩
    exact ⟨length, (headerLength_iff large within).mpr headed, if_neg (Nat.not_lt.mpr within)⟩

/-- The bits that stand above the number are removed. -/
theorem xor_above (bits high low : Nat) (below : low < 2 ^ bits) :
    (2 ^ bits * high + low) ^^^ (2 ^ bits * high) = low := by
  have rest : ((2 ^ bits * high + low) ^^^ (2 ^ bits * high)) % 2 ^ bits = low := by
    rw [Nat.xor_mod_two_pow, Nat.mul_add_mod, Nat.mul_mod_right, Nat.mod_eq_of_lt below,
      Nat.xor_zero]
  have top : ((2 ^ bits * high + low) ^^^ (2 ^ bits * high)) / 2 ^ bits = 0 := by
    rw [Nat.xor_div_two_pow, Nat.mul_add_div (Nat.two_pow_pos _), Nat.div_eq_of_lt below,
      Nat.mul_div_cancel_left _ (Nat.two_pow_pos _), Nat.add_zero, Nat.xor_self]
  have whole := Nat.div_add_mod ((2 ^ bits * high + low) ^^^ (2 ^ bits * high)) (2 ^ bits)
  rw [top, rest] at whole
  omega

/-- The bits of the header that overlap with the number. -/
def headerMask (length : Nat) : BitVec 64 := kLengthToMask.getD length 0

/-- What the table of masks holds for a length. -/
theorem headerMask_spec (length : Fin 11) :
    kLengthToMask[length.val]? = some (headerMask length) ∧
      header length % 2 ^ 64 = (headerMask length).toNat ∧
      2 ^ (7 * length.val) * ((headerMask length).toNat / 2 ^ (7 * length.val)) =
        (headerMask length).toNat ∧
      (headerMask length).toNat + min (2 ^ (7 * length.val - 1)) (2 ^ 63) ≤ 2 ^ 64 := by
  revert length
  decide +kernel

/-- The mask removes the header. -/
theorem xor_headerMask {length number : Nat} (headed : Headed length (header length + number)) :
    BitVec.ofNat 64 (header length + number) ^^^ headerMask length = BitVec.ofNat 64 number := by
  obtain ⟨-, overlap, above, room⟩ := headerMask_spec ⟨length, Nat.lt_succ_iff.mpr headed.atMost⟩
  simp only at overlap above room
  have enough := headed.enough
  have small := headed.small
  have halved : 2 ^ (7 * length - 1) ≤ 2 ^ (7 * length) :=
    Nat.pow_le_pow_right (by decide) (Nat.sub_le _ _)
  have removed := xor_above (7 * length) ((headerMask length).toNat / 2 ^ (7 * length)) number
    (by omega)
  rw [above] at removed
  have sum : (header length + number) % 2 ^ 64 = (headerMask length).toNat + number := by omega
  rw [← BitVec.toNat_inj, BitVec.toNat_xor, BitVec.toNat_ofNat, BitVec.toNat_ofNat, sum, removed,
    Nat.mod_eq_of_lt (by omega)]

/-- A number below 2^63 is itself as a signed word. -/
theorem toInt_ofNat_small {number : Nat} (small : number < 2 ^ 63) :
    (BitVec.ofNat 64 number).toInt = number := by
  rw [BitVec.toInt_eq_toNat_of_lt (by rw [BitVec.toNat_ofNat]; omega), BitVec.toNat_ofNat,
    Nat.mod_eq_of_lt (by omega)]

/-- Its complement is the negative number of the same magnitude. -/
theorem toInt_not_small {number : Nat} (small : number < 2 ^ 63) :
    (~~~BitVec.ofNat 64 number).toInt = -number - 1 := by
  rw [BitVec.toInt_eq_toNat_cond, BitVec.toNat_not, BitVec.toNat_ofNat,
    Nat.mod_eq_of_lt (by omega), if_neg (by omega)]
  omega

/-- The magnitude of a number is the number. -/
@[simp] theorem magnitude_natCast (number : Nat) : magnitude number = number := by
  rw [magnitude, if_neg (by omega), Int.toNat_natCast]

/-- The complement has the same magnitude. -/
@[simp] theorem magnitude_not (number : Nat) : magnitude (-number - 1) = number := by
  rw [magnitude, if_pos (by omega)]
  omega

/-- What the reader makes of the raw bits: a number that was not written in the fewest bytes
fails the assertion. -/
theorem readSigned_of_raw {src : ByteString} {length : Nat} {raw : BitVec 64} {n : Int}
    (read : readRaw src = some (length, raw))
    (headed : Headed length (header length + magnitude n))
    (result : (raw ^^^ headerMask length).toInt = n) (m : Int) (rest : ByteString) :
    readSignedNumIncreasing src = some (some (m, rest)) ↔
      Fits (magnitude n) length ∧ n = m ∧ src.drop length = rest := by
  obtain ⟨mask, -⟩ := headerMask_spec ⟨length, Nat.lt_succ_iff.mpr headed.atMost⟩
  have small : magnitude n < 2 ^ 63 := Nat.lt_of_add_lt_add_left headed.small
  obtain ⟨expected, found, -⟩ := exists_fits small
  rw [← signedEncodingLength_iff small, readSignedNumIncreasing, read, found]
  simp only [mask, Option.bind_eq_bind, Option.bind_some, result, found, Option.some_inj]
  by_cases same : length = expected
  · simp [same]
  · simp [same, Ne.symm same]

/-- The raw bits are read from a number behind its header. -/
theorem readRaw_sized {first : Byte} (large : 128 ≤ first.val) {tail : ByteString} {length : Nat}
    {raw : BitVec 64} (read : readRaw (first :: tail) = some (length, raw)) :
    ∃ number, Headed length (header length + number) ∧
      first :: tail = sized length number ++ (first :: tail).drop length ∧
      raw = BitVec.ofNat 64 (header length + number) := by
  obtain ⟨within, headed, rfl⟩ := (readRaw_iff large tail length raw).mp read
  have same := bigEndian_value ((first :: tail).take length)
  rw [List.length_take, Nat.min_eq_left within] at same
  obtain ⟨number, whole⟩ := Nat.exists_eq_add_of_le headed.least
  rw [whole] at headed same ⊢
  refine ⟨number, headed, ?_, rfl⟩
  rw [sized, same, List.take_append_drop]

/-- A number of a length is headed by that length. -/
theorem Fits.headed {number length : Nat} (fits : Fits number length) :
    Headed length (header length + number) :=
  ⟨fits.positive, fits.atMost, Nat.le_add_right _ _, Nat.add_lt_add_left fits.enough _,
    Nat.add_lt_add_left fits.small _⟩

/-- Its word is read back. -/
theorem Fits.readRaw_eq {number length : Nat} (fits : Fits number length) (rest : ByteString) :
    readRaw (sized length number ++ rest) =
      some (length, BitVec.ofNat 64 (header length + number)) := by
  obtain ⟨first, tail, word, large⟩ := sized_head fits
  have count : (sized length number).length = length := length_bigEndian ..
  have taken : (sized length number ++ rest).take length = sized length number := by
    rw [List.take_append_of_le_length count.ge]
    exact List.take_of_length_le count.le
  have value_eq := fits.value_sized
  rw [word, List.cons_append] at taken
  rw [word, List.cons_append, readRaw_iff large, taken, ← word, value_eq]
  refine ⟨?_, fits.headed, rfl⟩
  rw [← List.cons_append, ← word, List.length_append, count]
  exact Nat.le_add_right _ _

/-- The word of a number, whatever its sign. -/
theorem Fits.numberWord_eq {n : Int} {length : Nat} (fits : Fits (magnitude n) length) :
    numberWord n =
      if n < 0 then complement (sized length (magnitude n)) else sized length (magnitude n) := by
  rw [numberWord, (signedEncodingLength_iff fits.small length).mpr fits, Option.getD_some]

/-- Whatever is read is a written number. -/
theorem readSigned_exact {src rest : ByteString} {n : Int}
    (read : readSignedNumIncreasing src = some (some (n, rest))) :
    magnitude n < 2 ^ 63 ∧ src = numberWord n ++ rest := by
  match raw : readRaw src with
  | none =>
    rw [readSignedNumIncreasing, raw] at read
    simp at read
  | some (length, bits) =>
    match src with
    | [] => simp [readRaw] at raw
    | first :: tail =>
      by_cases large : 128 ≤ first.val
      · obtain ⟨number, headed, whole, rfl⟩ := readRaw_sized large raw
        have small := Nat.lt_of_add_lt_add_left headed.small
        obtain ⟨fits, rfl, rfl⟩ := (readSigned_of_raw raw (n := number)
          (by rwa [magnitude_natCast])
          (by rw [xor_headerMask headed, toInt_ofNat_small small]) n rest).mp read
        refine ⟨fits.small, ?_⟩
        rwa [fits.numberWord_eq, if_neg (by omega), magnitude_natCast]
      · have turnedLarge : 128 ≤ first.rev.val := by
          rw [Fin.val_rev]
          omega
        have back : complement (first.rev :: complement tail) = first :: tail :=
          complement_complement (first :: tail)
        have turned := readRaw_complement turnedLarge (complement tail)
        rw [back, raw] at turned
        obtain ⟨⟨other, positive⟩, inner, same⟩ := Option.map_eq_some_iff.mp turned.symm
        cases same
        obtain ⟨number, headed, whole, rfl⟩ := readRaw_sized turnedLarge inner
        have small := Nat.lt_of_add_lt_add_left headed.small
        obtain ⟨fits, rfl, rfl⟩ := (readSigned_of_raw raw (n := -number - 1)
          (by rwa [magnitude_not])
          (by rw [← BitVec.not_xor_left, xor_headerMask headed, toInt_not_small small]) n rest).mp
          read
        refine ⟨fits.small, ?_⟩
        have behind : (complement (first.rev :: complement tail)).drop other =
          complement ((first.rev :: complement tail).drop other) := List.map_drop.symm
        rw [fits.numberWord_eq, if_pos (by omega), magnitude_not, ← back, behind,
          ← complement_append, ← whole]

/-- A written number is read. -/
theorem readSigned_numberWord (n : SignedNum) (rest : ByteString) :
    readSignedNumIncreasing (numberWord n ++ rest) = some (some (n.1, rest)) := by
  obtain ⟨length, -, fits⟩ := exists_fits (magnitude_lt n)
  have count : (sized length (magnitude n)).length = length := length_bigEndian ..
  by_cases negative : n.1 < 0
  · have other : n.1 = -(magnitude n : Int) - 1 := by
      rw [magnitude, if_pos negative]
      omega
    obtain ⟨first, tail, word, large⟩ := sized_head fits
    have straight := fits.readRaw_eq (complement rest)
    have turned := readRaw_complement large (tail ++ complement rest)
    rw [← List.cons_append, ← word, straight, complement_append, complement_complement] at turned
    rw [fits.numberWord_eq, if_pos negative]
    refine (readSigned_of_raw turned fits.headed ?_ _ _).mpr ⟨fits, rfl, ?_⟩
    · rw [← BitVec.not_xor_left, xor_headerMask fits.headed, toInt_not_small fits.small]
      exact other.symm
    · exact List.drop_left' (by simp [count])
  · have same : n.1 = (magnitude n : Int) := by
      rw [magnitude, if_neg negative]
      omega
    rw [fits.numberWord_eq, if_neg negative]
    refine (readSigned_of_raw (fits.readRaw_eq rest) fits.headed ?_ _ _).mpr ⟨fits, rfl, ?_⟩
    · rw [xor_headerMask fits.headed, toInt_ofNat_small fits.small]
      exact same.symm
    · exact List.drop_left' count

/-- Reading takes what writing writes, and nothing else. -/
theorem readSignedNumIncreasing_iff (src rest : ByteString) (n : Int) :
    readSignedNumIncreasing src = some (some (n, rest)) ↔
      (-2 ^ 63 ≤ n ∧ n < 2 ^ 63) ∧ src = numberWord n ++ rest := by
  constructor
  · intro read
    obtain ⟨small, whole⟩ := readSigned_exact read
    refine ⟨?_, whole⟩
    rw [magnitude] at small
    split_ifs at small <;> omega
  · rintro ⟨range, rfl⟩
    exact readSigned_numberWord ⟨n, range⟩ rest

/-- Numbers are ordered as they are written, whatever follows; what is read is what was
written. -/
theorem numbers_written_exactly (n other : SignedNum) (src rest others : ByteString) :
    ∃ written another, writeSignedNumIncreasing n = some written ∧
      writeSignedNumIncreasing other = some another ∧
      (written ++ rest < another ++ others ↔ n < other ∨ n = other ∧ rest < others) ∧
      (readSignedNumIncreasing src = some (some (n.1, rest)) ↔ src = written ++ rest) := by
  refine ⟨_, _, writeSignedNumIncreasing_eq n, writeSignedNumIncreasing_eq other,
    ordered_numberWord.lt_iff n other rest others, ?_⟩
  rw [readSignedNumIncreasing_iff]
  exact and_iff_right n.2

end Amigo.Firestore.OrderedCode
