import Mathlib.Data.Nat.Bitwise
import Amigo.Util.OrderedCode

/-!
# Eight bytes at a time

A byte `b` is 0 or 255 where the high bit of `(b - 1) & ~(b + 1)` is set. The search
computes this for all bytes of a word at once, so a byte may borrow from the next or
carry into it; but only a byte that is 0 or 255 does, and then the word is not zero
anyway. So the search finds what a search byte by byte finds, and none of its assertions
fails.
-/

namespace Amigo.Firestore.OrderedCode

/-- The special bytes are 0 and 255. -/
theorem isSpecialByte_iff (byte : Byte) : isSpecialByte byte = true ↔ byte = 0 ∨ byte = 255 := by
  rw [isSpecialByte, decide_eq_true_iff, Fin.lt_def, Fin.val_add, Fin.ext_iff, Fin.ext_iff]
  have most := byte.isLt
  simp only [Fin.isValue, Fin.coe_ofNat_eq_mod]
  omega

/-- The others lie between. -/
theorem plain_bounds {byte : Byte} (plain : isSpecialByte byte = false) :
    1 ≤ byte.val ∧ byte.val ≤ 254 := by
  have most := byte.isLt
  have ends := mt (isSpecialByte_iff byte).mpr (Bool.eq_false_iff.mp plain)
  rw [not_or, Fin.ext_iff, Fin.ext_iff] at ends
  simp only [Fin.isValue, Fin.coe_ofNat_eq_mod] at ends
  omega

/-- A byte in every place of a word. -/
def repeated (byte : Nat) : Nat → Nat
  | 0 => 0
  | length + 1 => byte + 256 * repeated byte length

/-- The expression of the search, for words of any length. -/
def flags (length number : Nat) : Nat :=
  (number + (256 ^ length - repeated 1 length)) % 256 ^ length &&&
    (256 ^ length - 1 - (number + repeated 1 length) % 256 ^ length) &&& repeated 128 length

/-- Ones in every byte fill no further byte. -/
theorem repeated_one_lt (length : Nat) : repeated 1 length < 256 ^ length := by
  induction length with
  | zero => decide
  | succ length inductionHypothesis =>
    rw [repeated, Nat.pow_succ]
    omega

/-- What is missing to the largest number of some bytes, byte by byte. -/
theorem missing_split {whole number : Nat} (below : number < 256 * whole) :
    (256 * whole - 1 - number) % 256 = 255 - number % 256 ∧
      (256 * whole - 1 - number) / 256 = whole - 1 - number / 256 := by
  omega

/-- The lowest byte of the expression depends on the lowest byte alone. -/
theorem flags_mod (length : Nat) (byte : Byte) (number : Nat) :
    flags (length + 1) (byte.val + 256 * number) % 256 =
      (byte.val + 255) % 256 &&& (255 - (byte.val + 1) % 256) &&& 128 := by
  have few := repeated_one_lt length
  have positive : 0 < 256 ^ length := Nat.pos_of_ne_zero (by simp)
  have masks (first second third : Nat) : (first &&& second &&& third) % 256 =
      first % 256 &&& second % 256 &&& third % 256 := by
    rw [show 256 = 2 ^ 8 from rfl, Nat.and_mod_two_pow, Nat.and_mod_two_pow]
  rw [flags, masks, Nat.pow_succ', repeated, repeated]
  generalize 256 ^ length = whole at *
  generalize repeated 1 length = ones at *
  have below := Nat.mod_lt (byte.val + 256 * number + (1 + 256 * ones))
    (Nat.mul_pos (by decide : 0 < 256) positive)
  rw [(missing_split below).1, Nat.mod_mul_right_mod, Nat.mod_mul_right_mod]
  congr 2 <;> omega

/-- A byte that neither borrows nor carries leaves the others to themselves. -/
theorem flags_div (length : Nat) {byte : Byte} (plain : isSpecialByte byte = false)
    (number : Nat) :
    flags (length + 1) (byte.val + 256 * number) / 256 = flags length number := by
  obtain ⟨low, high⟩ := plain_bounds plain
  have few := repeated_one_lt length
  have positive : 0 < 256 ^ length := Nat.pos_of_ne_zero (by simp)
  have masks (first second third : Nat) : (first &&& second &&& third) / 256 =
      first / 256 &&& second / 256 &&& third / 256 := by
    rw [show 256 = 2 ^ 8 from rfl, Nat.and_div_two_pow, Nat.and_div_two_pow]
  rw [flags, flags, masks, Nat.pow_succ', repeated, repeated]
  generalize 256 ^ length = whole at *
  generalize repeated 1 length = ones at *
  generalize repeated 128 length = highs at *
  have below := Nat.mod_lt (byte.val + 256 * number + (1 + 256 * ones))
    (Nat.mul_pos (by decide : 0 < 256) positive)
  have borrows : (byte.val + 256 * number + (256 * whole - (1 + 256 * ones))) / 256 =
      number + (whole - ones) := by omega
  have carries : (byte.val + 256 * number + (1 + 256 * ones)) / 256 = number + ones := by omega
  have keeps : (128 + 256 * highs) / 256 = highs := by omega
  rw [(missing_split below).2, Nat.mod_mul_right_div_self, Nat.mod_mul_right_div_self, borrows,
    carries, keeps]

/-- The lowest byte of the expression is zero where the byte is neither 0 nor 255. -/
theorem lowest_flag (byte : Byte) :
    (byte.val + 255) % 256 &&& (255 - (byte.val + 1) % 256) &&& 128 = 0 ↔
      isSpecialByte byte = false := by
  revert byte
  decide +kernel

/-- The expression is zero where no byte is 0 or 255. -/
theorem flags_eq_zero_iff (bytes : ByteString) :
    flags bytes.length (load bytes) = 0 ↔ bytes.any isSpecialByte = false := by
  induction bytes with
  | nil => decide
  | cons byte rest inductionHypothesis =>
    have parts := flags_mod rest.length byte (load rest)
    have lowest := lowest_flag byte
    rw [← parts] at lowest
    rw [List.any_cons, Bool.or_eq_false_iff, load, List.length_cons, ← inductionHypothesis]
    constructor
    · intro zero
      have plain := lowest.mp (by rw [zero])
      have others := flags_div rest.length plain (load rest)
      rw [zero] at others
      exact ⟨plain, others.symm⟩
    · rintro ⟨plain, none⟩
      have others := flags_div rest.length plain (load rest)
      have low := lowest.mpr plain
      omega

/-- Loaded bytes fill no further byte. -/
theorem load_lt (bytes : ByteString) : load bytes < 256 ^ bytes.length := by
  induction bytes with
  | nil => decide
  | cons byte rest inductionHypothesis =>
    have most := byte.isLt
    rw [load, List.length_cons, Nat.pow_succ']
    omega

/-- The expression over a word of the machine. -/
theorem toNat_flags {width length : Nat} (whole : 2 ^ width = 256 ^ length)
    {v ones highs : BitVec width} (one : ones.toNat = repeated 1 length)
    (high : highs.toNat = repeated 128 length) :
    ((v - ones) &&& ~~~(v + ones) &&& highs).toNat = flags length v.toNat := by
  rw [BitVec.toNat_and, BitVec.toNat_and, BitVec.toNat_not, BitVec.toNat_sub, BitVec.toNat_add,
    one, high, whole, flags, Nat.add_comm]

/-- The test of a word finds whether one of its bytes is 0 or 255. -/
theorem word_eq_zero_iff {width : Nat} (bytes : ByteString) (ones highs : BitVec width)
    (whole : 2 ^ width = 256 ^ bytes.length) (one : ones.toNat = repeated 1 bytes.length)
    (high : highs.toNat = repeated 128 bytes.length) :
    (BitVec.ofNat width (load bytes) - ones) &&& ~~~(BitVec.ofNat width (load bytes) + ones) &&&
      highs = 0 ↔ bytes.any isSpecialByte = false := by
  have loaded : (BitVec.ofNat width (load bytes)).toNat = load bytes := by
    rw [BitVec.toNat_ofNat, whole, Nat.mod_eq_of_lt (load_lt bytes)]
  rw [← flags_eq_zero_iff, ← BitVec.toNat_inj, toNat_flags whole one high, loaded]
  rfl

/-- The test of eight bytes finds a special one. -/
theorem hasZeroOr255Byte_load {bytes : ByteString} (eight : bytes.length = 8) :
    hasZeroOr255Byte (BitVec.ofNat 64 (load bytes)) = bytes.any isSpecialByte := by
  have word := word_eq_zero_iff bytes (0x0101010101010101 : BitVec 64) 0x8080808080808080
    (by rw [eight]; rfl) (by rw [eight]; rfl) (by rw [eight]; rfl)
  rw [hasZeroOr255Byte, Bool.eq_iff_iff, decide_eq_true_iff, ne_eq, word, Bool.not_eq_false]

/-- Both assertions hold. -/
theorem advanceIfNoSpecialBytes_eq {bytes : ByteString} (four : bytes.length = 4) :
    advanceIfNoSpecialBytes bytes = some (if bytes.any isSpecialByte then 0 else 4) := by
  have word := word_eq_zero_iff bytes (0x01010101 : BitVec 32) 0x80808080
    (by rw [four]; rfl) (by rw [four]; rfl) (by rw [four]; rfl)
  rw [advanceIfNoSpecialBytes]
  by_cases special : bytes.any isSpecialByte = true
  · have found := mt word.mp (by simpa using special)
    rw [if_pos found, if_pos special]
    simp [special]
  · rw [Bool.not_eq_true] at special
    have clean : bytes.all (fun byte => !isSpecialByte byte) = true := by
      rw [← List.not_any_eq_all_not, special]
      rfl
    rw [if_neg (not_not.mpr (word.mpr special)), if_neg (by simp [special])]
    simp [clean]

/-- Where the first byte to escape is: the bytes before it are plain. -/
def plainLength (bytes : ByteString) : Nat :=
  (bytes.takeWhile (fun byte => !isSpecialByte byte)).length

/-- The plain bytes at the front, from the first on. -/
theorem plainLength_cons (byte : Byte) (rest : ByteString) :
    plainLength (byte :: rest) = if isSpecialByte byte then 0 else plainLength rest + 1 := by
  rw [plainLength, plainLength, List.takeWhile_cons]
  cases isSpecialByte byte <;> rfl

/-- The search goes past bytes without one to escape. -/
theorem plainLength_append {front : ByteString} (plain : front.any isSpecialByte = false)
    (rest : ByteString) : plainLength (front ++ rest) = front.length + plainLength rest := by
  induction front with
  | nil => simp
  | cons byte front inductionHypothesis =>
    rw [List.any_cons, Bool.or_eq_false_iff] at plain
    rw [List.cons_append, plainLength_cons, plain.1, inductionHypothesis plain.2, List.length_cons,
      if_neg Bool.false_ne_true]
    omega

/-- Plain bytes may be skipped. -/
theorem plainLength_drop {bytes : ByteString} {number : Nat} (enough : number ≤ bytes.length)
    (plain : (bytes.take number).any isSpecialByte = false) :
    plainLength bytes = number + plainLength (bytes.drop number) := by
  have whole := plainLength_append plain (bytes.drop number)
  rwa [List.take_append_drop, List.length_take, Nat.min_eq_left enough] at whole

/-- One of the next four bytes is to be escaped: the comparisons find the first, and the
last of them is sure. -/
theorem plainLength_four {bytes : ByteString} {p : Nat} (enough : p + 4 ≤ bytes.length)
    (found : ((bytes.drop p).take 4).any isSpecialByte = true) :
    (if (bytes.drop p).head?.any isSpecialByte then some p
      else if (bytes.drop (p + 1)).head?.any isSpecialByte then some (p + 1)
      else if (bytes.drop (p + 2)).head?.any isSpecialByte then some (p + 2)
      else do
        guard ((bytes.drop (p + 3)).head?.any isSpecialByte = true)
        some (p + 3)) = some (p + plainLength (bytes.drop p)) := by
  rw [← List.drop_drop, ← List.drop_drop, ← List.drop_drop]
  have remaining : 4 ≤ (bytes.drop p).length := by
    rw [List.length_drop]
    omega
  match bytes.drop p, remaining, found with
  | a :: b :: c :: d :: rest, _, found =>
    simp only [List.take_succ_cons, List.take_zero, List.any_cons, List.any_nil, Bool.or_false,
      Bool.or_eq_true] at found
    simp only [plainLength_cons, List.head?_cons, Option.any_some, List.drop_succ_cons,
      List.drop_zero]
    cases first : isSpecialByte a
    · cases second : isSpecialByte b
      · cases third : isSpecialByte c
        · have last : isSpecialByte d = true := by simpa [first, second, third] using found
          simp [last]
        · simp
      · simp
    · simp

/-- The search eight bytes at a time finds what a search byte by byte does, and its
assertions hold. -/
theorem skipToNextSpecialByte_eq (bytes : ByteString) :
    skipToNextSpecialByte bytes = some (plainLength bytes) := by
  induction bytes using skipToNextSpecialByte.induct with
  | case1 bytes eight clean inductionHypothesis =>
    rw [hasZeroOr255Byte_load (by rw [List.length_take]; omega)] at clean
    rw [skipToNextSpecialByte, if_pos eight, if_pos (by
      rw [hasZeroOr255Byte_load (by rw [List.length_take]; omega), clean]),
      inductionHypothesis, plainLength_drop eight clean]
    rfl
  | case2 bytes eight special =>
    rw [hasZeroOr255Byte_load (by rw [List.length_take]; omega), Bool.not_eq_false] at special
    rw [skipToNextSpecialByte, if_pos eight, if_neg (by
      rw [hasZeroOr255Byte_load (by rw [List.length_take]; omega), special]
      simp), advanceIfNoSpecialBytes_eq (by rw [List.length_take]; omega), Option.bind_eq_bind,
      Option.bind_some]
    by_cases early : (bytes.take 4).any isSpecialByte = true
    · rw [if_pos early, plainLength_four (by omega) (by rwa [List.drop_zero]), List.drop_zero,
        Nat.zero_add]
    · have plain := Bool.not_eq_true _ ▸ early
      have split : bytes.take 8 = bytes.take 4 ++ (bytes.drop 4).take 4 := by
        rw [← List.take_add]
      have found : ((bytes.drop 4).take 4).any isSpecialByte = true := by
        rwa [split, List.any_append, plain, Bool.false_or] at special
      rw [if_neg early, plainLength_four (by omega) found,
        plainLength_drop (show 4 ≤ bytes.length by omega) plain]
  | case3 bytes few four =>
    rw [skipToNextSpecialByte, if_neg few, if_pos four,
      advanceIfNoSpecialBytes_eq (by rw [List.length_take]; omega)]
    by_cases early : (bytes.take 4).any isSpecialByte = true
    · rw [if_pos early]
      simp [plainLength]
    · have plain := Bool.not_eq_true _ ▸ early
      rw [if_neg early, plainLength_drop four plain]
      rfl
  | case4 bytes few fewer =>
    rw [skipToNextSpecialByte, if_neg few, if_neg fewer]
    simp [plainLength]

end Amigo.Firestore.OrderedCode
