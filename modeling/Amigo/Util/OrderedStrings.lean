import Amigo.Util.SpecialBytes

/-!
# Written strings

A string is written as its bytes, those that mean something else escaped, and a
separator. The separator comes before the words of all bytes, so strings are ordered as
they are written, whatever follows. The reader takes what the writer writes and nothing
else: it refuses every other string of bytes, and none of its assertions fails.
-/

namespace Amigo.Firestore.OrderedCode

open OrderedCodes

/-- The word of a byte. -/
def escape (byte : Byte) : ByteString :=
  if byte = kEscape1 then [kEscape1, kNullCharacter]
  else if byte = kEscape2 then [kEscape2, kFFCharacter]
  else [byte]

/-- The word begins with its byte. -/
theorem escape_eq_cons (byte : Byte) : ∃ tail, escape byte = byte :: tail := by
  rw [escape]
  split_ifs with null last
  · exact ⟨[kNullCharacter], by rw [null]⟩
  · exact ⟨[kFFCharacter], by rw [last]⟩
  · exact ⟨_, rfl⟩

/-- Escaped bytes stand in the order of the bytes. -/
theorem ordered_escape : Ordered escape := by
  intro low high less
  obtain ⟨lowTail, lowWord⟩ := escape_eq_cons low
  obtain ⟨highTail, highWord⟩ := escape_eq_cons high
  rw [lowWord, highWord]
  exact .of_lt less lowTail highTail

/-- The separator comes before the word of every byte. -/
theorem separator_before (byte : Byte) : Before [kEscape1, kSeparator] (escape byte) := by
  by_cases null : byte = kEscape1
  · rw [escape, if_pos null]
    exact (Before.of_lt (by decide) [] []).cons kEscape1
  · obtain ⟨tail, word⟩ := escape_eq_cons byte
    rw [word]
    exact .of_lt (Fin.pos_iff_ne_zero.mpr null) _ _

/-- A string as it is written. -/
def stringWord (s : ByteString) : ByteString := s.flatMap escape ++ [kEscape1, kSeparator]

/-- The words of strings stand in the order of the strings. -/
theorem ordered_stringWord : Ordered stringWord := ordered_escape.list separator_before

/-- A plain byte stands for itself. -/
theorem escape_plain {byte : Byte} (plain : isSpecialByte byte = false) : escape byte = [byte] := by
  obtain ⟨notNull, notLast⟩ := not_or.mp
    (mt (isSpecialByte_iff byte).mpr (Bool.eq_false_iff.mp plain))
  exact (if_neg notNull).trans (if_neg notLast)

/-- Bytes up to the next to escape are written as they are. -/
theorem flatMap_escape_plain {front : ByteString} (plain : front.any isSpecialByte = false) :
    front.flatMap escape = front := by
  induction front with
  | nil => rfl
  | cons byte front inductionHypothesis =>
    rw [List.any_cons, Bool.or_eq_false_iff] at plain
    rw [List.flatMap_cons, escape_plain plain.1, inductionHypothesis plain.2]
    rfl

/-- There are no more plain bytes than bytes. -/
theorem plainLength_le (bytes : ByteString) : plainLength bytes ≤ bytes.length :=
  (List.takeWhile_sublist _).length_le

/-- The bytes before the next to escape. -/
theorem take_plainLength (bytes : ByteString) :
    (bytes.take (plainLength bytes)).any isSpecialByte = false := by
  induction bytes with
  | nil => rfl
  | cons byte rest inductionHypothesis =>
    rw [plainLength_cons]
    cases special : isSpecialByte byte
    · simpa [special] using inductionHypothesis
    · rfl

/-- What stands where the search stops is to be escaped. -/
theorem drop_plainLength {bytes rest : ByteString} {byte : Byte}
    (found : bytes.drop (plainLength bytes) = byte :: rest) : isSpecialByte byte = true := by
  induction bytes with
  | nil => simp at found
  | cons first others inductionHypothesis =>
    rw [plainLength_cons] at found
    cases special : isSpecialByte first
    · exact inductionHypothesis (by simpa [special] using found)
    · obtain ⟨rfl, -⟩ : first = byte ∧ others = rest := by simpa [special] using found
      exact special

/-- The assertions of the writer hold, and it writes the words of the bytes. -/
theorem encodeStringFragment_eq (s : ByteString) :
    encodeStringFragment s = some (s.flatMap escape) := by
  induction length : s.length using Nat.strong_induction_on generalizing s with
  | _ length inductionHypothesis =>
    have plain := flatMap_escape_plain (take_plainLength s)
    have whole := List.take_append_drop (plainLength s) s
    rw [encodeStringFragment, skipToNextSpecialByte_eq, Option.bind_eq_bind, Option.bind_some]
    split
    · rename_i ended
      rw [ended, List.append_nil] at whole
      rw [← whole, plain]
    · rename_i c rest found
      have special := drop_plainLength found
      have shorter := congrArg List.length whole
      rw [found, List.length_append, List.length_cons] at shorter
      have others := inductionHypothesis rest.length (by omega) rest rfl
      have written : s.flatMap escape =
          s.take (plainLength s) ++ (escape c ++ rest.flatMap escape) := by
        conv_lhs => rw [← whole, found, List.flatMap_append, plain, List.flatMap_cons]
      rw [special, others, written]
      obtain rfl | rfl := (isSpecialByte_iff c).mp special
      · simp [escape, kEscape1]
      · simp [escape, kEscape1, kEscape2]

/-- The writer never fails. -/
theorem writeString_eq (s : ByteString) : writeString s = some (stringWord s) := by
  rw [writeString, encodeStringFragment_eq]
  rfl

/-- The reader, byte by byte. -/
def readBytes : ByteString → Option (ByteString × ByteString)
  | c :: next :: rest =>
    if c = kEscape1 then
      if next = kSeparator then some ([], rest)
      else if next = kNullCharacter then
        (readBytes rest).map fun others => (kEscape1 :: others.1, others.2)
      else none
    else if c = kEscape2 then
      if next = kFFCharacter then
        (readBytes rest).map fun others => (kEscape2 :: others.1, others.2)
      else none
    else (readBytes (next :: rest)).map fun others => (c :: others.1, others.2)
  | _ => none

/-- Plain bytes are read as they are. -/
theorem readBytes_plain {front : ByteString} (plain : front.any isSpecialByte = false)
    (rest : ByteString) :
    readBytes (front ++ rest) =
      (readBytes rest).map fun others => (front ++ others.1, others.2) := by
  induction front with
  | nil => simp
  | cons byte front inductionHypothesis =>
    rw [List.any_cons, Bool.or_eq_false_iff] at plain
    obtain ⟨notNull, notLast⟩ := not_or.mp
      (mt (isSpecialByte_iff byte).mpr (Bool.eq_false_iff.mp plain.1))
    have one : readBytes (byte :: (front ++ rest)) =
        (readBytes (front ++ rest)).map fun others => (byte :: others.1, others.2) := by
      cases front ++ rest with
      | nil => rfl
      | cons next others => exact (if_neg notNull).trans (if_neg notLast)
    rw [List.cons_append, one, inductionHypothesis plain.2, Option.map_map]
    rfl

/-- The word of a string, from its first byte on. -/
theorem stringWord_cons (byte : Byte) (s rest : ByteString) :
    stringWord (byte :: s) ++ rest = escape byte ++ (stringWord s ++ rest) := by
  simp [stringWord]

/-- A string that begins with a written string is read so. -/
theorem readBytes_stringWord (s rest : ByteString) :
    readBytes (stringWord s ++ rest) = some (s, rest) := by
  induction s with
  | nil => rfl
  | cons byte s inductionHypothesis =>
    rw [stringWord_cons]
    cases special : isSpecialByte byte
    · rw [escape_plain special, readBytes_plain (by simp [special]), inductionHypothesis]
      rfl
    · obtain rfl | rfl := (isSpecialByte_iff byte).mp special
      · exact congrArg (Option.map _) inductionHypothesis
      · exact congrArg (Option.map _) inductionHypothesis

/-- Whatever is read is a written string. -/
theorem readBytes_exact {src s rest : ByteString} (read : readBytes src = some (s, rest)) :
    src = stringWord s ++ rest := by
  induction src using readBytes.induct generalizing s with
  | case1 after =>
    obtain ⟨rfl, rfl⟩ : [] = s ∧ after = rest := by simpa [readBytes] using read
    rfl
  | case2 after _ inductionHypothesis =>
    obtain ⟨others, inner, rfl⟩ : ∃ others, readBytes after = some (others, rest) ∧
        kEscape1 :: others = s := by
      simpa [readBytes, kSeparator, kNullCharacter] using read
    rw [stringWord_cons, ← inductionHypothesis inner]
    rfl
  | case3 next after notSeparator notNull =>
    simp [readBytes, notSeparator, notNull] at read
  | case4 after _ inductionHypothesis =>
    obtain ⟨others, inner, rfl⟩ : ∃ others, readBytes after = some (others, rest) ∧
        kEscape2 :: others = s := by
      simpa [readBytes, kEscape1, kEscape2] using read
    rw [stringWord_cons, ← inductionHypothesis inner]
    rfl
  | case5 next after notFF =>
    simp [readBytes, notFF, kEscape1, kEscape2] at read
  | case6 c next after notNull notLast inductionHypothesis =>
    obtain ⟨others, inner, rfl⟩ : ∃ others, readBytes (next :: after) = some (others, rest) ∧
        c :: others = s := by
      simpa [readBytes, notNull, notLast] using read
    rw [stringWord_cons, ← inductionHypothesis inner, escape, if_neg notNull, if_neg notLast]
    rfl
  | case7 src short =>
    match src with
    | [] => simp [readBytes] at read
    | [_] => simp [readBytes] at read
    | c :: next :: after => exact (short c next after rfl).elim

/-- The search for the end leaves the last byte out. -/
theorem take_plainLength_dropLast (src : ByteString) :
    (src.take (plainLength src.dropLast)).any isSpecialByte = false := by
  have within := plainLength_le src.dropLast
  have plain := take_plainLength src.dropLast
  rwa [List.dropLast_eq_take, List.take_take, Nat.min_eq_left (by
    rwa [List.length_dropLast, List.dropLast_eq_take] at within), ← List.dropLast_eq_take] at plain

/-- Behind the plain bytes comes a special one. -/
theorem drop_plainLength_dropLast {src rest : ByteString} {c next : Byte}
    (found : src.drop (plainLength src.dropLast) = c :: next :: rest) :
    isSpecialByte c = true := by
  have count := congrArg List.length found
  rw [List.length_drop, List.length_cons, List.length_cons] at count
  have rest_count : src.length - 1 - plainLength src.dropLast = rest.length + 1 := by omega
  have shorter : src.dropLast.drop (plainLength src.dropLast) =
      c :: (next :: rest).take rest.length := by
    conv_lhs => arg 2; rw [List.dropLast_eq_take]
    rw [List.drop_take, found, rest_count, List.take_succ_cons]
  exact drop_plainLength shorter

/-- The reader, whose assertions hold, reads as it would byte by byte. -/
theorem readString_eq (src : ByteString) : readString src = some (readBytes src) := by
  induction length : src.length using Nat.strong_induction_on generalizing src with
  | _ length inductionHypothesis =>
    have front := readBytes_plain (take_plainLength_dropLast src)
      (src.drop (plainLength src.dropLast))
    rw [List.take_append_drop] at front
    have whole := congrArg List.length (List.take_append_drop (plainLength src.dropLast) src)
    rw [readString, skipToNextSpecialByte_eq, Option.bind_eq_bind, Option.bind_some, front]
    split
    · rename_i c next rest found
      rw [found, List.length_append, List.length_cons, List.length_cons] at whole
      have others := inductionHypothesis rest.length (by omega) rest rfl
      have special := drop_plainLength_dropLast found
      rw [found, special, others]
      obtain rfl | rfl := (isSpecialByte_iff c).mp special
      · by_cases separator : next = kSeparator
        · simp [readBytes, separator, kEscape1]
        · by_cases null : next = kNullCharacter
          · have different : kNullCharacter ≠ kSeparator := by decide
            simp [readBytes, null, different, kEscape1, Option.map_map, Function.comp_def]
          · simp [readBytes, separator, null, kEscape1]
      · by_cases last : next = kFFCharacter
        · simp [readBytes, last, kEscape1, kEscape2, Option.map_map, Function.comp_def]
        · simp [readBytes, last, kEscape1, kEscape2]
    · rename_i short
      cases ended : src.drop (plainLength src.dropLast) with
      | nil => rfl
      | cons c more =>
        cases more with
        | nil => rfl
        | cons next rest => exact (short c next rest ended).elim

/-- Reading takes what writing writes, and nothing else. -/
theorem readString_iff (src s rest : ByteString) :
    readString src = some (some (s, rest)) ↔ src = stringWord s ++ rest := by
  rw [readString_eq, Option.some_inj]
  constructor
  · exact readBytes_exact
  · rintro rfl
    exact readBytes_stringWord s rest

/-- Strings are ordered as they are written, whatever follows; what is read is what was
written, and no assertion fails. -/
theorem strings_written_exactly (s other src rest others : ByteString) :
    ∃ written another, writeString s = some written ∧ writeString other = some another ∧
      (written ++ rest < another ++ others ↔ s < other ∨ s = other ∧ rest < others) ∧
      (readString src).isSome = true ∧
      (readString src = some (some (s, rest)) ↔ src = written ++ rest) := by
  refine ⟨_, _, writeString_eq s, writeString_eq other,
    ordered_stringWord.lt_iff s other rest others, ?_, readString_iff src s rest⟩
  rw [readString_eq]
  rfl

end Amigo.Firestore.OrderedCode
