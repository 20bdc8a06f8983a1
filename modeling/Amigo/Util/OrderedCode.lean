import Amigo.Util.ByteString

/-!
# The ordered code of the database keys

A key of the local database is a string of components, written so that keys are ordered
as their components are. A string is written byte by byte, with the two bytes that mean
something else escaped, and ended by a separator. A signed number is written in one to
ten bytes: its sign and its length stand in the first bits, each bit of them the same as
the sign, and the number follows with its first byte first.

The bytes to escape are looked for eight at a time, by an expression that is not zero
where one of eight bytes is 0 or 255. A reader returns nothing where an assertion fails,
and nothing inside where it refuses what it reads.
-/

namespace Amigo.Firestore.OrderedCode

open ByteString

/-- `kEscape1`. -/
def kEscape1 : Byte := 0

/-- `kNullCharacter`. -/
def kNullCharacter : Byte := 255

/-- `kSeparator`. -/
def kSeparator : Byte := 1

/-- `kEscape2`. -/
def kEscape2 : Byte := 255

/-- `kFFCharacter`. -/
def kFFCharacter : Byte := 0

/-- `IsSpecialByte`: 0 and 255. -/
def isSpecialByte (byte : Byte) : Bool := byte + 1 < 2

/-- The number in memory, the first byte counting least. -/
def load : ByteString → Nat
  | [] => 0
  | byte :: rest => byte.val + 256 * load rest

/-- The test of eight bytes at once. -/
def hasZeroOr255Byte (v : BitVec 64) : Bool :=
  (v - 0x0101010101010101) &&& ~~~(v + 0x0101010101010101) &&& 0x8080808080808080 ≠ 0

/-- Whether to go past four bytes; it is asserted that this was right. -/
def advanceIfNoSpecialBytes (bytes : ByteString) : Option Nat :=
  let v := BitVec.ofNat 32 (load bytes)
  if (v - 0x01010101) &&& ~~~(v + 0x01010101) &&& 0x80808080 ≠ 0 then do
    guard (bytes.any isSpecialByte = true)
    some 0
  else do
    guard (bytes.all (fun byte => !isSpecialByte byte) = true)
    some 4

/-- How far the first byte to escape is, or the end. -/
def skipToNextSpecialByte (bytes : ByteString) : Option Nat :=
  if 8 ≤ bytes.length then
    if hasZeroOr255Byte (BitVec.ofNat 64 (load (bytes.take 8))) = false then
      (skipToNextSpecialByte (bytes.drop 8)).map (8 + ·)
    else do
      let p ← advanceIfNoSpecialBytes (bytes.take 4)
      if (bytes.drop p).head?.any isSpecialByte then some p
      else if (bytes.drop (p + 1)).head?.any isSpecialByte then some (p + 1)
      else if (bytes.drop (p + 2)).head?.any isSpecialByte then some (p + 2)
      else do
        guard ((bytes.drop (p + 3)).head?.any isSpecialByte = true)
        some (p + 3)
  else do
    let p ← if 4 ≤ bytes.length then advanceIfNoSpecialBytes (bytes.take 4) else some 0
    some (p + ((bytes.drop p).takeWhile (fun byte => !isSpecialByte byte)).length)
termination_by bytes.length
decreasing_by
  rw [List.length_drop]
  omega

/-- The bytes of a string, those that mean something else escaped. -/
def encodeStringFragment (s : ByteString) : Option ByteString := do
  let p ← skipToNextSpecialByte s
  match _split : s.drop p with
  | [] => some s
  | c :: rest =>
    guard (isSpecialByte c = true)
    let others ← encodeStringFragment rest
    if c = kEscape1 then some (s.take p ++ [kEscape1, kNullCharacter] ++ others)
    else do
      guard (c = kEscape2)
      some (s.take p ++ [kEscape2, kFFCharacter] ++ others)
termination_by s.length
decreasing_by
  have shorter := congrArg List.length _split
  rw [List.length_drop, List.length_cons] at shorter
  omega

/-- `WriteString`: the escaped string and the separator. -/
def writeString (s : ByteString) : Option ByteString := do
  let fragment ← encodeStringFragment s
  some (fragment ++ [kEscape1, kSeparator])

/-- The string that some bytes begin with, and the bytes after it. -/
def readString (src : ByteString) : Option (Option (ByteString × ByteString)) := do
  -- a string ends with two bytes, so the first of them is not the last byte
  let p ← skipToNextSpecialByte src.dropLast
  match split : src.drop p with
  | c :: next :: rest => do
    guard (isSpecialByte c = true)
    if c = kEscape1 then
      if next = kSeparator then some (some (src.take p, rest))
      else if next = kNullCharacter then do
        let result ← readString rest
        some (result.map fun others => (src.take p ++ [0] ++ others.1, others.2))
      else some none
    else do
      guard (c = kEscape2)
      if next = kFFCharacter then do
        let result ← readString rest
        some (result.map fun others => (src.take p ++ [255] ++ others.1, others.2))
      else some none
  | _ => some none
termination_by src.length
decreasing_by
  all_goals
    have shorter := congrArg List.length split
    rw [List.length_drop, List.length_cons, List.length_cons] at shorter
    omega

/-- `kMaxSigned64Length`. -/
def kMaxSigned64Length : Nat := 10

/-- The header bits in the first two bytes, by the length of the encoding. -/
def kLengthToHeaderBits : List (Byte × Byte) :=
  [(0, 0), (0x80, 0), (0xc0, 0), (0xe0, 0), (0xf0, 0), (0xf8, 0), (0xfc, 0), (0xfe, 0),
    (0xff, 0), (0xff, 0x80), (0xff, 0xc0)]

/-- The header bits that overlap with the number, by the length of the encoding. -/
def kLengthToMask : List (BitVec 64) :=
  [0, 0x80, 0xc000, 0xe00000, 0xf0000000, 0xf800000000, 0xfc0000000000, 0xfe000000000000,
    0xff00000000000000, 0x8000000000000000, 0]

/-- The length of the encoding, by the number of bits. -/
def kBitsToLength : List Nat :=
  [1, 1, 1, 1, 1, 1, 1, 2, 2, 2, 2, 2, 2, 2, 3, 3, 3, 3, 3, 3, 3, 4,
    4, 4, 4, 4, 4, 4, 5, 5, 5, 5, 5, 5, 5, 6, 6, 6, 6, 6, 6, 6, 7, 7,
    7, 7, 7, 7, 7, 8, 8, 8, 8, 8, 8, 8, 9, 9, 9, 9, 9, 9, 9, 10]

/-- The floor of the binary logarithm, and one: the number of bits. -/
def bits (n : Nat) : Nat := if n = 0 then 0 else n.log2 + 1

/-- The number without its sign, by the bits that differ from the sign. -/
def magnitude (n : Int) : Nat := if n < 0 then (-n - 1).toNat else n.toNat

/-- `SignedEncodingLength`. -/
def signedEncodingLength (n : Int) : Option Nat := kBitsToLength[bits (magnitude n)]?

/-- The bytes of a number in memory, turned to network order. -/
def networkOrder (n : Int) : ByteString := bigEndian 8 (n % 2 ^ 64).toNat

/-- A number is a 64-bit number with a sign. -/
def writeSignedNumIncreasing (val : Int) : Option ByteString :=
  if magnitude val < 64 then some [0x80 ^^^ Fin.ofNat 256 (val % 256).toNat]
  else do
    let signByte : Byte := if val < 0 then 0xff else 0
    let buf := [signByte, signByte] ++ networkOrder val
    let len ← signedEncodingLength val
    guard (2 ≤ len)
    let header ← kLengthToHeaderBits[len]?
    match buf.drop (kMaxSigned64Length - len) with
    | first :: second :: rest =>
      some ((first ^^^ header.1) :: (second ^^^ header.2) :: rest)
    | _ => none

/-- The length of the number that some bytes begin with and its raw bits, if there are
enough bytes. -/
def readRaw (src : ByteString) : Option (Nat × BitVec 64) :=
  match src with
  | [] => none
  | first :: _ =>
    let flip : Byte := if first &&& 0x80 = 0 then 0xff else 0
    let firstByte := first ^^^ flip
    if firstByte ≠ 0xff then
      let len := 7 - (firstByte ^^^ 0xff).val.log2
      if src.length < len then none
      else
        let mask : BitVec 64 := if first &&& 0x80 = 0 then ~~~0 else 0
        some (len, (src.take len).foldl (fun x byte => x <<< 8 ||| BitVec.ofNat 64 byte.val) mask)
    else if src.length < 8 then none
    else do
      let second ← src[1]?
      let third ← src[2]?
      let secondByte := second ^^^ flip
      let len ←
        if 0x80 ≤ secondByte then
          if secondByte < 0xc0 then some 9
          else if secondByte = 0xc0 ∧ third ^^^ flip < 0x80 then some 10
          else none
        else some 8
      if src.length < len then none
      else some (len, BitVec.ofNat 64 (value ((src.drop (len - 8)).take 8)))

/-- The number that some bytes begin with, and the bytes after it. -/
def readSignedNumIncreasing (src : ByteString) : Option (Option (Int × ByteString)) :=
  match readRaw src with
  | none => some none
  | some (len, raw) => do
    -- the header bits are removed
    let mask ← kLengthToMask[len]?
    let result := (raw ^^^ mask).toInt
    let expected ← signedEncodingLength result
    guard (len = expected)
    some (some (result, src.drop len))

end Amigo.Firestore.OrderedCode
