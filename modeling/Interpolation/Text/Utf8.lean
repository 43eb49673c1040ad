/-!
# Text and its UTF-8 encoding

A text is a list of Unicode scalar values and a byte string a list of octets. A byte string is
decoded whole or not at all: `decode?_eq_some_iff` says that the decodable byte strings are the
encodings, each of exactly one text. For messages about bytes that are no text there is a lossy
reading, in which every ill-formed piece becomes one replacement character.
-/

namespace Interpolation

abbrev Text := List Char

abbrev Bytes := List UInt8

namespace Utf8

def encode (t : Text) : Bytes :=
  t.flatMap String.utf8EncodeChar

def decode? (bs : Bytes) : Option Text :=
  bs.toByteArray.utf8Decode?.map Array.toList

@[simp] theorem encode_nil : encode [] = [] := rfl

@[simp] theorem encode_cons (c : Char) (t : Text) :
    encode (c :: t) = String.utf8EncodeChar c ++ encode t := by
  simp [encode]

@[simp] theorem encode_append (s t : Text) : encode (s ++ t) = encode s ++ encode t := by
  simp [encode]

theorem toByteArray_encode (t : Text) : (encode t).toByteArray = t.utf8Encode := rfl

theorem toByteArray_injective {as bs : Bytes} (h : as.toByteArray = bs.toByteArray) : as = bs := by
  simpa using congrArg (fun b : ByteArray => b.data.toList) h

@[simp] theorem decode?_encode (t : Text) : decode? (encode t) = some t := by
  simp [decode?, toByteArray_encode]

theorem encode_of_decode? {bs : Bytes} {t : Text} (h : decode? bs = some t) : encode t = bs := by
  obtain ⟨cs, hcs, rfl⟩ := Option.map_eq_some_iff.mp h
  apply toByteArray_injective
  rw [toByteArray_encode]
  have hValid : bs.toByteArray.utf8Decode?.isSome := by simp [hcs]
  have hBack := ByteArray.utf8Encode_get_utf8Decode? (h := hValid)
  simpa [hcs] using hBack

/-- The decodable byte strings are the encodings. -/
theorem decode?_eq_some_iff {bs : Bytes} {t : Text} : decode? bs = some t ↔ bs = encode t := by
  constructor
  · intro h
    exact (encode_of_decode? h).symm
  · rintro rfl
    exact decode?_encode t

theorem encode_injective {s t : Text} (h : encode s = encode t) : s = t := by
  have hs := decode?_encode s
  rw [h, decode?_encode] at hs
  exact (Option.some.inj hs).symm

/-- The ranges in which the octets after a leading octet must lie, in order. -/
def following (lead : UInt8) : List (UInt8 × UInt8) :=
  let tail : UInt8 × UInt8 := (0x80, 0xBF)
  if 0xC2 ≤ lead ∧ lead ≤ 0xDF then [tail]
  else if lead = 0xE0 then [(0xA0, 0xBF), tail]
  else if lead = 0xED then [(0x80, 0x9F), tail]
  else if 0xE1 ≤ lead ∧ lead ≤ 0xEF then [tail, tail]
  else if lead = 0xF0 then [(0x90, 0xBF), tail, tail]
  else if 0xF1 ≤ lead ∧ lead ≤ 0xF3 then [tail, tail, tail]
  else if lead = 0xF4 then [(0x80, 0x8F), tail, tail]
  else []

/-- How many octets from the front lie in the given ranges, one range each. -/
def fitting : List (UInt8 × UInt8) → Bytes → Nat
  | (low, high) :: ranges, b :: bs => if low ≤ b ∧ b ≤ high then fitting ranges bs + 1 else 0
  | _, _ => 0

/-- How many octets the first piece of a byte string has: a character, or an ill-formed piece, which
is a leading octet with all octets after it that could still have continued it. -/
def pieceLength (lead : UInt8) (bs : Bytes) : Nat :=
  fitting (following lead) bs + 1

theorem length_drop_pieceLength_lt (b : UInt8) (bs : Bytes) :
    ((b :: bs).drop (pieceLength b bs)).length < (b :: bs).length := by
  rw [List.length_drop, List.length_cons, pieceLength]
  omega

/-- Reads every ill-formed piece as U+FFFD. -/
def patch : Bytes → Text
  | [] => []
  | b :: bs =>
    let n := pieceLength b bs
    (decode? ((b :: bs).take n)).getD ['\uFFFD'] ++ patch ((b :: bs).drop n)
termination_by bs => bs.length
decreasing_by exact length_drop_pieceLength_lt b bs

/-- Reads any byte string, a well-formed one as the text that it encodes. -/
def decodeLossy (bs : Bytes) : Text :=
  (decode? bs).getD (patch bs)

/-- The characters before the first ill-formed piece, and the octets from there on. -/
def wellFormedPart : Bytes → Text × Bytes
  | [] => ([], [])
  | b :: bs =>
    let n := pieceLength b bs
    match decode? ((b :: bs).take n) with
    | none => ([], b :: bs)
    | some t =>
      let (text, rest) := wellFormedPart ((b :: bs).drop n)
      (t ++ text, rest)
termination_by bs => bs.length
decreasing_by exact length_drop_pieceLength_lt b bs

/-- The longest text at the front of a byte string, and the octets after it. -/
def splitText (bs : Bytes) : Text × Bytes :=
  match decode? bs with
  | some t => (t, [])
  | none => wellFormedPart bs

@[simp] theorem splitText_encode (t : Text) : splitText (encode t) = (t, []) := by
  simp [splitText]

end Utf8

end Interpolation
