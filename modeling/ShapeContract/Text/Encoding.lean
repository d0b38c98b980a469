/-!
# Decoding bytes as text

UTF-8 with an optional byte order mark, or UTF-16 and UTF-32, recognised by their mark or by the zero
bytes of a text that begins with ASCII. A failure carries its reason. Surrogates that stand alone
become the replacement character.
-/

set_option autoImplicit false

namespace ShapeContract.Text

inductive Encoding where
  | utf8
  | utf16 (bigEndian : Bool)
  | utf32 (bigEndian : Bool)
deriving DecidableEq, Repr

/-- The encoding of a text and how many bytes its mark takes. -/
def detect (b : List Nat) : Encoding × Nat :=
  match b with
  | 0 :: 0 :: 0xfe :: 0xff :: _ => (.utf32 true, 4)
  | 0xff :: 0xfe :: 0 :: 0 :: _ => (.utf32 false, 4)
  | 0xfe :: 0xff :: _ => (.utf16 true, 2)
  | 0xff :: 0xfe :: _ => (.utf16 false, 2)
  | 0xef :: 0xbb :: 0xbf :: _ => (.utf8, 3)
  | b0 :: b1 :: b2 :: b3 :: _ =>
    if b0 = 0 then (if b1 ≠ 0 then (.utf16 true, 0) else (.utf32 true, 0))
    else if b1 = 0 then (if b2 ≠ 0 ∨ b3 ≠ 0 then (.utf16 false, 0) else (.utf32 false, 0))
    else (.utf8, 0)
  | [b0, b1] =>
    if b0 = 0 then (.utf16 true, 0) else if b1 = 0 then (.utf16 false, 0) else (.utf8, 0)
  | _ => (.utf8, 0)

/-- The character of a code point; a surrogate becomes the replacement character. -/
def scalar (code : Nat) : Char :=
  if 0xd800 ≤ code ∧ code ≤ 0xdfff then Char.ofNat 0xfffd else Char.ofNat code

def isTail (b : Nat) : Bool := 0x80 ≤ b && b ≤ 0xbf

def startReason : String := "invalid start byte"

def tailReason : String := "invalid continuation byte"

def endReason : String := "unexpected end of data"

def cutReason : String := "truncated data"

/-- The second byte of a three-byte form that is no shorter form in disguise. -/
def isSecondOfThree (a b : Nat) : Bool := isTail b && (a ≠ 0xe0 || b ≥ 0xa0)

/-- The second byte of a four-byte form inside the code space. -/
def isSecondOfFour (a b : Nat) : Bool :=
  isTail b && (a ≠ 0xf0 || b ≥ 0x90) && (a ≠ 0xf4 || b ≤ 0x8f)

def decodeUtf8 : List Nat → Except String (List Char)
  | [] => .ok []
  | a :: rest =>
    if a < 0x80 then return Char.ofNat a :: (← decodeUtf8 rest)
    else if a < 0xc2 then throw startReason
    else if a < 0xe0 then
      match rest with
      | [] => throw endReason
      | b :: rest =>
        if isTail b then return scalar ((a - 0xc0) * 64 + (b - 0x80)) :: (← decodeUtf8 rest)
        else throw tailReason
    else if a < 0xf0 then
      match rest with
      | [] => throw endReason
      | [b] =>
        if isSecondOfThree a b && (a ≠ 0xed || b < 0xa0) then throw endReason else throw tailReason
      | b :: c :: rest =>
        if isSecondOfThree a b && isTail c then
          return scalar ((a - 0xe0) * 4096 + (b - 0x80) * 64 + (c - 0x80)) :: (← decodeUtf8 rest)
        else throw tailReason
    else if a < 0xf5 then
      match rest with
      | [] => throw endReason
      | [b] => if isSecondOfFour a b then throw endReason else throw tailReason
      | [b, c] => if isSecondOfFour a b && isTail c then throw endReason else throw tailReason
      | b :: c :: d :: rest =>
        if isSecondOfFour a b && isTail c && isTail d then
          return scalar ((a - 0xf0) * 262144 + (b - 0x80) * 4096 + (c - 0x80) * 64 + (d - 0x80)) ::
            (← decodeUtf8 rest)
        else throw tailReason
    else throw startReason

def pair (bigEndian : Bool) (a b : Nat) : Nat := if bigEndian then a * 256 + b else b * 256 + a

def units16 (bigEndian : Bool) : List Nat → Except String (List Nat)
  | [] => .ok []
  | [_] => throw cutReason
  | a :: b :: rest => return pair bigEndian a b :: (← units16 bigEndian rest)

def joinUnits : List Nat → List Char
  | [] => []
  | [u] => [scalar u]
  | u :: v :: rest =>
    if 0xd800 ≤ u ∧ u < 0xdc00 ∧ 0xdc00 ≤ v ∧ v < 0xe000 then
      Char.ofNat (0x10000 + (u - 0xd800) * 0x400 + (v - 0xdc00)) :: joinUnits rest
    else scalar u :: joinUnits (v :: rest)

def decodeUtf32 (bigEndian : Bool) : List Nat → Except String (List Char)
  | [] => .ok []
  | a :: b :: c :: d :: rest => do
    let code := if bigEndian then ((a * 256 + b) * 256 + c) * 256 + d
      else ((d * 256 + c) * 256 + b) * 256 + a
    if code < 0x110000 then return scalar code :: (← decodeUtf32 bigEndian rest)
    else throw "code point not in range(0x110000)"
  | _ => throw cutReason

/-- The text of a sequence of bytes in the encoding that they show. -/
def decode (b : List Nat) : Except String (List Char) :=
  let (encoding, mark) := detect b
  match encoding with
  | .utf8 => decodeUtf8 (b.drop mark)
  | .utf16 bigEndian => do
    let units ← units16 bigEndian (b.drop mark)
    pure (joinUnits units)
  | .utf32 bigEndian => decodeUtf32 bigEndian (b.drop mark)

end ShapeContract.Text
