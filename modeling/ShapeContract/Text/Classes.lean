import ShapeContract.Text.WordTable
import ShapeContract.Text.PrintableTable
import ShapeContract.Text.CaseTable

/-!
# Character classes

Blanks, decimal digits, word characters, printable characters and letter case, by the Unicode
properties of a code point.
-/

set_option autoImplicit false

namespace ShapeContract.Text

/-- How many entries of an ascending array are at most `x`, between two positions. -/
def countUpTo (xs : Array Nat) (x : Nat) : Nat → Nat → Nat → Nat
  | 0, low, _ => low
  | fuel + 1, low, high =>
    if low ≥ high then low
    else
      let mid := (low + high) / 2
      if xs.getD mid 0 ≤ x then countUpTo xs x fuel (mid + 1) high
      else countUpTo xs x fuel low mid

/-- Whether a property given by its places of change holds at a code point. -/
def holdsAt (changes : Array Nat) (code : Nat) : Bool :=
  countUpTo changes code (changes.size.log2 + 2) 0 changes.size % 2 = 1

/-- White space: what stripping a text removes and what separates tokens. -/
def isBlank (c : Char) : Bool :=
  let n := c.toNat
  (9 ≤ n && n ≤ 13) || (28 ≤ n && n ≤ 32) || n = 0x85 || n = 0xa0 || n = 0x1680 ||
    (0x2000 ≤ n && n ≤ 0x200a) || n = 0x2028 || n = 0x2029 || n = 0x202f || n = 0x205f || n = 0x3000

/-- The zeros of the decimal digit runs; each is followed by its one to nine. -/
def decimalZeros : List Nat := [
  48, 1632, 1776, 1984, 2406, 2534, 2662, 2790, 2918, 3046, 3174, 3302, 3430, 3558,
  3664, 3792, 3872, 4160, 4240, 6112, 6160, 6470, 6608, 6784, 6800, 6992, 7088, 7232,
  7248, 42528, 43216, 43264, 43472, 43504, 43600, 44016, 65296, 66720, 68912, 69734, 69872, 69942,
  70096, 70384, 70736, 70864, 71248, 71360, 71472, 71904, 72016, 72784, 73040, 73120, 92768, 92864,
  93008, 120782, 120792, 120802, 120812, 120822, 123200, 123632, 125264, 130032]

/-- The value of a decimal digit of any script. -/
def decimalValue? (c : Char) : Option Nat :=
  let n := c.toNat
  if n < 128 then (if 48 ≤ n ∧ n ≤ 57 then some (n - 48) else none)
  else (decimalZeros.find? fun z => z ≤ n && n < z + 10).map (n - ·)

def isDecimal (c : Char) : Bool := (decimalValue? c).isSome

def isWord (c : Char) : Bool := holdsAt wordChanges c.toNat

def isPrintable (c : Char) : Bool := holdsAt printableChanges c.toNat

def isCased (code : Nat) : Bool := holdsAt casedChanges code

/-- The lower-case partner of a code point, itself if it has none. -/
def lowerCode (code : Nat) : Nat :=
  match lowerRuns.find? fun r => r.1 ≤ code && code ≤ r.2.1 && (code - r.1) % r.2.2.1 = 0 with
  | some r => ((code : Int) + r.2.2.2).toNat
  | none => code

/-- The code points whose lower-case partner is the given one. -/
def lowerSources (code : Nat) : List Nat :=
  let moved := lowerRuns.toList.filterMap fun r =>
    let x := ((code : Int) - r.2.2.2).toNat
    if r.1 ≤ x && x ≤ r.2.1 && (x - r.1) % r.2.2.1 = 0 && lowerCode x = code then some x else none
  if lowerCode code = code then code :: moved else moved

def siblings (code : Nat) : List Nat := ((caseSiblings.find? fun e => e.1 = code).map (·.2)).getD []

def trimStart : List Char → List Char
  | [] => []
  | c :: rest => if isBlank c then trimStart rest else c :: rest

def trimEnd (cs : List Char) : List Char := (trimStart cs.reverse).reverse

/-- The text without white space at its two ends. -/
def trim (cs : List Char) : List Char := trimEnd (trimStart cs)

def strip (s : String) : String := String.ofList (trim s.toList)

def lowerAscii (c : Char) : Char :=
  if 'A' ≤ c ∧ c ≤ 'Z' then Char.ofNat (c.toNat + 32) else c

/-- The capitals of a text: of ASCII letters, and of the few other letters whose capitals are ASCII. -/
def upperChars (c : Char) : List Char :=
  if 'a' ≤ c ∧ c ≤ 'z' then [Char.ofNat (c.toNat - 32)]
  else
    match c.toNat with
    | 0xdf => ['S', 'S']
    | 0x131 => ['I']
    | 0x17f => ['S']
    | 0xfb00 => ['F', 'F']
    | 0xfb01 => ['F', 'I']
    | 0xfb02 => ['F', 'L']
    | 0xfb03 => ['F', 'F', 'I']
    | 0xfb04 => ['F', 'F', 'L']
    | 0xfb05 => ['S', 'T']
    | 0xfb06 => ['S', 'T']
    | _ => [c]

def upper (s : String) : String := String.ofList (s.toList.flatMap upperChars)

def lower (s : String) : String := String.ofList (s.toList.map lowerAscii)

end ShapeContract.Text
