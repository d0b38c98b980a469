import ShapeContract.Text.WholeNumber
import ShapeContract.Value.Basic

/-!
# Reading JSON text

A reader of JSON that keeps the order of members; of repeated names the last value counts, at the
place of the first. Beside numbers it knows `NaN`, `Infinity` and `-Infinity`. Lists and mappings
may nest to a bound. A failure carries the reason for it.
-/

set_option autoImplicit false

namespace ShapeContract

inductive JsonFault where
  | malformed (reason : String)
  /-- An integer with more digits than are read. -/
  | tooManyDigits
  /-- Lists and mappings that nest deeper than the bound. -/
  | tooDeep
deriving DecidableEq, Repr

namespace JsonReader

def isSpace (c : Char) : Bool := c = ' ' || c = '\t' || c = '\n' || c = '\r'

def skipSpaces : List Char → List Char
  | [] => []
  | c :: rest => if isSpace c then skipSpaces rest else c :: rest

def expectingValue : JsonFault := .malformed "Expecting value"

def hexValue? (c : Char) : Option Nat :=
  let n := c.toNat
  if 48 ≤ n ∧ n ≤ 57 then some (n - 48)
  else if 97 ≤ n ∧ n ≤ 102 then some (n - 87)
  else if 65 ≤ n ∧ n ≤ 70 then some (n - 55)
  else none

def unit? : List Char → Option Nat
  | [a, b, c, d] => do
    pure ((← hexValue? a) * 4096 + (← hexValue? b) * 256 + (← hexValue? c) * 16 + (← hexValue? d))
  | _ => none

def escapeFault : JsonFault := .malformed "Invalid \\uXXXX escape"

/-- Four hexadecimal digits, with something after them. -/
def readUnit (cs : List Char) : Except JsonFault (Nat × List Char) :=
  match unit? (cs.take 4), cs.drop 4 with
  | some u, c :: rest => .ok (u, c :: rest)
  | _, _ => .error escapeFault

def scalarOf (code : Nat) : Char :=
  if 0xd800 ≤ code ∧ code ≤ 0xdfff then Char.ofNat 0xfffd else Char.ofNat code

/-- The character of an escape and the number of characters it takes after its letter. -/
def readUnicode (cs : List Char) : Except JsonFault (Char × Nat) := do
  let (u, rest) ← readUnit cs
  if 0xd800 ≤ u ∧ u < 0xdc00 then
    match rest with
    | '\\' :: 'u' :: more =>
      if more.length > 4 then
        match unit? (more.take 4) with
        | none => throw escapeFault
        | some v =>
          if 0xdc00 ≤ v ∧ v < 0xe000 then
            pure (Char.ofNat (0x10000 + (u - 0xd800) * 0x400 + (v - 0xdc00)), 10)
          else pure (scalarOf u, 4)
      else pure (scalarOf u, 4)
    | _ => pure (scalarOf u, 4)
  else pure (scalarOf u, 4)

def simpleEscape? : Char → Option Char
  | '"' => some '"'
  | '\\' => some '\\'
  | '/' => some '/'
  | 'b' => some (Char.ofNat 8)
  | 'f' => some (Char.ofNat 12)
  | 'n' => some '\n'
  | 'r' => some '\r'
  | 't' => some '\t'
  | _ => none

/-- The rest of a string after its opening quote; `skip` characters were used by an escape. -/
def readString (skip : Nat) (acc : List Char) : List Char → Except JsonFault (String × List Char)
  | [] => .error (.malformed "Unterminated string starting at")
  | c :: rest =>
    match skip with
    | k + 1 => readString k acc rest
    | 0 =>
      if c = '"' then .ok (String.ofList acc.reverse, rest)
      else if c = '\\' then
        match rest with
        | [] => .error (.malformed "Unterminated string starting at")
        | 'u' :: more => do
          let (ch, used) ← readUnicode more
          readString (used + 1) (ch :: acc) rest
        | e :: _ =>
          match simpleEscape? e with
          | some ch => readString 1 (ch :: acc) rest
          | none => .error (.malformed "Invalid \\escape")
      else if c.toNat < 32 then .error (.malformed "Invalid control character at")
      else readString 0 (c :: acc) rest

def isDigit (c : Char) : Bool := Decimal.isDigit c

/-- The whole part of a number. -/
def wholePart : List Char → Option (List Char × List Char)
  | '0' :: rest => some (['0'], rest)
  | c :: rest =>
    if isDigit c then some (c :: rest.takeWhile isDigit, rest.dropWhile isDigit) else none
  | [] => none

def fractionPart : List Char → List Char × List Char
  | '.' :: c :: rest =>
    if isDigit c then (c :: rest.takeWhile isDigit, rest.dropWhile isDigit) else ([], '.' :: c :: rest)
  | cs => ([], cs)

/-- The exponent of a number, if it has one with a digit. -/
def exponentPart (cs : List Char) : Option (Int × List Char) :=
  match cs with
  | e :: rest =>
    if e = 'e' ∨ e = 'E' then
      let (negative, body) := Text.splitSign rest
      let ds := body.takeWhile isDigit
      if ds.isEmpty then none
      else
        let v : Int := Decimal.value ds
        some (if negative then -v else v, body.dropWhile isDigit)
    else none
  | [] => none

def readNumber (cs : List Char) : Except JsonFault (Value × List Char) :=
  let (negative, body) := match cs with
    | '-' :: rest => (true, rest)
    | cs => (false, cs)
  match wholePart body with
  | none => .error expectingValue
  | some (whole, rest) =>
    let (fraction, rest) := fractionPart rest
    match exponentPart rest with
    | some (e, rest) =>
      .ok (.float (Double.ofDecimal negative (Decimal.value (whole ++ fraction)) (e - fraction.length)),
        rest)
    | none =>
      if fraction.isEmpty then
        if whole.length > Text.digitLimit then .error .tooManyDigits
        else
          let n : Int := Decimal.value whole
          .ok (.int (if negative then -n else n), rest)
      else
        .ok (.float (Double.ofDecimal negative (Decimal.value (whole ++ fraction)) (-fraction.length)),
          rest)

def constants : List (List Char × Value) :=
  [("null".toList, .null), ("true".toList, .bool true), ("false".toList, .bool false),
    ("NaN".toList, .float .nan), ("Infinity".toList, .float (.infinite false)),
    ("-Infinity".toList, .float (.infinite true))]

def readScalar (cs : List Char) : Except JsonFault (Value × List Char) :=
  match constants.find? fun e => e.1.isPrefixOf cs with
  | some (word, v) => .ok (v, cs.drop word.length)
  | none => readNumber cs

mutual

/-- One value with some levels of nesting left; every call uses up one unit of the budget. -/
def readValue : Nat → Nat → List Char → Except JsonFault (Value × List Char)
  | 0, _, _ => .error expectingValue
  | budget + 1, levels, cs =>
    match cs, levels with
    | [], _ => .error expectingValue
    | '"' :: rest, _ => do
      let (s, rest) ← readString 0 [] rest
      pure (.str s, rest)
    | '[' :: _, 0 => .error .tooDeep
    | '{' :: _, 0 => .error .tooDeep
    | '[' :: rest, levels + 1 =>
      match skipSpaces rest with
      | ']' :: rest => .ok (.list [], rest)
      | rest => readItems budget levels [] rest
    | '{' :: rest, levels + 1 =>
      match skipSpaces rest with
      | '}' :: rest => .ok (.object [], rest)
      | rest => readMembers budget levels [] rest
    | cs, _ => readScalar cs

def readItems : Nat → Nat → List Value → List Char → Except JsonFault (Value × List Char)
  | 0, _, _, _ => .error expectingValue
  | budget + 1, levels, acc, cs => do
    let (v, rest) ← readValue budget levels cs
    match skipSpaces rest with
    | ']' :: rest => pure (.list (v :: acc).reverse, rest)
    | ',' :: rest => readItems budget levels (v :: acc) (skipSpaces rest)
    | _ => throw (.malformed "Expecting ',' delimiter")

def readMembers : Nat → Nat → Fields Value → List Char → Except JsonFault (Value × List Char)
  | 0, _, _, _ => .error expectingValue
  | budget + 1, levels, acc, cs =>
    match cs with
    | '"' :: rest => do
      let (name, rest) ← readString 0 [] rest
      match skipSpaces rest with
      | ':' :: rest =>
        let (v, rest) ← readValue budget levels (skipSpaces rest)
        match skipSpaces rest with
        | '}' :: rest => pure (.object (acc.put name v), rest)
        | ',' :: rest => readMembers budget levels (acc.put name v) (skipSpaces rest)
        | _ => throw (.malformed "Expecting ',' delimiter")
      | _ => throw (.malformed "Expecting ':' delimiter")
    | _ => throw (.malformed "Expecting property name enclosed in double quotes")

end

/-- Reads a whole text in which lists and mappings nest at most `levels` deep. -/
def read (levels : Nat) (cs : List Char) : Except JsonFault Value := do
  let cs := skipSpaces cs
  let (v, rest) ← readValue (cs.length + 1) levels cs
  match skipSpaces rest with
  | [] => pure v
  | _ => throw (.malformed "Extra data")

end JsonReader

end ShapeContract
