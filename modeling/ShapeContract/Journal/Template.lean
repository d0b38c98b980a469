import ShapeContract.Double.Fixed
import ShapeContract.Failure
import ShapeContract.Value.Display

/-!
# Message templates

A message is a template whose placeholders begin with a percent sign and stand for the arguments in
order, or by key for the entries of a single mapping. Placeholders are filled from left to right, so
that of two faults the first one counts.
-/

set_option autoImplicit false

namespace ShapeContract.Template

/-- A width or a precision: a number, or the next argument. -/
inductive Measure where
  | fixed (n : Nat)
  | argument

structure Placeholder where
  key : Option String
  leftAligned : Bool
  plus : Bool
  blank : Bool
  alternate : Bool
  zero : Bool
  width : Option Measure
  precision : Option Measure
  /-- The letter that tells the kind of text, unless the template ends before it. -/
  kind : Option Char

inductive Piece where
  | literal (c : Char)
  | placeholder (p : Placeholder)
  /-- A key without an end. -/
  | broken

/-! ## Reading -/

/-- The key in parentheses, which may hold further ones, and what follows it. -/
def takeKey : Nat → List Char → List Char → Option (List Char × List Char)
  | _, _, [] => none
  | depth, acc, '(' :: rest => takeKey (depth + 1) ('(' :: acc) rest
  | 0, acc, ')' :: rest => some (acc.reverse, rest)
  | depth + 1, acc, ')' :: rest => takeKey depth (')' :: acc) rest
  | depth, acc, c :: rest => takeKey depth (c :: acc) rest

def isFlag (c : Char) : Bool := c = '-' || c = '+' || c = ' ' || c = '#' || c = '0'

def takeMeasure : List Char → Option Measure × List Char
  | '*' :: rest => (some .argument, rest)
  | cs =>
    let ds := cs.takeWhile Decimal.isDigit
    (if ds.isEmpty then none else some (.fixed (Decimal.value ds)), cs.dropWhile Decimal.isDigit)

/-- A precision; a point alone is a precision of zero. -/
def takePrecision : List Char → Option Measure × List Char
  | '.' :: rest =>
    let (m, rest) := takeMeasure rest
    (some (m.getD (.fixed 0)), rest)
  | cs => (none, cs)

def withoutSize : List Char → List Char
  | 'h' :: rest => rest
  | 'l' :: rest => rest
  | 'L' :: rest => rest
  | cs => cs

/-- A placeholder after its percent sign, and what follows it. -/
def readPlaceholder (cs : List Char) : Option (Placeholder × List Char) := do
  let (key, cs) ← match cs with
    | '(' :: rest => (takeKey 0 [] rest).map fun r => (some (String.ofList r.1), r.2)
    | cs => some (none, cs)
  let flags := cs.takeWhile isFlag
  let (width, cs) := takeMeasure (cs.dropWhile isFlag)
  let (precision, cs) := takePrecision cs
  let cs := withoutSize cs
  pure (⟨key, flags.contains '-', flags.contains '+', flags.contains ' ', flags.contains '#',
    flags.contains '0', width, precision, cs.head?⟩, cs.tail)

def read : Nat → List Char → List Piece
  | 0, _ => []
  | _, [] => []
  | budget + 1, '%' :: '%' :: rest => .literal '%' :: read budget rest
  | budget + 1, '%' :: rest =>
    match readPlaceholder rest with
    | some (p, rest) => .placeholder p :: read budget rest
    | none => [.broken]
  | budget + 1, c :: rest => .literal c :: read budget rest

/-! ## Filling -/

/-- The arguments not yet used, or one mapping with the value that can be taken next, once: the
mapping itself, or what stands under the latest key. -/
inductive Arguments where
  | list (vs : List Value)
  | mapping (whole : Fields Value) (current : Value) (taken : Bool)

def next : Arguments → Except Failure (Value × Arguments)
  | .list (v :: rest) => .ok (v, .list rest)
  | .list [] => .error .typeMisuse
  | .mapping whole v false => .ok (v, .mapping whole v true)
  | .mapping _ _ true => .error .typeMisuse

/-- The arguments with the value under a key as the next one. -/
def select (args : Arguments) (key : Option String) : Except Failure Arguments :=
  match key, args with
  | none, args => .ok args
  | some key, .mapping whole _ _ =>
    match whole.get? key with
    | some v => .ok (.mapping whole v false)
    | none => .error .keyMisuse
  | some _, .list _ => .error .typeMisuse

/-- The greatest width. -/
def maxWidth : Nat := 9223372036854775807

/-- The greatest precision. -/
def maxPrecision : Nat := 2147483647

/-- A measure up to a limit, and whether it was negative. -/
def measure (limit : Nat) (m : Option Measure) (args : Arguments) :
    Except Failure (Option Nat × Bool × Arguments) :=
  match m with
  | none => .ok (none, false, args)
  | some (.fixed n) => if n ≤ limit then .ok (some n, false, args) else .error .valueMisuse
  | some .argument => do
    let (v, args) ← next args
    match v with
    | .int i =>
      if i.natAbs ≤ limit then pure (some i.natAbs, i < 0, args) else throw (.misuse .overflow)
    | .bool b => pure (some (if b then 1 else 0), false, args)
    | _ => throw .typeMisuse

/-- The digits of a number to a base of at most sixteen. -/
def digitsIn (base : Nat) : Nat → Nat → List Char
  | 0, _ => []
  | budget + 1, n =>
    if n < base then [Text.hexDigit n] else digitsIn base budget (n / base) ++ [Text.hexDigit (n % base)]

/-- A number as sign, marker of its base and digits. -/
structure NumberText where
  negative : Bool
  marker : List Char
  digits : List Char

def upperAll (cs : List Char) : List Char := cs.flatMap Text.upperChars

def wholeText (base : Nat) (marker : List Char) (precision : Option Nat) (i : Int) : NumberText :=
  ⟨i < 0, marker, Double.padLeft (precision.getD 0) '0' (digitsIn base (i.natAbs.log2 + 2) i.natAbs)⟩

/-- The integer that a value is, without the fraction of a double if it may have one. -/
def wholeOf (fractional : Bool) (v : Value) : Except Failure Int :=
  match v with
  | .int i => .ok i
  | .bool b => .ok (if b then 1 else 0)
  | .float x =>
    if fractional then
      match x with
      | .nan => .error .valueMisuse
      | .infinite _ => .error (.misuse .overflow)
      | x => .ok (x.truncated?.getD 0)
    else .error .typeMisuse
  | _ => .error .typeMisuse

def doubleOf (v : Value) : Except Failure Double :=
  match v with
  | .float x => .ok x
  | .int i =>
    match Double.ofInt i with
    | .infinite _ => .error (.misuse .overflow)
    | x => .ok x
  | .bool b => .ok (Double.ofInt (if b then 1 else 0))
  | _ => .error .typeMisuse

def doubleText (alternate : Bool) (kind : Char) (precision : Option Nat) (x : Double) : NumberText :=
  let places := precision.getD 6
  match x with
  | .nan => ⟨false, [], "nan".toList⟩
  | .infinite negative => ⟨negative, [], "inf".toList⟩
  | .finite negative u _ =>
    ⟨negative, [],
      if kind = 'f' ∨ kind = 'F' then Double.fixed alternate u places
      else if kind = 'e' ∨ kind = 'E' then Double.scientific alternate u places
      else Double.general alternate u places⟩

def capitals (n : NumberText) : NumberText := ⟨n.negative, upperAll n.marker, upperAll n.digits⟩

/-- The text of a number, for the placeholders that ask for one. -/
def numberText? (p : Placeholder) (kind : Char) (precision : Option Nat) (v : Value) :
    Option (Except Failure NumberText) :=
  let marker (m : String) : List Char := if p.alternate then m.toList else []
  let double (x : Double) : NumberText := doubleText p.alternate kind precision x
  match kind with
  | 'd' => some ((wholeOf true v).map (wholeText 10 [] precision))
  | 'i' => some ((wholeOf true v).map (wholeText 10 [] precision))
  | 'u' => some ((wholeOf true v).map (wholeText 10 [] precision))
  | 'o' => some ((wholeOf false v).map (wholeText 8 (marker "0o") precision))
  | 'x' => some ((wholeOf false v).map (wholeText 16 (marker "0x") precision))
  | 'X' => some ((wholeOf false v).map fun i => capitals (wholeText 16 (marker "0x") precision i))
  | 'e' => some ((doubleOf v).map double)
  | 'f' => some ((doubleOf v).map double)
  | 'g' => some ((doubleOf v).map double)
  | 'E' => some ((doubleOf v).map fun x => capitals (double x))
  | 'F' => some ((doubleOf v).map fun x => capitals (double x))
  | 'G' => some ((doubleOf v).map fun x => capitals (double x))
  | _ => none

def asciiChar (c : Char) : List Char :=
  let n := c.toNat
  if n < 128 then [c]
  else if n < 0x100 then '\\' :: 'x' :: Text.hex 2 n
  else if n < 0x10000 then '\\' :: 'u' :: Text.hex 4 n
  else '\\' :: 'U' :: Text.hex 8 n

def charText (v : Value) : Except Failure (List Char) :=
  match v with
  | .int i =>
    if 0 ≤ i ∧ i < 0x110000 then .ok [Char.ofNat i.toNat] else .error (.misuse .overflow)
  | .bool b => .ok [Char.ofNat (if b then 1 else 0)]
  | v =>
    match v.text?.map String.toList with
    | some [c] => .ok [c]
    | _ => .error .typeMisuse

/-- The text of a value, for the placeholders that ask for no number. -/
def plainText (kind : Char) (precision : Option Nat) (v : Value) : Except Failure (List Char) :=
  let cut (cs : List Char) : List Char :=
    match precision with
    | some n => cs.take n
    | none => cs
  match kind with
  | 's' => .ok (cut v.display.toList)
  | 'r' => .ok (cut v.shown.toList)
  | 'a' => .ok (cut (v.shown.toList.flatMap asciiChar))
  | 'c' => charText v
  | _ => .error .valueMisuse

/-- A text in a field of a width. -/
def align (left : Bool) (width : Nat) (cs : List Char) : List Char :=
  let gap := List.replicate (width - cs.length) ' '
  if left then cs ++ gap else gap ++ cs

def signText (p : Placeholder) (n : NumberText) : List Char :=
  if n.negative then ['-'] else if p.plus then ['+'] else if p.blank then [' '] else []

/-- A number in a field; zeros may fill the field between the sign and the digits. -/
def alignNumber (p : Placeholder) (left : Bool) (width : Nat) (n : NumberText) : List Char :=
  let lead := signText p n ++ n.marker
  if p.zero && !left then lead ++ Double.padLeft (width - lead.length) '0' n.digits
  else align left width (lead ++ n.digits)

/-- The text of a value for a kind of placeholder. -/
def fieldText (p : Placeholder) (kind : Char) (left : Bool) (width : Nat) (precision : Option Nat)
    (v : Value) : Except Failure (List Char) :=
  match numberText? p kind precision v with
  | some n => do return alignNumber p left width (← n)
  | none => do return align left width (← plainText kind precision v)

/-- Fills one placeholder. -/
def fill (p : Placeholder) (args : Arguments) : Except Failure (List Char × Arguments) := do
  let args ← select args p.key
  let (width, negativeWidth, args) ← measure maxWidth p.width args
  let (precision, negativePrecision, args) ← measure maxPrecision p.precision args
  match p.kind with
  | none => throw .valueMisuse
  | some kind => do
    let (v, args) ← next args
    let precision := if negativePrecision then some 0 else precision
    let text ← fieldText p kind (p.leftAligned || negativeWidth) (width.getD 0) precision v
    pure (text, args)

def fillAll : List Piece → Arguments → Except Failure (List Char)
  | [], .list (_ :: _) => .error .typeMisuse
  | [], _ => .ok []
  | .literal c :: rest, args => do
    let cs ← fillAll rest args
    pure (c :: cs)
  | .placeholder p :: rest, args => do
    let (cs, args) ← fill p args
    let tail ← fillAll rest args
    pure (cs ++ tail)
  | .broken :: _, _ => .error .valueMisuse

/-- One mapping that is not empty stands for its entries. -/
def argumentsOf : List Value → Arguments
  | [.object (e :: es)] => .mapping (e :: es) (.object (e :: es)) false
  | vs => .list vs

/-- A template with its arguments; without any it is taken as it is. -/
def apply (template : String) (args : List Value) : Except Failure String :=
  if args.isEmpty then .ok template
  else do
    let cs := template.toList
    let out ← fillAll (read (cs.length + 1) cs) (argumentsOf args)
    pure (String.ofList out)

end ShapeContract.Template
