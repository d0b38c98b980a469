import ShapeContract.Decimal
import ShapeContract.Failure
import ShapeContract.Pattern.Basic
import ShapeContract.Pattern.Names
import ShapeContract.Text.WholeNumber
import ShapeContract.Value.Basic

/-!
# Reading regular expressions

The reader goes through the text character by character, a backslash together with what follows it.
It knows the widths of what it has read, which bound what may be looked for backwards.
-/

set_option autoImplicit false

namespace ShapeContract.Pattern

/-- A character, or a backslash with the character that it escapes. -/
inductive Token where
  | plain (c : Char)
  | escaped (c : Char)
deriving DecidableEq

def tokens : List Char → Option (List Token)
  | [] => some []
  | ['\\'] => none
  | '\\' :: c :: rest => (tokens rest).map (.escaped c :: ·)
  | c :: rest => (tokens rest).map (.plain c :: ·)

inductive Fault where
  | malformed
  | tooLarge
  | incompatible
deriving DecidableEq

/-- Options of a part of the expression. -/
structure Mode where
  ignoreCase : Bool
  multiLine : Bool
  dotAll : Bool
  verbose : Bool
  ascii : Bool
deriving DecidableEq

/-- The options of a mode that can be given from outside. -/
def Mode.flags (m : Mode) : RegexFlags := ⟨m.ignoreCase, m.multiLine, m.dotAll, m.verbose⟩

def Mode.rule (m : Mode) : CaseRule :=
  if m.ignoreCase then (if m.ascii then .asciiOnly else .all) else .exact

/-- Options of the whole expression. -/
structure Settings where
  mode : Mode
  /-- Whether the letters for Unicode classes and for ASCII ones were given. -/
  unicodeGiven : Bool
  asciiGiven : Bool
  /-- The option that forbids repetitions was given. -/
  template : Bool

/-- The options before the text has been looked at. -/
def Settings.start (f : RegexFlags) : Settings :=
  ⟨⟨f.ignoreCase, f.multiLine, f.dotAll, f.verbose, false⟩, false, false, false⟩

structure State where
  /-- Least and greatest width of each group from the first on; none while it is open. -/
  widths : List (Option (Nat × Nat))
  names : List (List Char × Nat)
  /-- The number of groups when the outermost look-behind was entered. -/
  behind : Option Nat
  conditions : List Nat
  /-- A look-behind of no fixed width was met. -/
  unbounded : Bool
  /-- A repetition was met. -/
  repeats : Bool

abbrev Read := StateT State (Except Fault)

def fail {α : Type} : Read α := throw .malformed

/-- What kind of part stands last, for a repetition that follows. -/
inductive Shape where
  | anchor | repeated | other
deriving DecidableEq

structure Piece where
  node : Node
  low : Nat
  high : Nat
  shape : Shape

def widthLimit : Nat := 18446744073709551616

def repeatLimit : Nat := 4294967295

def single (items : List ClassItem) (negated : Bool) (m : Mode) : Piece :=
  ⟨.char (.oneOf negated items m.rule m.ascii), 1, 1, .other⟩

def anchorPiece (a : Anchor) : Piece := ⟨.anchor a, 0, 0, .anchor⟩

def isHex (c : Char) : Bool :=
  let n := c.toNat
  (48 ≤ n && n ≤ 57) || (97 ≤ n && n ≤ 102) || (65 ≤ n && n ≤ 70)

def isOctal (c : Char) : Bool := '0' ≤ c && c ≤ '7'

def hexDigitValue (c : Char) : Nat :=
  let n := c.toNat
  if n ≤ 57 then n - 48 else if n ≤ 70 then n - 55 else n - 87

def inBase (base : Nat) (ds : List Char) : Nat :=
  ds.foldl (fun acc c => acc * base + hexDigitValue c) 0

/-- At most `n` leading characters of a class, and what follows them. -/
def takeClass (p : Char → Bool) : Nat → List Token → List Char × List Token
  | n + 1, .plain c :: rest =>
    if p c then
      let (cs, r) := takeClass p n rest
      (c :: cs, r)
    else ([], .plain c :: rest)
  | _, ts => ([], ts)

def allOf (p : Char → Bool) (ts : List Token) : List Char × List Token := takeClass p ts.length ts

/-- A character given by exactly `n` hexadecimal digits. -/
def hexCode? (n : Nat) (ts : List Token) : Option (Nat × List Token) :=
  let (ds, rest) := takeClass isHex n ts
  if ds.length = n ∧ inBase 16 ds ≤ 0x10ffff then some (inBase 16 ds, rest) else none

def controlCode? : Char → Option Nat
  | 'a' => some 7
  | 'b' => some 8
  | 'f' => some 12
  | 'n' => some 10
  | 'r' => some 13
  | 't' => some 9
  | 'v' => some 11
  | '\\' => some 92
  | _ => none

def category? : Char → Option ClassItem
  | 'd' => some (.category .digit false)
  | 'D' => some (.category .digit true)
  | 's' => some (.category .space false)
  | 'S' => some (.category .space true)
  | 'w' => some (.category .word false)
  | 'W' => some (.category .word true)
  | _ => none

/-- The text up to a closing character. -/
def nameUntil? (close : Char) : List Token → Option (List Char × List Token)
  | [] => none
  | t :: rest =>
    if t = .plain close then some ([], rest)
    else do
      let (cs, r) ← nameUntil? close rest
      match t with
      | .plain c => some (c :: cs, r)
      | .escaped c => some ('\\' :: c :: cs, r)

/-- A name up to a closing character, which may not be empty. -/
def groupName? (close : Char) (ts : List Token) : Option (List Char × List Token) := do
  let (cs, rest) ← nameUntil? close ts
  if cs.isEmpty then none else some (cs, rest)

/-- The code of a character that is given by its name in braces. -/
def namedCode? [CharacterNames] (ts : List Token) : Option (Nat × List Token) :=
  match ts with
  | .plain '{' :: rest => do
    let (name, rest) ← groupName? '}' rest
    let c ← CharacterNames.named? (String.ofList name)
    some (c.toNat, rest)
  | _ => none

/-- The code of an escape by number or by name that means the same inside and outside a class. -/
def numericEscape? [CharacterNames] (c : Char) (ts : List Token) :
    Option (Option (Nat × List Token)) :=
  if c = 'x' then some (hexCode? 2 ts)
  else if c = 'u' then some (hexCode? 4 ts)
  else if c = 'U' then some (hexCode? 8 ts)
  else if c = 'N' then some (namedCode? ts)
  else none

def ordinary? (c : Char) (ts : List Token) : Option (Nat × List Token) :=
  if isAsciiLetter c.toNat then none else some (c.toNat, ts)

/-- An escape inside a character class. -/
def classEscape? [CharacterNames] (c : Char) (ts : List Token) : Option (ClassItem × List Token) :=
  let code (r : Option (Nat × List Token)) : Option (ClassItem × List Token) :=
    r.map fun e => (.code e.1, e.2)
  match controlCode? c, category? c, numericEscape? c ts with
  | some n, _, _ => some (.code n, ts)
  | _, some k, _ => some (k, ts)
  | _, _, some r => code r
  | _, _, none =>
    if isOctal c then
      let (ds, rest) := takeClass isOctal 2 ts
      let v := inBase 8 (c :: ds)
      if v > 255 then none else some (.code v, rest)
    else if Decimal.isDigit c then none
    else code (ordinary? c ts)

/-- One character or escape of a class. -/
def classItem? [CharacterNames] : List Token → Option (ClassItem × List Token)
  | [] => none
  | .plain c :: rest => some (.code c.toNat, rest)
  | .escaped c :: rest => classEscape? c rest

/-- The items of a class up to its closing bracket; a bracket in the first place is an item. -/
def classItems? [CharacterNames] :
    Nat → List ClassItem → List Token → Option (List ClassItem × List Token)
  | 0, _, _ => none
  | budget + 1, acc, ts =>
    match ts, acc with
    | .plain ']' :: rest, _ :: _ => some (acc.reverse, rest)
    | ts, acc => do
      let (first, rest) ← classItem? ts
      match rest with
      | .plain '-' :: .plain ']' :: rest => some ((.code 45 :: first :: acc).reverse, rest)
      | .plain '-' :: rest =>
        let (last, rest) ← classItem? rest
        match first, last with
        | .code low, .code high =>
          if high < low then none else classItems? budget (.range low high :: acc) rest
        | _, _ => none
      | rest => classItems? budget (first :: acc) rest

def groupCount : Read Nat := do pure ((← get).widths.length + 1)

/-- The widths of a closed group. -/
def closedGroup? (g : Nat) : Read (Option (Nat × Nat)) := do
  if g = 0 then pure none else pure (((← get).widths[g - 1]?).getD none)

/-- Refuses a group that a look-behind may not refer to. -/
def checkBehind (g : Nat) : Read Unit := do
  match (← get).behind with
  | none => pure ()
  | some n =>
    match ← closedGroup? g with
    | none => fail
    | some _ => if g ≥ n then fail else pure ()

def referTo (g : Nat) (m : Mode) : Read Piece := do
  match ← closedGroup? g with
  | none => fail
  | some (low, high) =>
    checkBehind g
    pure ⟨.backReference g m.rule, low, high, .other⟩

/-- An escape that begins with a digit other than zero: an octal code or a group. -/
def digitEscape (c : Char) (ts : List Token) (m : Mode) : Read (Piece × List Token) := do
  let refer (ds : List Char) (rest : List Token) : Read (Piece × List Token) := do
    pure (← referTo (Decimal.value ds) m, rest)
  match ts with
  | .plain d :: rest =>
    if Decimal.isDigit d then
      match rest with
      | .plain e :: more =>
        if isOctal c && isOctal d && isOctal e then
          let v := inBase 8 [c, d, e]
          if v > 255 then fail else pure (single [.code v] false m, more)
        else refer [c, d] rest
      | _ => refer [c, d] rest
    else refer [c] ts
  | _ => refer [c] ts

/-- An escape outside a class. -/
def escape [CharacterNames] (c : Char) (ts : List Token) (m : Mode) :
    Read (Piece × List Token) := do
  let literal (r : Option (Nat × List Token)) : Read (Piece × List Token) := do
    match r with
    | some (n, rest) => pure (single [.code n] false m, rest)
    | none => fail
  match c with
  | 'A' => pure (anchorPiece .textStart, ts)
  | 'Z' => pure (anchorPiece .textEnd, ts)
  | 'b' => pure (anchorPiece (.boundary m.ascii), ts)
  | 'B' => pure (anchorPiece (.noBoundary m.ascii), ts)
  | c =>
    match category? c, controlCode? c, numericEscape? c ts with
    | some k, _, _ => pure (single [k] false m, ts)
    | _, some n, _ => literal (some (n, ts))
    | _, _, some r => literal r
    | _, _, none =>
      if c = '0' then
        let (ds, rest) := takeClass isOctal 2 ts
        literal (some (inBase 8 ds, rest))
      else if Decimal.isDigit c then digitEscape c ts m
      else literal (ordinary? c ts)

def isIdentifier : List Char → Bool
  | [] => false
  | c :: rest => Text.isWord c && !Text.isDecimal c && rest.all Text.isWord

/-- What a repetition sign says: least and greatest count. -/
inductive Quantifier where
  | none
  | count (min : Nat) (max : Option Nat) (rest : List Token)

def countOf (ds : List Char) : Read Nat := do
  let n := Decimal.value ds
  if n ≥ repeatLimit then throw .tooLarge else pure n

/-- Counts in braces, after the opening one; what has another form is no repetition. -/
def bracedCount (ts : List Token) : Read Quantifier := do
  if ts.head? = some (.plain '}') then return .none
  let (low, rest) := allOf Decimal.isDigit ts
  let (high, rest) := match rest with
    | .plain ',' :: more =>
      let (ds, r) := allOf Decimal.isDigit more
      (ds, r)
    | rest => (low, rest)
  match rest with
  | .plain '}' :: rest =>
    let min ← if low.isEmpty then pure 0 else countOf low
    if high.isEmpty then pure (.count min Option.none rest)
    else do
      let max ← countOf high
      if max < min then fail else pure (.count min (some max) rest)
  | _ => pure .none

def quantifier (c : Char) (ts : List Token) : Read Quantifier :=
  if c = '?' then pure (.count 0 (some 1) ts)
  else if c = '*' then pure (.count 0 Option.none ts)
  else if c = '+' then pure (.count 1 Option.none ts)
  else if c = '{' then bracedCount ts
  else pure .none

/-- Repeats the last piece of a sequence, which is held backwards. -/
def repeatLast (pieces : List Piece) (min : Nat) (max : Option Nat) (rest : List Token) :
    Read (List Piece × List Token) := do
  match pieces with
  | [] => fail
  | p :: before =>
    if p.shape ≠ .other then fail
    else
      let (mode, rest) := match rest with
        | .plain '?' :: r => (RepeatMode.lazy, r)
        | .plain '+' :: r => (RepeatMode.possessive, r)
        | r => (RepeatMode.greedy, r)
      let high := match max with
        | some n => p.high * n
        | Option.none => if p.high = 0 then 0 else widthLimit
      modify fun st => { st with repeats := true }
      pure (⟨.repeated mode min max p.node, p.low * min, high, .repeated⟩ :: before, rest)

def sequence (pieces : List Piece) : Piece :=
  let parts := pieces.reverse
  let node := match parts with
    | [p] => p.node
    | ps => .seq (ps.map Piece.node)
  ⟨node, Nat.min widthLimit ((parts.map Piece.low).foldl (· + ·) 0),
    Nat.min widthLimit ((parts.map Piece.high).foldl (· + ·) 0), .other⟩

/-- The class items of a piece that is one character out of a class. -/
def classOf? (p : Piece) : Option (List ClassItem) :=
  match p.node with
  | .char (.oneOf false items _ _) => some items
  | _ => none

/-- Branches that are single characters are one class. -/
def alternatives (branches : List Piece) (m : Mode) : Piece :=
  match branches with
  | [p] => p
  | ps =>
    match ps.mapM classOf? with
    | some items => single items.flatten false m
    | none =>
      ⟨.alt (ps.map Piece.node), (ps.map Piece.low).foldl Nat.min widthLimit,
        (ps.map Piece.high).foldl Nat.max 0, .other⟩

/-- Options added and taken away by letters. -/
structure FlagChange where
  added : List Char
  removed : List Char

def isFlag (c : Char) : Bool := ['i', 'L', 'm', 's', 'x', 'a', 't', 'u'].contains c

def isTypeFlag (c : Char) : Bool := c = 'a' || c = 'u' || c = 'L'

/-- The letters up to a sign that ends them. -/
def flagRun (stops : List Char) : List Token → Option (List Char × Char × List Token)
  | .plain c :: rest =>
    if stops.contains c then some ([], c, rest)
    else if isFlag c then do
      let (cs, stop, r) ← flagRun stops rest
      some (c :: cs, stop, r)
    else none
  | _ => none

/-- The letters of the options that are added, from the first one on. -/
def addedRun (c : Char) (ts : List Token) : Option (List Char × Char × List Token) :=
  if c = '-' then some ([], '-', ts) else flagRun [')', '-', ':'] (.plain c :: ts)

/-- Option letters from the first one on; the flag tells whether they hold for the whole text. -/
def flagChange? (c : Char) (ts : List Token) : Option (FlagChange × Bool × List Token) := do
  let (added, stop, rest) ← addedRun c ts
  if added.contains 'L' || (added.contains 'a' && added.contains 'u') then none
  else if stop = ')' then some (⟨added, []⟩, true, rest)
  else if added.contains 't' then none
  else if stop = ':' then some (⟨added, []⟩, false, rest)
  else
    let (removed, _, rest) ← flagRun [':'] rest
    if removed.isEmpty || removed.any isTypeFlag || removed.contains 't' then none
    else if added.any removed.contains then none
    else some (⟨added, removed⟩, false, rest)

def Mode.change (m : Mode) (f : FlagChange) : Mode :=
  let pick (old : Bool) (c : Char) : Bool := (old || f.added.contains c) && !f.removed.contains c
  { ignoreCase := pick m.ignoreCase 'i'
    multiLine := pick m.multiLine 'm'
    dotAll := pick m.dotAll 's'
    verbose := pick m.verbose 'x'
    ascii := if f.added.contains 'a' then true else if f.added.contains 'u' then false else m.ascii }

def Settings.change (s : Settings) (f : FlagChange) : Settings where
  mode := s.mode.change f
  unicodeGiven := s.unicodeGiven || f.added.contains 'u'
  asciiGiven := s.asciiGiven || f.added.contains 'a'
  template := s.template || f.added.contains 't'

def openGroup (name : Option (List Char)) : Read Nat := do
  let st ← get
  let g := st.widths.length + 1
  match name with
  | none => set { st with widths := st.widths ++ [none] }
  | some n =>
    if st.names.any fun e => e.1 = n then fail
    set { st with widths := st.widths ++ [none], names := (n, g) :: st.names }
  pure g

def closeGroup (g : Nat) (p : Piece) : Read Unit :=
  modify fun st => { st with widths := st.widths.set (g - 1) (some (p.low, p.high)) }

def namedGroup (name : List Char) : Read Nat := do
  match (← get).names.find? fun e => e.1 = name with
  | some e => pure e.2
  | none => fail

/-- The group of a condition, by name or number. -/
def conditionGroup (name : List Char) : Read Nat := do
  if isIdentifier name then namedGroup name
  else
    match Text.wholeNumber? name with
    | some (.ofNat (n + 1)) =>
      modify fun st => { st with conditions := (n + 1) :: st.conditions }
      pure (n + 1)
    | _ => fail

def skipLine : List Token → List Token
  | [] => []
  | t :: rest => if t = .plain '\n' then rest else skipLine rest

def skipComment : List Token → Option (List Token)
  | [] => none
  | t :: rest => if t = .plain ')' then some rest else skipComment rest

def isVerboseBlank (c : Char) : Bool := c = ' ' || (9 ≤ c.toNat && c.toNat ≤ 13)

def expectClose (ts : List Token) : Read (List Token) := do
  match ts with
  | .plain ')' :: rest => pure rest
  | _ => fail

/-- One step through what may stand before an expression: options for the whole text, a comment, a
blank in a verbose text. There is none where the expression begins. -/
def opening (s : Settings) (ts : List Token) : Except Fault (Option (Settings × List Token)) :=
  match ts with
  | .plain '(' :: .plain '?' :: .plain c :: rest =>
    if c = '#' then
      match skipComment rest with
      | some rest => .ok (some (s, rest))
      | none => .error .malformed
    else if isFlag c || c = '-' then
      match flagChange? c rest with
      | some (f, true, rest) => .ok (some (s.change f, rest))
      | some (_, false, _) => .ok none
      | none => .error .malformed
    else .ok none
  | .plain c :: rest =>
    if s.mode.verbose && isVerboseBlank c then .ok (some (s, rest))
    else if s.mode.verbose && c = '#' then .ok (some (s, skipLine rest))
    else .ok none
  | _ => .ok none

/-- The options for the whole text, and where the expression begins. -/
def preamble (budget : Nat) (s : Settings) (ts : List Token) :
    Except Fault (Settings × List Token) := do
  match budget with
  | 0 => throw .malformed
  | budget + 1 =>
    match ← opening s ts with
    | some (s, rest) => preamble budget s rest
    | none => pure (s, ts)

mutual

/-- Branches up to a closing parenthesis or the end. -/
def branches [CharacterNames] (budget : Nat) (m : Mode) (acc : List Piece) (ts : List Token) :
    Read (Piece × List Token) := do
  match budget with
  | 0 => fail
  | budget + 1 =>
    let (p, rest) ← pieces budget m [] ts
    match rest with
    | .plain '|' :: rest => branches budget m (p :: acc) rest
    | rest => pure (alternatives (p :: acc).reverse m, rest)

/-- Pieces up to a bar, a closing parenthesis or the end. -/
def pieces [CharacterNames] (budget : Nat) (m : Mode) (acc : List Piece) (ts : List Token) :
    Read (Piece × List Token) := do
  match budget with
  | 0 => fail
  | budget + 1 =>
    match ts with
    | [] => pure (sequence acc, [])
    | .escaped c :: rest =>
      let (p, rest) ← escape c rest m
      pieces budget m (p :: acc) rest
    | .plain c :: rest =>
      if c = '|' ∨ c = ')' then pure (sequence acc, ts)
      else if m.verbose && isVerboseBlank c then pieces budget m acc rest
      else if m.verbose && c = '#' then pieces budget m acc (skipLine rest)
      else if c = '[' then
        let (negated, rest) := match rest with
          | .plain '^' :: r => (true, r)
          | r => (false, r)
        match classItems? (rest.length + 1) [] rest with
        | some (items, rest) => pieces budget m (single items negated m :: acc) rest
        | none => fail
      else if c = '.' then
        pieces budget m (⟨.char (.any m.dotAll), 1, 1, .other⟩ :: acc) rest
      else if c = '^' then
        pieces budget m (anchorPiece (if m.multiLine then .lineStart else .textStart) :: acc) rest
      else if c = '$' then
        pieces budget m (anchorPiece (if m.multiLine then .lineEnd else .lastLineEnd) :: acc) rest
      else if c = '(' then
        match rest with
        | .plain '?' :: rest => extension budget m acc rest
        | rest =>
          let g ← openGroup none
          capture budget m acc g rest
      else
        match ← quantifier c rest with
        | .count min max rest =>
          let (acc, rest) ← repeatLast acc min max rest
          pieces budget m acc rest
        | .none => pieces budget m (single [.code c.toNat] false m :: acc) rest

/-- A capturing group after its opening. -/
def capture [CharacterNames] (budget : Nat) (m : Mode) (acc : List Piece) (g : Nat)
    (ts : List Token) :
    Read (Piece × List Token) := do
  match budget with
  | 0 => fail
  | budget + 1 =>
    let (p, rest) ← branches budget m [] ts
    let rest ← expectClose rest
    closeGroup g p
    pieces budget m (⟨.capture g p.node, p.low, p.high, .other⟩ :: acc) rest

/-- What follows a parenthesis with a question mark; options for the whole text may no longer. -/
def extension [CharacterNames] (budget : Nat) (m : Mode) (acc : List Piece) (ts : List Token) :
    Read (Piece × List Token) := do
  match budget with
  | 0 => fail
  | budget + 1 =>
    match ts with
    | .plain 'P' :: .plain '<' :: rest =>
      match groupName? '>' rest with
      | some (name, rest) =>
        if !isIdentifier name then fail
        let g ← openGroup (some name)
        capture budget m acc g rest
      | none => fail
    | .plain 'P' :: .plain '=' :: rest =>
      match groupName? ')' rest with
      | some (name, rest) =>
        if !isIdentifier name then fail
        let p ← referTo (← namedGroup name) m
        pieces budget m (p :: acc) rest
      | none => fail
    | .plain ':' :: rest =>
      let (p, rest) ← branches budget m [] rest
      let rest ← expectClose rest
      pieces budget m (⟨p.node, p.low, p.high, .other⟩ :: acc) rest
    | .plain '#' :: rest =>
      match skipComment rest with
      | some rest => pieces budget m acc rest
      | none => fail
    | .plain '=' :: rest => look budget m acc false false rest
    | .plain '!' :: rest => look budget m acc false true rest
    | .plain '<' :: .plain '=' :: rest => look budget m acc true false rest
    | .plain '<' :: .plain '!' :: rest => look budget m acc true true rest
    | .plain '(' :: rest =>
      match groupName? ')' rest with
      | none => fail
      | some (name, rest) =>
        let g ← conditionGroup name
        checkBehind g
        let (yes, rest) ← pieces budget m [] rest
        match rest with
        | .plain '|' :: rest =>
          let (no, rest) ← pieces budget m [] rest
          let rest ← expectClose rest
          pieces budget m
            (⟨.whenMatched g yes.node no.node, Nat.min yes.low no.low, Nat.max yes.high no.high,
              .other⟩ :: acc) rest
        | rest =>
          let rest ← expectClose rest
          pieces budget m (⟨.whenMatched g yes.node (.seq []), 0, yes.high, .other⟩ :: acc) rest
    | .plain '>' :: rest =>
      let (p, rest) ← branches budget m [] rest
      let rest ← expectClose rest
      pieces budget m (⟨.atomic p.node, p.low, p.high, .other⟩ :: acc) rest
    | .plain c :: rest =>
      if isFlag c || c = '-' then
        match flagChange? c rest with
        | some (f, false, rest) =>
          let (p, rest) ← branches budget (m.change f) [] rest
          let rest ← expectClose rest
          pieces budget m (⟨.seq [p.node], p.low, p.high, .other⟩ :: acc) rest
        | _ => fail
      else fail
    | _ => fail

/-- A look-ahead or look-behind after its opening. -/
def look [CharacterNames] (budget : Nat) (m : Mode) (acc : List Piece) (back negative : Bool)
    (ts : List Token) :
    Read (Piece × List Token) := do
  match budget with
  | 0 => fail
  | budget + 1 =>
    let outer := (← get).behind
    if back && outer.isNone then
      let n ← groupCount
      modify fun st => { st with behind := some n }
    let (p, rest) ← branches budget m [] ts
    if back then modify fun st =>
      { st with behind := outer, unbounded := st.unbounded || p.low ≠ p.high }
    let rest ← expectClose rest
    pieces budget m
      (⟨.look (if back then some p.low else none) negative p.node, 0, 0, .other⟩ :: acc) rest

end

/-- Reads the expression itself, under options that are settled. -/
def expression [CharacterNames] (budget : Nat) (s : Settings) (ts : List Token) :
    Except Fault Node := do
  let start : State := ⟨[], [], none, [], false, false⟩
  let ((p, rest), st) ← (branches budget s.mode [] ts).run start
  if s.unicodeGiven && s.asciiGiven then throw .incompatible
  if !rest.isEmpty then throw .malformed
  if st.conditions.any fun g => g > st.widths.length then throw .malformed
  if st.unbounded || (s.template && st.repeats) then throw .malformed
  pure p.node

/-- Reads a whole text under the given options, which it may add to. -/
def readTokens [CharacterNames] (f : RegexFlags) (ts : List Token) :
    Except Fault (Node × RegexFlags) := do
  let (s, rest) ← preamble (ts.length + 1) (.start f) ts
  let node ← expression (8 * ts.length + 8) s rest
  pure (node, s.mode.flags)

end Pattern

/-- A compiled regular expression with its source and its options, those in its text included. -/
structure Pattern where
  source : String
  flags : RegexFlags
  node : Pattern.Node

namespace Pattern

/-- Compiles a regular expression with options. -/
def compile [CharacterNames] (f : RegexFlags) (source : String) : Except Failure Pattern :=
  let failure : Fault → Failure
    | .tooLarge => .misuse .overflow
    | .incompatible => .misuse .value
    | _ => .misuse .pattern
  match tokens source.toList with
  | none => .error (.misuse .pattern)
  | some ts =>
    match readTokens f ts with
    | .ok (node, flags) => .ok ⟨source, flags, node⟩
    | .error e => .error (failure e)

end Pattern

end ShapeContract
