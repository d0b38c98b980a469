import ShapeContract.Text.Classes

/-!
# Regular expressions

The parts of a compiled regular expression. Options are settled in the parts: whether letter case
counts, whether a point matches a line break, whether line ends count, and whether classes are those
of ASCII only.
-/

set_option autoImplicit false

namespace ShapeContract.Pattern

inductive Category where
  | digit | space | word
deriving DecidableEq, Repr

/-- How letter case is treated: it counts, or it is ignored among ASCII or among all letters. -/
inductive CaseRule where
  | exact | asciiOnly | all
deriving DecidableEq, Repr

inductive ClassItem where
  | code (c : Nat)
  | range (low high : Nat)
  | category (c : Category) (negated : Bool)
deriving DecidableEq, Repr

inductive CharTest where
  | any (lineBreaks : Bool)
  | oneOf (negated : Bool) (items : List ClassItem) (rule : CaseRule) (ascii : Bool)
deriving DecidableEq, Repr

inductive Anchor where
  | textStart | textEnd | lineStart | lineEnd | lastLineEnd
  | boundary (ascii : Bool)
  | noBoundary (ascii : Bool)
deriving DecidableEq, Repr

inductive RepeatMode where
  | greedy | lazy | possessive
deriving DecidableEq, Repr

inductive Node where
  | char (t : CharTest)
  | anchor (a : Anchor)
  | seq (parts : List Node)
  | alt (branches : List Node)
  | capture (index : Nat) (body : Node)
  | backReference (index : Nat) (rule : CaseRule)
  | repeated (mode : RepeatMode) (min : Nat) (max : Option Nat) (body : Node)
  | atomic (body : Node)
  /-- What follows, or with `back` the given number of characters before, matches or not. -/
  | look (back : Option Nat) (negative : Bool) (body : Node)
  /-- One of two parts, as the group has matched or not. -/
  | whenMatched (index : Nat) (yes no : Node)

def isAsciiLetter (c : Nat) : Bool := (65 ≤ c && c ≤ 90) || (97 ≤ c && c ≤ 122)

def lowerAsciiCode (c : Nat) : Nat := if 65 ≤ c ∧ c ≤ 90 then c + 32 else c

def Category.holds (ascii : Bool) (k : Category) (c : Nat) : Bool :=
  let ch := Char.ofNat c
  match k, ascii with
  | .digit, true => 48 ≤ c && c ≤ 57
  | .space, true => c = 32 || (9 ≤ c && c ≤ 13)
  | .word, true => isAsciiLetter c || (48 ≤ c && c ≤ 57) || c = 95
  | .digit, false => Text.isDecimal ch
  | .space, false => Text.isBlank ch
  | .word, false => Text.isWord ch

/-- Whether a property given by its places of change holds somewhere in a range. -/
def holdsWithin (changes : Array Nat) (low high : Nat) : Bool :=
  let n := changes.size
  let upTo (x : Nat) : Nat := Text.countUpTo changes x (n.log2 + 2) 0 n
  upTo low % 2 = 1 || upTo high > upTo low

def ClassItem.cased (rule : CaseRule) : ClassItem → Bool
  | .code c => match rule with
    | .exact => false
    | .asciiOnly => isAsciiLetter c
    | .all => Text.isCased c
  | .range low high => match rule with
    | .exact => false
    | .asciiOnly => (low ≤ 90 && 65 ≤ high) || (low ≤ 122 && 97 ≤ high)
    | .all => holdsWithin Text.casedChanges low high
  | .category _ _ => false

/-- The code under which a character is looked up when case is treated by the rule. -/
def CaseRule.fold : CaseRule → Nat → Nat
  | .exact, c => c
  | .asciiOnly, c => lowerAsciiCode c
  | .all, c => Text.lowerCode c

/-- The folded codes that count as the same letter. -/
def CaseRule.partners (rule : CaseRule) (c : Nat) : List Nat :=
  match rule with
  | .all => c :: Text.siblings c
  | _ => [c]

/-- The codes that fold to a given one. -/
def CaseRule.sources : CaseRule → Nat → List Nat
  | .exact, c => [c]
  | .asciiOnly, c => if 97 ≤ c ∧ c ≤ 122 then [c, c - 32] else if 65 ≤ c ∧ c ≤ 90 then [] else [c]
  | .all, c => Text.lowerSources c

/-- Whether an item holds the folded code `c`. -/
def ClassItem.holds (rule : CaseRule) (ascii : Bool) (c : Nat) : ClassItem → Bool
  | .code d => (rule.partners (rule.fold d)).contains c
  | .range low high =>
    (rule.partners c).any fun d => (rule.sources d).any fun x => low ≤ x && x ≤ high
  | .category k negated => k.holds ascii c != negated

/-- Whether a character passes a test; case is ignored only if the class has a cased character. -/
def CharTest.holds (t : CharTest) (c : Nat) : Bool :=
  match t with
  | .any lineBreaks => lineBreaks || c ≠ 10
  | .oneOf negated items rule ascii =>
    let rule := if items.any (ClassItem.cased rule) then rule else .exact
    (items.any (ClassItem.holds rule ascii (rule.fold c))) != negated

end ShapeContract.Pattern
