import ShapeContract.Pattern.Basic

/-!
# Matching

A backtracking matcher: `run` tries a part and hands every state that it can reach, in order of
preference, to what follows, until that succeeds. A repetition stops after a round that used up
nothing.
-/

set_option autoImplicit false

namespace ShapeContract.Pattern

/-- A place in the text and the groups matched so far, each with its start and end. -/
structure Place where
  pos : Nat
  groups : List (Nat × Nat × Nat)

namespace Place

def group? (s : Place) (index : Nat) : Option (Nat × Nat) :=
  (s.groups.find? fun g => g.1 = index).map (·.2)

def setGroup (s : Place) (index start stop : Nat) : Place :=
  ⟨s.pos, (index, start, stop) :: s.groups.filter fun g => g.1 ≠ index⟩

def moveTo (s : Place) (pos : Nat) : Place := ⟨pos, s.groups⟩

end Place

abbrev Continuation := Place → Option Place

def codeAt? (text : Array Char) (i : Nat) : Option Nat := text[i]?.map Char.toNat

def wordAt (text : Array Char) (ascii : Bool) (i : Nat) : Bool :=
  (codeAt? text i).any (Category.word.holds ascii)

def wordBefore (text : Array Char) (ascii : Bool) (i : Nat) : Bool :=
  i ≠ 0 && wordAt text ascii (i - 1)

/-- In an empty text there is neither a word boundary nor a place that is none. -/
def Anchor.holds (text : Array Char) (i : Nat) : Anchor → Bool
  | .textStart => i = 0
  | .textEnd => i = text.size
  | .lineStart => i = 0 || codeAt? text (i - 1) = some 10
  | .lineEnd => i = text.size || codeAt? text i = some 10
  | .lastLineEnd => i = text.size || (i + 1 = text.size && codeAt? text i = some 10)
  | .boundary ascii => text.size ≠ 0 && wordBefore text ascii i != wordAt text ascii i
  | .noBoundary ascii => text.size ≠ 0 && wordBefore text ascii i == wordAt text ascii i

/-- Whether the `n` characters from one place on are those from another. -/
def sameStretch (text : Array Char) (rule : CaseRule) (i : Nat) : Nat → Nat → Bool
  | _, 0 => true
  | j, n + 1 =>
    match codeAt? text i, codeAt? text j with
    | some a, some b => rule.fold a = rule.fold b && sameStretch text rule (i + 1) (j + 1) n
    | _, _ => false

/-- Rounds of a greedy or lazy repetition. `last` is where the latest round beyond the minimum
began. -/
def rounds (lazy : Bool) (min : Nat) (max : Option Nat) (body : Continuation → Continuation)
    (next : Continuation) : Nat → Nat → Option Nat → Continuation
  | 0, _, _, _ => none
  | budget + 1, count, last, s =>
    let more (last : Option Nat) : Continuation :=
      body (rounds lazy min max body next budget (count + 1) last)
    if count < min then more last s
    else
      let again (_ : Unit) : Option Place :=
        if max.all (count < ·) && last ≠ some s.pos then more (some s.pos) s else none
      if lazy then (next s).orElse again else (again ()).orElse fun _ => next s

/-- Rounds of a possessive repetition; each keeps its first way to match. -/
def possess (min : Nat) (max : Option Nat) (body : Continuation → Continuation) :
    Nat → Nat → Continuation
  | 0, _, s => some s
  | budget + 1, count, s =>
    if max.all (count < ·) then
      match body some s with
      | some t =>
        if t.pos = s.pos && min ≤ count + 1 then some t else possess min max body budget (count + 1) t
      | none => if count < min then none else some s
    else some s

mutual

def run (text : Array Char) : Node → Continuation → Continuation
  | .char t, k, s =>
    match codeAt? text s.pos with
    | some c => if t.holds c then k (s.moveTo (s.pos + 1)) else none
    | none => none
  | .anchor a, k, s => if a.holds text s.pos then k s else none
  | .seq parts, k, s => runAll text parts k s
  | .alt branches, k, s => runAny text branches k s
  | .capture index body, k, s =>
    run text body (fun t => k (t.setGroup index s.pos t.pos)) s
  | .backReference index rule, k, s =>
    match s.group? index with
    | none => none
    | some (start, stop) =>
      if sameStretch text rule start s.pos (stop - start) then k (s.moveTo (s.pos + (stop - start)))
      else none
  | .repeated mode min max body, k, s =>
    let budget := min + (text.size - s.pos) + 2
    match mode with
    | .greedy => rounds false min max (run text body) k budget 0 none s
    | .lazy => rounds true min max (run text body) k budget 0 none s
    | .possessive =>
      match possess min max (run text body) budget 0 s with
      | some t => k t
      | none => none
  | .atomic body, k, s =>
    match run text body some s with
    | some t => k t
    | none => none
  | .look back negative body, k, s =>
    let found := match back with
      | none => run text body some s
      | some n => if n ≤ s.pos then run text body some (s.moveTo (s.pos - n)) else none
    match found, negative with
    | some t, false => k (t.moveTo s.pos)
    | none, true => k s
    | _, _ => none
  | .whenMatched index yes no, k, s =>
    if (s.group? index).isSome then run text yes k s else run text no k s

def runAll (text : Array Char) : List Node → Continuation → Continuation
  | [], k, s => k s
  | n :: rest, k, s => run text n (fun t => runAll text rest k t) s

def runAny (text : Array Char) : List Node → Continuation → Continuation
  | [], _, _ => none
  | n :: rest, k, s => (run text n k s).orElse fun _ => runAny text rest k s

end

/-- Whether the expression matches from some place among the last `n` on. -/
def searchFrom (node : Node) (text : Array Char) : Nat → Bool
  | 0 => false
  | n + 1 => (run text node some ⟨text.size - n, []⟩).isSome || searchFrom node text n

/-- Whether the expression matches somewhere in a text. -/
def found (node : Node) (s : String) : Bool :=
  let text := s.toList.toArray
  searchFrom node text (text.size + 1)

end ShapeContract.Pattern
