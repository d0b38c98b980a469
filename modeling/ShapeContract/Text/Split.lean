/-!
# Splitting and joining texts

`pieces sep` cuts a text at every separator, so `n` separators make `n + 1` pieces, and joining the
pieces with the separator gives the text back.
-/

set_option autoImplicit false

namespace ShapeContract.Text

/-- The first piece and the pieces after it. -/
def piecesAux (sep : Char) : List Char → List Char × List (List Char)
  | [] => ([], [])
  | c :: rest =>
    let (first, more) := piecesAux sep rest
    if c = sep then ([], first :: more) else (c :: first, more)

def pieces (sep : Char) (cs : List Char) : List (List Char) :=
  let (first, more) := piecesAux sep cs
  first :: more

def glue (sep : Char) : List (List Char) → List Char
  | [] => []
  | [p] => p
  | p :: rest => p ++ sep :: glue sep rest

def split (sep : Char) (s : String) : List String := (pieces sep s.toList).map String.ofList

def join (sep : String) (parts : List String) : String := sep.intercalate parts

theorem glue_pieces (sep : Char) (cs : List Char) : glue sep (pieces sep cs) = cs := by
  induction cs with
  | nil => rfl
  | cons c rest ih =>
    simp only [pieces, piecesAux] at ih ⊢
    by_cases h : c = sep
    · simp [h, glue, ih]
    · simp only [h, if_false]
      cases hm : (piecesAux sep rest).2 with
      | nil => simpa [glue, hm] using ih
      | cons p ps => simpa [glue, hm] using ih

/-- The text before the first separator and the text after it, if there is a separator. -/
def cutFirst (sep : Char) : List Char → List Char × Option (List Char)
  | [] => ([], none)
  | c :: rest =>
    if c = sep then ([], some rest)
    else
      let (head, tail) := cutFirst sep rest
      (c :: head, tail)

end ShapeContract.Text
