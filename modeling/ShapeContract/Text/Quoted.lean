import ShapeContract.Text.Classes

/-!
# Quoted texts

Two written forms of a text. `quoted` shows it in messages: single quotes unless it holds a single
quote and no double one, characters that cannot be printed as escapes. `jsonQuoted` writes a JSON
string, with every character outside ASCII as an escape or as itself.
-/

set_option autoImplicit false

namespace ShapeContract.Text

def hexDigit (d : Nat) : Char := if d < 10 then Char.ofNat (48 + d) else Char.ofNat (87 + d)

/-- The lowest `width` hexadecimal digits of a number, in lower case. -/
def hex : Nat → Nat → List Char
  | 0, _ => []
  | width + 1, n => hex width (n / 16) ++ [hexDigit (n % 16)]

def singleQuote : Char := Char.ofNat 39

def quotedChar (quote c : Char) : List Char :=
  if c = quote ∨ c = '\\' then ['\\', c]
  else if c = '\t' then ['\\', 't']
  else if c = '\n' then ['\\', 'n']
  else if c = '\r' then ['\\', 'r']
  else if isPrintable c then [c]
  else if c.toNat < 0x100 then '\\' :: 'x' :: hex 2 c.toNat
  else if c.toNat < 0x10000 then '\\' :: 'u' :: hex 4 c.toNat
  else '\\' :: 'U' :: hex 8 c.toNat

def quoted (s : String) : String :=
  let cs := s.toList
  let quote := if cs.contains singleQuote && !cs.contains '"' then '"' else singleQuote
  String.ofList (quote :: cs.flatMap (quotedChar quote) ++ [quote])

/-- The escapes of the one or two 16-bit units of a character. -/
def unitEscapes (c : Char) : List Char :=
  let n := c.toNat
  if n < 0x10000 then '\\' :: 'u' :: hex 4 n
  else
    '\\' :: 'u' :: hex 4 (0xd800 + (n - 0x10000) / 0x400) ++
      '\\' :: 'u' :: hex 4 (0xdc00 + (n - 0x10000) % 0x400)

def jsonChar (ascii : Bool) (c : Char) : List Char :=
  if c = '"' then ['\\', '"']
  else if c = '\\' then ['\\', '\\']
  else if c = '\n' then ['\\', 'n']
  else if c = '\r' then ['\\', 'r']
  else if c = '\t' then ['\\', 't']
  else if c.toNat = 12 then ['\\', 'f']
  else if c.toNat = 8 then ['\\', 'b']
  else if c.toNat < 32 then unitEscapes c
  else if ascii && c.toNat ≥ 127 then unitEscapes c
  else [c]

/-- A JSON string; with `ascii` nothing outside ASCII stands as itself. -/
def jsonQuoted (ascii : Bool) (s : String) : String :=
  String.ofList ('"' :: s.toList.flatMap (jsonChar ascii) ++ ['"'])

end ShapeContract.Text
