import Dialogue.Decimal.Layout
import Dialogue.Json.Basic

/-!
JSON text. `compress` writes a value on one line without blanks, `pretty` with two spaces of indent
for each level. Only quotes, backslashes and control characters are escaped.
-/

set_option autoImplicit false
set_option relaxedAutoImplicit false

namespace Dialogue.Json

/-- Numbers keep a point, have no exponent from `1e-5` on and below `1e16`, and elsewhere an
exponent with its sign. -/
def numberLayout : Decimal.Layout :=
  { positional := fun e => -5 ≤ e && e < 16
    wholeMark := ['.', '0']
    plusSign := ['+']
    tie := .even }

def Number.text : Number → String
  | .int n => toString n
  | .real x _ => String.ofList (numberLayout.write x)

/-- A lower-case hexadecimal digit. -/
def hexDigit (n : Nat) : Char :=
  if n < 10 then Char.ofNat ('0'.toNat + n) else Char.ofNat ('a'.toNat + (n - 10))

/-- How a character is written inside quotes. -/
def escape (c : Char) : List Char :=
  match c with
  | '"' => ['\\', '"']
  | '\\' => ['\\', '\\']
  | '\n' => ['\\', 'n']
  | '\r' => ['\\', 'r']
  | '\t' => ['\\', 't']
  | '\x08' => ['\\', 'b']
  | '\x0c' => ['\\', 'f']
  | c =>
    if c.toNat < 0x20 then ['\\', 'u', '0', '0', hexDigit (c.toNat / 16), hexDigit (c.toNat % 16)]
    else [c]

def quote (s : String) : String :=
  String.ofList ('"' :: (s.toList.flatMap escape ++ ['"']))

/-- The number of spaces that indent a nesting level. -/
def indentation (level : Nat) : String :=
  String.ofList (List.replicate (2 * level) ' ')

mutual

/-- The value on one line, without blanks. -/
def compress : Json → String
  | .null | .unreadable => "null"
  | .bool true => "true"
  | .bool false => "false"
  | .num n => n.text
  | .str s => quote s
  | .arr items => "[" ++ String.intercalate "," (compressItems items) ++ "]"
  | .obj members => "\x7b" ++ String.intercalate "," (compressMembers members) ++ "\x7d"

def compressItems : List Json → List String
  | [] => []
  | item :: rest => compress item :: compressItems rest

/-- Each member of an object on one line. -/
def compressMembers : List (String × Json) → List String
  | [] => []
  | (name, value) :: rest => (quote name ++ ":" ++ compress value) :: compressMembers rest

end

/-- Items between brackets, one a line, indented by one level more than the brackets. -/
def block (opening closing : String) (level : Nat) (items : List String) : String :=
  if items.isEmpty then opening ++ closing
  else
    let inner := "\n" ++ indentation (level + 1)
    opening ++ inner ++ String.intercalate ("," ++ inner) items ++ "\n" ++
      indentation level ++ closing

mutual

/-- The value over several lines, at a nesting level. -/
def prettyAt (level : Nat) : Json → String
  | .arr items => block "[" "]" level (prettyItems (level + 1) items)
  | .obj members => block "\x7b" "\x7d" level (prettyMembers (level + 1) members)
  | .null | .unreadable => "null"
  | .bool true => "true"
  | .bool false => "false"
  | .num n => n.text
  | .str s => quote s

/-- Each value of a list at a nesting level. -/
def prettyItems (level : Nat) : List Json → List String
  | [] => []
  | item :: rest => prettyAt level item :: prettyItems level rest

/-- Each member of an object at a nesting level. -/
def prettyMembers (level : Nat) : List (String × Json) → List String
  | [] => []
  | (name, value) :: rest =>
    (quote name ++ ": " ++ prettyAt level value) :: prettyMembers level rest

end

def pretty (value : Json) : String :=
  prettyAt 0 value

end Dialogue.Json
