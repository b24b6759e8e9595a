import Dialogue.Toml.Scalar

/-!
Reading a document: lines of keys and values, and headers that say in which table the lines after
them stand.
-/

set_option autoImplicit false
set_option relaxedAutoImplicit false

namespace Dialogue.Toml

open Dialogue.Toml.Parser

/-- A comment, up to the end of its line. -/
def comment : Parser Unit := do
  char '#'
  let _ ← run isPlain

/-- Blanks, line ends and comments between the items of an array. -/
def gap : Parser Unit := do
  let _ ← many ((do let _ ← satisfy isSpace) <|> newline <|> comment)

/-- An array of items, the last of which a comma may follow. -/
def array (item : Parser Value) : Parser (List Value) := do
  char '['
  gap
  let items ← (do
      let first ← item
      let more ← many (gap *> char ',' *> gap *> item)
      return first :: more) <|> pure []
  gap
  if items.isEmpty then pure () else
    let _ ← option (char ',')
    gap
  char ']'
  return items

def assignment (value : Parser Value) : Parser (List String × String × Value) := do
  let (path, last) ← key
  char '='
  spaces
  return (path, last, ← value)

/-- A table in braces, on one line. -/
def record (value : Parser Value) : Parser Members := do
  char '{'
  let entries ← (do
      let first ← assignment value
      let more ← many (spaces *> char ',' *> assignment value)
      return first :: more) <|> pure []
  spaces
  char '}'
  StateT.lift (entries.foldlM
    (fun members (path, last, value) => Members.set? path last value .header members) [])

/-- A value with at most so many levels of brackets and braces. -/
def value : Nat → Parser Value
  | 0 => scalar
  | depth + 1 => do
    match ← peek with
    | some '[' => .array <$> array (value depth)
    | some '{' => .record <$> record (value depth)
    | _ => scalar

/-- A document under way: the path of the open table, and what there is so far. -/
structure Document where
  home : List String
  top : Members

/-- Opens the table of a header. -/
def Document.enter? (doc : Document) (path : List String) (last : String)
    (openAt : String → Members → Option Members) : Option Document :=
  (Members.changeAt false (fun _ => openAt last) path .header doc.top).map fun top =>
    ⟨path ++ [last], top⟩

/-- Sets a key in the open table. -/
def Document.set? (doc : Document) (path : List String) (last : String) (value : Value) :
    Option Document :=
  (Members.changeAt false (Members.set? path last value) doc.home .header doc.top).map fun top =>
    { doc with top }

def lineEnd : Parser Unit := do
  spaces
  let _ ← option comment
  newline <|> finished

/-- The header of a table, or of one more table of a list. -/
def header (doc : Document) : Parser Document :=
  (do word ['[', '[']
      let (path, last) ← key
      word [']', ']']
      StateT.lift (doc.enter? path last Members.openElement?)) <|>
  (do char '['
      let (path, last) ← key
      char ']'
      StateT.lift (doc.enter? path last Members.openTable?))

/-- What stands on one line: nothing, a header, or a key and its value. -/
def line (doc : Document) : Parser Document := do
  spaces
  let doc ← match ← peek with
    | none | some '#' | some '\n' | some '\r' => pure doc
    | some '[' => header doc
    | _ => do
      let (path, last, value) ← assignment (value (nestingLimit - 1))
      StateT.lift (doc.set? path last value)
  lineEnd
  return doc

def lines (doc : Document) (input : List Char) : Option Members :=
  if input.isEmpty then some doc.top
  else match line doc input with
    | none => none
    | some (doc, rest) => if rest.length < input.length then lines doc rest else none
termination_by input.length

/-- The members of the document that a text holds, with or without a byte order mark. -/
def parse? (text : String) : Option Members :=
  match text.toList with
  | '\uFEFF' :: rest => lines ⟨[], []⟩ rest
  | input => lines ⟨[], []⟩ input

end Dialogue.Toml
