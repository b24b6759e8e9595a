/-!
Parsers of characters. A parser takes characters from the front of the input and returns a value,
or fails and takes nothing.
-/

set_option autoImplicit false
set_option relaxedAutoImplicit false

namespace Dialogue.Toml

/-- Takes a value from the front of a list of characters. -/
abbrev Parser := StateT (List Char) Option

namespace Parser

/-- The next character, which stays in the input. -/
def peek : Parser (Option Char) :=
  fun input => some (input.head?, input)

def satisfy (accepts : Char → Bool) : Parser Char
  | c :: rest => if accepts c then some (c, rest) else none
  | [] => none

def char (c : Char) : Parser Unit := do
  let _ ← satisfy (· == c)

def word : List Char → Parser Unit
  | [] => pure ()
  | c :: rest => do
    char c
    word rest

/-- The longest run of characters of a class. -/
def run (accepts : Char → Bool) : Parser (List Char) :=
  fun input => some (input.span accepts)

/-- As many values as there are; each takes at least one character. -/
def many {α : Type} (item : Parser α) (input : List Char) : Option (List α × List Char) :=
  match item input with
  | none => some ([], input)
  | some (a, rest) =>
    if rest.length < input.length then
      (many item rest).map fun (more, rest) => (a :: more, rest)
    else some ([], input)
termination_by input.length

def option {α : Type} (item : Parser α) : Parser (Option α) :=
  (some <$> item) <|> pure none

/-- Exactly so many characters of a class. -/
def exactly (accepts : Char → Bool) : Nat → Parser (List Char)
  | 0 => pure []
  | n + 1 => do
    let c ← satisfy accepts
    let more ← exactly accepts n
    return c :: more

def finished : Parser Unit
  | [] => some ((), [])
  | _ :: _ => none

end Parser

end Dialogue.Toml
