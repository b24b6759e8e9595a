/-!
Places in script files. A place is a file and a line counted from one; the bytes of a line are found
in the text of the file, which is cut after each line feed.
-/

set_option autoImplicit false
set_option relaxedAutoImplicit false

namespace Dialogue

/-- A line of a script file; line zero is not known. -/
structure Place where
  file : String
  line : Nat
deriving DecidableEq, Repr, Inhabited

namespace Place

def isNowhere (p : Place) : Bool :=
  p.file = "" && p.line = 0

def text (p : Place) : String :=
  p.file ++ ":" ++ toString p.line

/-- The number of bytes of a text in UTF-8. -/
def byteSize (cs : List Char) : Nat :=
  cs.foldr (fun c size => c.utf8Size + size) 0

/-- The pieces of a text, cut after each line feed. -/
def pieces : List Char → List (List Char)
  | [] => []
  | c :: rest =>
    if c = '\n' then [c] :: pieces rest
    else match pieces rest with
      | [] => [[c]]
      | piece :: others => (c :: piece) :: others

/-- A piece without the line feeds and carriage returns at its end. -/
def lineText (piece : List Char) : List Char :=
  (piece.reverse.dropWhile fun c => c = '\n' || c = '\r').reverse

/-- The bytes of a line of a text, without its line break. -/
def byteBounds? (p : Place) (source : String) : Option (Nat × Nat) :=
  if p.line = 0 then none
  else
    let all := pieces source.toList
    (all[p.line - 1]?).map fun piece =>
      let offset := byteSize (all.take (p.line - 1)).flatten
      (offset, offset + byteSize (lineText piece))

/-- The text of a line of a source, without its line break. -/
def lineOf? (p : Place) (source : String) : Option String :=
  if p.line = 0 then none
  else ((pieces source.toList)[p.line - 1]?).map fun piece => String.ofList (lineText piece)

end Place

end Dialogue
