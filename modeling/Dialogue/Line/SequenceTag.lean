import Dialogue.Text.Blank

/-!
The sequence tag of a line. A line may end with a tag `[seq=…/]` or `[seq="…"/]` that gives the
sequence to play; a backslash before the tag makes it plain text.
-/

set_option autoImplicit false
set_option relaxedAutoImplicit false

namespace Dialogue.Line

def tagOpening : List Char := "[seq=".toList

def tagClosing : List Char := "/]".toList

/-- The text before the last opening of a tag and the text after it. -/
def lastOpening? : List Char → Option (List Char × List Char)
  | [] => none
  | c :: rest =>
    match lastOpening? rest with
    | some (before, after) => some (c :: before, after)
    | none => (tagOpening.isPrefixOf? (c :: rest)).map fun after => ([], after)

/-- The content of a tag: between quotes, or without blanks. -/
def tagValue? : List Char → Option (List Char)
  | '"' :: quoted => Text.dropSuffix? ['"'] quoted
  | bare => if bare.any Text.isBlank then none else some bare

/-- The sequence that the tag at the end of a text asks for. -/
def sequenceTag? (text : String) : Option String := do
  let body ← Text.dropSuffix? tagClosing (Text.trimEnd text.toList)
  let (before, after) ← lastOpening? (Text.trimEnd body)
  if before.getLast? = some '\\' then none
  else
    let value ← tagValue? after
    if value.isEmpty then none else some (String.ofList value)

end Dialogue.Line
