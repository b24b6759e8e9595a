import Dialogue.Text.Blank

/-!
Speakers of lines. A line may begin with the name of its speaker, a colon and a blank; the name is
plain text, without markup characters.
-/

set_option autoImplicit false
set_option relaxedAutoImplicit false

namespace Dialogue.Line

/-- Whether a character belongs to markup and so to no name. -/
def isMarkup (c : Char) : Bool :=
  c = '[' || c = ']' || c = '{' || c = '}' || c = '<' || c = '>' || c = '"'

/-- The speaker of a text and what the speaker says, if the text names its speaker. -/
def speaker? (cs : List Char) : Option (List Char × List Char) :=
  let name := Text.trim (cs.takeWhile (· ≠ ':'))
  match cs.dropWhile (· ≠ ':') with
  | _ :: c :: rest =>
    if Text.isBlank c && !name.isEmpty && !name.any isMarkup then
      some (name, Text.trimStart (c :: rest))
    else none
  | _ => none

def speakerAndRest (text : String) : Option String × String :=
  match speaker? text.toList with
  | some (name, rest) => (some (String.ofList name), String.ofList rest)
  | none => (none, text)

end Dialogue.Line
