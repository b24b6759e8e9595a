import Dialogue.Text.Blank

/-!
Words of a command. Blanks part words; a segment between double quotes ends its word, which may then
be empty or hold blanks. Inside quotes a backslash protects a quote or a backslash after it. The end
of the text closes an open quote.
-/

set_option autoImplicit false
set_option relaxedAutoImplicit false

namespace Dialogue.Command

mutual

/-- The words of a text outside quotes, given the word begun so far, last character first. -/
def wordsFrom (begun : List Char) : List Char → List (List Char)
  | [] => if begun.isEmpty then [] else [begun.reverse]
  | c :: rest =>
    if Text.isBlank c then
      if begun.isEmpty then wordsFrom [] rest else begun.reverse :: wordsFrom [] rest
    else if c = '"' then quotedFrom begun rest
    else wordsFrom (c :: begun) rest

/-- The words of a text inside quotes, given the word begun so far, last character first. -/
def quotedFrom (begun : List Char) : List Char → List (List Char)
  | [] => [begun.reverse]
  | '\\' :: '\\' :: rest => quotedFrom ('\\' :: begun) rest
  | '\\' :: '"' :: rest => quotedFrom ('"' :: begun) rest
  | '"' :: rest => begun.reverse :: wordsFrom [] rest
  | c :: rest => quotedFrom (c :: begun) rest

end

def words (text : String) : List String :=
  (wordsFrom [] text.toList).map String.ofList

end Dialogue.Command
