import Dialogue.Text.Hidden

/-!
Texts between quotes, in which every character can be seen. Characters that are not shown as they
are stand as their code points.
-/

set_option autoImplicit false
set_option relaxedAutoImplicit false

namespace Dialogue.Text

/-- How a character is written between quotes. -/
def visible (c : Char) : List Char :=
  match c with
  | '"' => ['\\', '"']
  | '\\' => ['\\', '\\']
  | '\n' => ['\\', 'n']
  | '\r' => ['\\', 'r']
  | '\t' => ['\\', 't']
  | '\x00' => ['\\', '0']
  | c => if isHidden c then ['\\', 'u', '\x7b'] ++ Nat.toDigits 16 c.toNat ++ ['\x7d'] else [c]

def quote (s : String) : String :=
  String.ofList ('"' :: (s.toList.flatMap visible ++ ['"']))

end Dialogue.Text
