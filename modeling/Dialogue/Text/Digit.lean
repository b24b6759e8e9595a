/-!
Digits of bases up to sixteen, in either case.
-/

set_option autoImplicit false
set_option relaxedAutoImplicit false

namespace Dialogue.Text

def hexValue? (c : Char) : Option Nat :=
  if c.isDigit then some (c.toNat - '0'.toNat)
  else if 'a' ≤ c && c ≤ 'f' then some (c.toNat - 'a'.toNat + 10)
  else if 'A' ≤ c && c ≤ 'F' then some (c.toNat - 'A'.toNat + 10)
  else none

def isDigitOf (base : Nat) (c : Char) : Bool :=
  ((hexValue? c).map fun digit => decide (digit < base)).getD false

/-- The natural number that a run of digits of a base stands for. -/
def natOfDigits (base : Nat) (digits : List Char) : Nat :=
  digits.foldl (fun n c => base * n + (hexValue? c).getD 0) 0

end Dialogue.Text
