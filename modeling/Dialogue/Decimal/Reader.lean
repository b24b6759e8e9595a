/-!
Reading decimals. A decimal is a sign, digits with at most one point among or around them, and an
optional exponent; the words for infinity and for no number are read in any case. The value is the
binary64 number nearest to the decimal.
-/

set_option autoImplicit false
set_option relaxedAutoImplicit false

namespace Dialogue.Decimal

/-- The natural number that a run of digits stands for. -/
def natOfDigits (digits : List Char) : Nat :=
  digits.foldl (fun n c => 10 * n + (c.toNat - '0'.toNat)) 0

/-- The number nearest to `coefficient * 10 ^ exponent`, infinite beyond the largest finite one. -/
def toFloat (negative : Bool) (coefficient : Nat) (exponent : Int) : Float :=
  let size : Int := (Nat.toDigits 10 coefficient).length + exponent
  let magnitude : Float :=
    if coefficient = 0 || size < -400 then 0
    else if 400 < size then 1 / 0
    else Float.ofScientific coefficient (exponent < 0) exponent.natAbs
  if negative then -magnitude else magnitude

/-- The exponent after a mantissa: none, or a mark, an optional sign and digits. -/
def exponent? : List Char → Option Int
  | [] => some 0
  | mark :: rest =>
    if mark = 'e' || mark = 'E' then
      let (negative, digits) := match rest with
        | '-' :: digits => (true, digits)
        | '+' :: digits => (false, digits)
        | digits => (false, digits)
      if digits.isEmpty || !digits.all Char.isDigit then none
      else some (if negative then -(natOfDigits digits : Int) else natOfDigits digits)
    else none

/-- A decimal without its sign. -/
def unsigned? (negative : Bool) (cs : List Char) : Option Float :=
  let (whole, afterWhole) := cs.span Char.isDigit
  let (fraction, rest) := match afterWhole with
    | '.' :: afterPoint => afterPoint.span Char.isDigit
    | _ => ([], afterWhole)
  if whole.isEmpty && fraction.isEmpty then none
  else (exponent? rest).map fun e =>
    toFloat negative (natOfDigits (whole ++ fraction)) (e - fraction.length)

/-- The number that a decimal text stands for. -/
def read? (cs : List Char) : Option Float :=
  let (negative, body) := match cs with
    | '-' :: body => (true, body)
    | '+' :: body => (false, body)
    | body => (false, body)
  let word := String.ofList (body.map Char.toLower)
  if word = "nan" then some (0 / 0)
  else if word = "inf" || word = "infinity" then some (if negative then -1 / 0 else 1 / 0)
  else unsigned? negative body

/-- The finite number that a decimal text stands for. -/
def readFinite? (cs : List Char) : Option Float :=
  (read? cs).filter Float.isFinite

end Dialogue.Decimal
