import Dialogue.Decimal.Shortest

/-!
Written forms of a binary64 number. All of them show the shortest decimal; a `Layout` says where the
point goes and how an exponent is written.
-/

set_option autoImplicit false
set_option relaxedAutoImplicit false

namespace Dialogue.Decimal

/-- How a shortest decimal is laid out. -/
structure Layout where
  /-- Whether a number whose first digit stands for `10 ^ e` is written without an exponent. -/
  positional : Int → Bool
  /-- What follows a whole number written without an exponent. -/
  wholeMark : List Char
  /-- What precedes an exponent that is not negative. -/
  plusSign : List Char
  /-- Which of two equally near shortest decimals is shown. -/
  tie : Tie

/-- Digits with the point among them, and zeros where the point lies outside. -/
def Digits.positional (d : Digits) (wholeMark : List Char) : List Char :=
  if d.point ≤ 0 then
    '0' :: '.' :: (List.replicate (-d.point).toNat '0' ++ d.digits)
  else if d.digits.length ≤ d.point.toNat then
    d.digits ++ List.replicate (d.point.toNat - d.digits.length) '0' ++ wholeMark
  else
    d.digits.take d.point.toNat ++ '.' :: d.digits.drop d.point.toNat

/-- The first digit, the others after a point, and a power of ten. -/
def Digits.scientific (d : Digits) (plusSign : List Char) : List Char :=
  let e := d.point - 1
  let fraction := if d.digits.length ≤ 1 then [] else '.' :: d.digits.drop 1
  let sign := if e < 0 then ['-'] else plusSign
  d.digits.take 1 ++ fraction ++ 'e' :: (sign ++ Nat.toDigits 10 e.natAbs)

/-- The written magnitude of a finite number. -/
def Layout.magnitude (layout : Layout) (x : Float) : List Char :=
  if x == 0 then '0' :: layout.wholeMark
  else
    let d := shortest layout.tie x
    if layout.positional (d.point - 1) then d.positional layout.wholeMark
    else d.scientific layout.plusSign

/-- Whether the sign bit of a number is set. -/
def isNegative (x : Float) : Bool :=
  x.toBits ≥ 0x8000000000000000

/-- The written form of a number; negative zero keeps its sign. -/
def Layout.write (layout : Layout) (x : Float) : List Char :=
  if x.isNaN then ['N', 'a', 'N']
  else
    let body := if x.isInf then ['i', 'n', 'f'] else layout.magnitude x
    if isNegative x then '-' :: body else body

/-- Numbers written out in full, whole ones without a point. -/
def plain : Layout := ⟨fun _ => true, [], [], .up⟩

/-- The written form of a number without an exponent. -/
def text (x : Float) : String :=
  String.ofList (plain.write x)

end Dialogue.Decimal
