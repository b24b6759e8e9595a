/-!
The shortest decimal of a binary64 number: the fewest digits that read back as the same number and,
among the decimals of that length, one nearest to it. The search runs over the grids of 1 to 17
digits in exact arithmetic on natural numbers.
-/

set_option autoImplicit false
set_option relaxedAutoImplicit false

namespace Dialogue.Decimal

/-- The positive decimal `0.d₁d₂… × 10 ^ point`; the last digit is not zero. -/
structure Digits where
  digits : List Char
  point : Int
deriving DecidableEq, Repr

/-- Which of two equally near decimals is taken. -/
inductive Tie
  | up
  | even
deriving DecidableEq, Repr

/-- The positive number `significand * 2 ^ exponent` of the binary64 format, with the fact whether
the format's numbers below it stand closer together than those above. -/
structure Magnitude where
  significand : Nat
  exponent : Int
  closerBelow : Bool
deriving DecidableEq, Repr

/-- The magnitude of a finite number, read off its bits. -/
def Magnitude.ofFloat (x : Float) : Magnitude :=
  let bits := x.toBits.toNat
  let biased : Nat := bits / Nat.pow 2 52 % Nat.pow 2 11
  let fraction : Nat := bits % Nat.pow 2 52
  if biased = 0 then ⟨fraction, -1074, false⟩
  else ⟨Nat.pow 2 52 + fraction, (biased : Int) - 1075, fraction = 0 && biased > 1⟩

/-- A power of ten as a quotient of natural numbers. -/
def powerOfTen (e : Int) : Nat × Nat :=
  if 0 ≤ e then (Nat.pow 10 e.toNat, 1) else (1, Nat.pow 10 (-e).toNat)

/-- The number and the ends of the interval of reals that round to it, over one denominator. -/
structure Interval where
  low : Nat
  value : Nat
  high : Nat
  denominator : Nat
  closed : Bool

/-- The interval of the reals that round to a magnitude; its ends belong to it when the significand
is even. -/
def Magnitude.interval (m : Magnitude) : Interval :=
  let unit := if 2 ≤ m.exponent then Nat.pow 2 (m.exponent - 2).toNat else 1
  { low := (4 * m.significand - if m.closerBelow then 1 else 2) * unit
    value := 4 * m.significand * unit
    high := (4 * m.significand + 2) * unit
    denominator := if 2 ≤ m.exponent then 1 else Nat.pow 2 (2 - m.exponent).toNat
    closed := m.significand % 2 = 0 }

def Interval.holds (i : Interval) (e : Int) (c : Nat) : Bool :=
  let (up, down) := powerOfTen e
  let point := c * up * i.denominator
  if i.closed then i.low * down ≤ point && point ≤ i.high * down
  else i.low * down < point && point < i.high * down

/-- The decimal exponent `k` with `10 ^ (k - 1) ≤ value < 10 ^ k`, if the value is at least
`10 ^ -shift`. -/
def Interval.pointFrom (i : Interval) (shift : Nat) : Int :=
  (Nat.toDigits 10 (i.value * Nat.pow 10 shift / i.denominator)).length - shift

def Interval.point (i : Interval) : Int :=
  i.pointFrom 330

/-- The multiple of `10 ^ e` nearest to the value among its two neighbours that lie in the
interval. -/
def Interval.nearest? (i : Interval) (tie : Tie) (e : Int) : Option Nat :=
  let (up, down) := powerOfTen e
  let below := i.value * down / (i.denominator * up)
  match i.holds e below, i.holds e (below + 1) with
  | false, false => none
  | true, false => some below
  | false, true => some (below + 1)
  | true, true =>
    let step := up * i.denominator
    let past := i.value * down - below * step
    match compare (2 * past) step with
    | .lt => some below
    | .gt => some (below + 1)
    | .eq => some (match tie with
      | .up => below + 1
      | .even => if below % 2 = 0 then below else below + 1)

/-- The coefficient and exponent on the coarsest grid that has a point in the interval. -/
def Interval.shortest (i : Interval) (tie : Tie) : Nat × Int :=
  let point := i.point
  let found := (List.range 17).findSome? fun (n : Nat) =>
    (i.nearest? tie (point - 1 - n)).map fun c => (c, point - 1 - (n : Int))
  found.getD (0, 0)

/-- The digits of a coefficient without trailing zeros. -/
def Digits.ofCoefficient (c : Nat) (e : Int) : Digits :=
  let digits := Nat.toDigits 10 c
  ⟨(digits.reverse.dropWhile (· = '0')).reverse, e + digits.length⟩

/-- The shortest decimal of a finite number other than zero, its sign left aside. -/
def shortest (tie : Tie) (x : Float) : Digits :=
  let found := (Magnitude.ofFloat x).interval.shortest tie
  Digits.ofCoefficient found.1 found.2

end Dialogue.Decimal
