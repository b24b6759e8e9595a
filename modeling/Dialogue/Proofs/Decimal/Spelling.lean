import Dialogue.Decimal.Reader
import Dialogue.Proofs.Decimal.Magnitude
import Mathlib.Data.Nat.Cast.Order.Field

/-!
What a finite number is written as. `exists_numeral` says that its absolute value is written as
digits, with more digits after a point if there are any, and that this decimal is rounded to the
number. Seventeen digits always suffice for that, so the search for the shortest decimal succeeds.
-/

set_option autoImplicit false
set_option relaxedAutoImplicit false

namespace Dialogue.Decimal

private theorem Interval.holds_of_nearest? {i : Interval} {tie : Tie} {e : Int} {c : Nat}
    (h : i.nearest? tie e = some c) : i.holds e c = true := by
  revert h
  fun_cases Interval.nearest? i tie e with
  | case1 => nofun
  | case2 up down powers below next here | case4 up down powers below next here =>
    intro h
    exact Option.some.inj h ▸ here
  | case3 up down powers below next here | case5 up down powers below next here =>
    intro h
    exact Option.some.inj h ▸ next
  | case6 up down powers below next here =>
    intro h
    rw [← Option.some.inj h]
    cases tie with
    | up => exact next
    | even =>
      dsimp only
      split
      · exact here
      · exact next

private theorem Interval.nearest?_isSome {i : Interval} {e : Int} (tie : Tie)
    (h : ∀ below, i.value * (powerOfTen e).2 / (i.denominator * (powerOfTen e).1) = below →
      i.holds e below = true ∨ i.holds e (below + 1) = true) :
    (i.nearest? tie e).isSome = true := by
  fun_cases Interval.nearest? i tie e with
  | case1 up down powers below next here =>
    rw [powers] at h
    rcases h below rfl with holds | holds
    · rw [here] at holds
      cases holds
    · rw [next] at holds
      cases holds
  | case2 | case3 | case4 | case5 | case6 => rfl

private theorem Interval.holds_shortest {i : Interval} {tie : Tie} {n : Nat} (lt : n < 17)
    (h : (i.nearest? tie (i.point - 1 - n)).isSome = true) :
    i.holds (i.shortest tie).2 (i.shortest tie).1 = true := by
  dsimp only [Interval.shortest]
  generalize i.point = p at *
  cases found : (List.range 17).findSome? fun (n : Nat) =>
      (i.nearest? tie (p - 1 - n)).map fun c => (c, p - 1 - (n : Int)) with
  | none =>
    have none :=
      Option.map_eq_none_iff.1 (List.findSome?_eq_none_iff.1 found n (List.mem_range.2 lt))
    rw [none] at h
    cases h
  | some result =>
    obtain ⟨k, -, hit⟩ := List.exists_of_findSome?_eq_some found
    obtain ⟨c, nearest, rfl⟩ := Option.map_eq_some_iff.1 hit
    exact Interval.holds_of_nearest? nearest

namespace Magnitude

private theorem value_ge {m : Magnitude} (cm : m.Canonical) (pos : 0 < m.significand) :
    (2 : ℚ) ^ (-1074 : Int) ≤ m.value := by
  have one : (1 : ℚ) ≤ m.significand := by exact_mod_cast pos
  calc (2 : ℚ) ^ (-1074 : Int) ≤ 2 ^ m.exponent := zpow_le_zpow_right₀ one_le_two cm.exponent_ge
    _ ≤ m.value := le_mul_of_one_le_left (by positivity) one

private theorem pow_length_toDigits_le {n : Nat} (pos : 0 < n) :
    10 ^ ((Nat.toDigits 10 n).length - 1) ≤ n := by
  by_cases one : (Nat.toDigits 10 n).length - 1 = 0
  · rw [one]
    exact pos
  · by_contra lt
    have le := (Nat.length_toDigits_le_iff (by decide) (Nat.pos_of_ne_zero one)).2 (not_le.1 lt)
    omega

private theorem one_le_value_mul {m : Magnitude} (cm : m.Canonical) (pos : 0 < m.significand) :
    1 ≤ m.value * 10 ^ 330 := by
  have powers : (2 : ℚ) ^ 1074 ≤ 10 ^ 330 := by
    calc (2 : ℚ) ^ 1074 ≤ 2 ^ (33 * 33) := pow_le_pow_right₀ one_le_two (by norm_num)
      _ = (2 ^ 33) ^ 33 := pow_mul ..
      _ ≤ (10 ^ 10) ^ 33 := pow_le_pow_left₀ (by positivity) (by norm_num) 33
      _ = 10 ^ 330 := (pow_mul ..).symm
  calc (1 : ℚ) = 2 ^ (-1074 : Int) * 2 ^ 1074 := by
        rw [zpow_neg, ← zpow_natCast]
        exact (inv_mul_cancel₀ (by positivity)).symm
    _ ≤ m.value * 10 ^ 330 := mul_le_mul (value_ge cm pos) powers (by positivity)
        ((by positivity : (0 : ℚ) ≤ 2 ^ (-1074 : Int)).trans (value_ge cm pos))

/-- The first digit of a quotient does not stand for more than the quotient. -/
theorem pow_pointFrom_le {m : Magnitude} (shift : Nat) (large : 1 ≤ m.value * 10 ^ shift) :
    (10 : ℚ) ^ (m.interval.pointFrom shift - 1) ≤ m.value := by
  have pos := m.denominator_pos
  have positive : (0 : ℚ) < m.interval.denominator := by exact_mod_cast pos
  have ratio : (m.interval.value : ℚ) = m.value * m.interval.denominator := by
    rw [← value_div_denominator, div_mul_cancel₀ _ positive.ne']
  rw [Interval.pointFrom, Nat.pow_eq]
  generalize m.interval.value = value, m.interval.denominator = denominator at *
  have enough : denominator ≤ value * 10 ^ shift := by
    have : (denominator : ℚ) ≤ value * 10 ^ shift := by
      rw [ratio, mul_right_comm]
      exact le_mul_of_one_le_left positive.le large
    exact_mod_cast this
  have digits := pow_length_toDigits_le (Nat.div_pos enough pos)
  have length : 0 < (Nat.toDigits 10 (value * 10 ^ shift / denominator)).length :=
    Nat.length_toDigits_pos
  generalize (Nat.toDigits 10 (value * 10 ^ shift / denominator)).length = n at *
  have cleared : (10 : ℚ) ^ (n - 1) * denominator ≤ value * 10 ^ shift := by
    exact_mod_cast (Nat.le_div_iff_mul_le pos).1 digits
  rw [ratio, mul_right_comm] at cleared
  have exponent : (n : Int) - shift - 1 = (n - 1 : Nat) - (shift : Nat) := by omega
  rw [exponent, zpow_sub₀ (by norm_num), zpow_natCast, zpow_natCast, div_le_iff₀ (by positivity)]
  exact le_of_mul_le_mul_right cleared positive

private theorem pow_point_le {m : Magnitude} (cm : m.Canonical) (pos : 0 < m.significand) :
    (10 : ℚ) ^ (m.interval.point - 1) ≤ m.value :=
  pow_pointFrom_le 330 (one_le_value_mul cm pos)

/-- The multiples of a power of ten next to a number. -/
theorem floor_le {m : Magnitude} (e : Int) {below : Nat}
    (h : m.interval.value * (powerOfTen e).2 /
      (m.interval.denominator * (powerOfTen e).1) = below) :
    below * 10 ^ e ≤ m.value ∧ m.value < (below + 1 : Nat) * 10 ^ e := by
  obtain ⟨eq, down⟩ := powerOfTen_eq e
  have up : 0 < (powerOfTen e).1 := by
    have : (0 : ℚ) < (powerOfTen e).1 := by
      rw [eq]
      have : (0 : ℚ) < (powerOfTen e).2 := by exact_mod_cast down
      positivity
    exact_mod_cast this
  have step : 0 < m.interval.denominator * (powerOfTen e).1 := Nat.mul_pos m.denominator_pos up
  rw [← value_div_denominator]
  constructor
  · apply (Interval.point_le_iff m.denominator_pos e m.interval.value below).1
    rw [Nat.mul_assoc, Nat.mul_comm (powerOfTen e).1, ← h]
    exact Nat.div_mul_le_self ..
  · apply lt_of_not_ge
    intro le
    have le := (Interval.point_le_iff m.denominator_pos e m.interval.value (below + 1)).2 le
    rw [Nat.mul_assoc, Nat.mul_comm (powerOfTen e).1] at le
    have := (Nat.le_div_iff_mul_le step).2 le
    omega

/-- On the grid of seventeen digits, one of the two points next to a number lies in its interval. -/
theorem holds_seventeen {m : Magnitude} (cm : m.Canonical) (pos : 0 < m.significand) {below : Nat}
    (low : below * 10 ^ (m.interval.point - 17) ≤ m.value)
    (high : m.value < (below + 1 : Nat) * 10 ^ (m.interval.point - 17)) :
    m.interval.holds (m.interval.point - 17) below = true ∨
      m.interval.holds (m.interval.point - 17) (below + 1) = true := by
  have above := m.above_pos
  have grid : (10 : ℚ) ^ (m.interval.point - 17) * 10 ^ 16 ≤ m.value := by
    have := pow_point_le cm pos
    rwa [show m.interval.point - 1 = m.interval.point - 17 + (16 : Nat) by omega,
      zpow_add₀ (by norm_num), zpow_natCast] at this
  rw [holds_iff pos, holds_iff pos]
  push_cast at high ⊢
  generalize (10 : ℚ) ^ (m.interval.point - 17) = g at *
  rw [add_mul, one_mul] at high ⊢
  generalize (below : ℚ) * g = q at *
  have value : m.value = m.significand * m.above := rfl
  by_cases closer : m.closerBelow = true
  · right
    have exact : (m.significand : ℚ) = 2 ^ 52 := by
      exact_mod_cast (cm.closerBelow_iff.1 closer).1
    rw [exact] at value
    have below := m.below_pos
    apply Within.of_lt <;> linarith
  · -- It is finer than the distance to each neighbour, so one point is less than half of it away.
    have less : (m.significand : ℚ) < 2 ^ 53 := by exact_mod_cast cm.significand_lt
    have bound : m.value < 2 ^ 53 * m.above := by
      rw [value]
      exact mul_lt_mul_of_pos_right less above
    have below : m.below = m.above := if_neg closer
    rw [below]
    by_cases near : m.value - q < m.above / 2
    · left
      apply Within.of_lt <;> linarith
    · right
      apply Within.of_lt <;> linarith

private theorem holds_shortest {m : Magnitude} (cm : m.Canonical)
    (pos : 0 < m.significand) (tie : Tie) :
    m.interval.holds (m.interval.shortest tie).2 (m.interval.shortest tie).1 = true := by
  apply Interval.holds_shortest (n := 16) (by decide)
  have last : m.interval.point - 1 - (16 : Nat) = m.interval.point - 17 := by omega
  rw [last]
  apply Interval.nearest?_isSome
  intro below h
  obtain ⟨low, high⟩ := floor_le _ h
  exact holds_seventeen cm pos low high

private theorem coefficient_pos {m : Magnitude} (pos : 0 < m.significand) {e : Int} {c : Nat}
    (h : m.interval.holds e c = true) : 0 < c := by
  have low := ((holds_iff pos e c).1 h).le.1
  have one : (1 : ℚ) ≤ m.significand := by exact_mod_cast pos
  have above := m.above_pos
  have below : m.below ≤ m.above := m.below_le_above
  have value : m.above ≤ m.value := le_mul_of_one_le_left above.le one
  apply Nat.pos_of_ne_zero
  rintro rfl
  rw [Nat.cast_zero, zero_mul] at low
  linarith

end Magnitude

private theorem natOfDigits_append (xs ys : List Char) :
    natOfDigits (xs ++ ys) = natOfDigits xs * 10 ^ ys.length + natOfDigits ys := by
  change Nat.ofDigitChars 10 (xs ++ ys) 0 = Nat.ofDigitChars 10 xs 0 * _ + Nat.ofDigitChars 10 ys 0
  rw [Nat.ofDigitChars_append, Nat.ofDigitChars_eq_ofDigitChars_zero, Nat.mul_comm]

private theorem natOfDigits_replicate_zero (n : Nat) : natOfDigits (List.replicate n '0') = 0 :=
  (Nat.ofDigitChars_replicate_zero (b := 10)).trans (Nat.mul_zero _)

private theorem natOfDigits_toDigits (n : Nat) : natOfDigits (Nat.toDigits 10 n) = n :=
  Nat.ofDigitChars_ten_toDigits

def Digits.value (d : Digits) : ℚ :=
  natOfDigits d.digits * 10 ^ (d.point - d.digits.length)

/-- Digits that can be written: there is one, and all are decimal. -/
structure Digits.Proper (d : Digits) : Prop where
  ne_nil : d.digits ≠ []
  isDigit : ∀ c ∈ d.digits, c.isDigit = true

private theorem Digits.exists_zeros (c : Nat) (e : Int) :
    ∃ n, Nat.toDigits 10 c = (ofCoefficient c e).digits ++ List.replicate n '0' ∧
      (ofCoefficient c e).point = e + ((ofCoefficient c e).digits.length + n) := by
  have zeros : ∀ d ∈ ((Nat.toDigits 10 c).reverse.takeWhile (· = '0')).reverse, d = '0' := by
    intro d mem
    exact of_decide_eq_true (List.all_eq_true.1 List.all_takeWhile d (List.mem_reverse.1 mem))
  have split : Nat.toDigits 10 c = (ofCoefficient c e).digits ++
      ((Nat.toDigits 10 c).reverse.takeWhile (· = '0')).reverse := by
    change _ = ((Nat.toDigits 10 c).reverse.dropWhile (· = '0')).reverse ++ _
    rw [← List.reverse_append, List.takeWhile_append_dropWhile, List.reverse_reverse]
  rw [List.eq_replicate_of_mem zeros] at split
  have length := congrArg List.length split
  rw [List.length_append, List.length_replicate] at length
  have point : (ofCoefficient c e).point = e + ((Nat.toDigits 10 c).length : Nat) := rfl
  exact ⟨_, split, by rw [point, length]; push_cast; rfl⟩

private theorem Digits.proper_ofCoefficient {c : Nat} (pos : 0 < c) (e : Int) :
    (ofCoefficient c e).Proper := by
  obtain ⟨n, split, -⟩ := exists_zeros c e
  constructor
  · intro none
    have value := natOfDigits_toDigits c
    rw [split, none, List.nil_append, natOfDigits_replicate_zero] at value
    omega
  · intro d mem
    apply Nat.isDigit_of_mem_toDigits (b := 10) (n := c) (by decide) (by decide)
    rw [split]
    exact List.mem_append_left _ mem

private theorem Digits.value_ofCoefficient (c : Nat) (e : Int) :
    (ofCoefficient c e).value = c * 10 ^ e := by
  obtain ⟨n, split, point⟩ := exists_zeros c e
  have value : ((ofCoefficient c e).digits ++ List.replicate n '0' |> natOfDigits) = c := by
    rw [← split, natOfDigits_toDigits]
  rw [natOfDigits_append, natOfDigits_replicate_zero, List.length_replicate, Nat.add_zero] at value
  have value : (natOfDigits (ofCoefficient c e).digits : ℚ) * 10 ^ n = c := by exact_mod_cast value
  have exponent : (ofCoefficient c e).point - (ofCoefficient c e).digits.length = n + e := by omega
  rw [Digits.value, exponent, zpow_add₀ (by norm_num), zpow_natCast, ← mul_assoc, value]

/-- A decimal without an exponent: digits, and digits after a point if there are any. -/
structure Numeral where
  whole : List Char
  fraction : List Char
  whole_ne_nil : whole ≠ []
  whole_isDigit : ∀ c ∈ whole, c.isDigit = true
  fraction_isDigit : ∀ c ∈ fraction, c.isDigit = true

namespace Numeral

def chars (n : Numeral) : List Char :=
  n.whole ++ if n.fraction = [] then [] else '.' :: n.fraction

def coefficient (n : Numeral) : Nat :=
  natOfDigits (n.whole ++ n.fraction)

def value (n : Numeral) : ℚ :=
  n.coefficient * 10 ^ (-(n.fraction.length : Int))

end Numeral

private theorem isDigit_of_mem_zeros {n : Nat} {c : Char} (h : c ∈ List.replicate n '0') :
    c.isDigit = true := by
  rw [List.eq_of_mem_replicate h]
  decide

private theorem Digits.Proper.exists_numeral {d : Digits} (proper : d.Proper) :
    ∃ n : Numeral, d.positional [] = n.chars ∧ n.value = d.value := by
  obtain ⟨ne_nil, isDigit⟩ := proper
  have length : 0 < d.digits.length := List.length_pos_iff.2 ne_nil
  fun_cases Digits.positional d [] with
  | case1 small =>
    refine ⟨⟨['0'], List.replicate (-d.point).toNat '0' ++ d.digits, nofun, ?_, ?_⟩, ?_, ?_⟩
    · intro c mem
      rw [List.mem_singleton.1 mem]
      decide
    · intro c mem
      rcases List.mem_append.1 mem with mem | mem
      · exact isDigit_of_mem_zeros mem
      · exact isDigit c mem
    · simp [Numeral.chars, ne_nil]
    · have zero : natOfDigits ['0'] = 0 := rfl
      have coefficient : natOfDigits (['0'] ++ (List.replicate (-d.point).toNat '0' ++ d.digits)) =
          natOfDigits d.digits := by
        rw [natOfDigits_append, natOfDigits_append, natOfDigits_replicate_zero, zero]
        omega
      have places : -((List.replicate (-d.point).toNat '0' ++ d.digits).length : Int) =
          d.point - d.digits.length := by
        rw [List.length_append, List.length_replicate]
        omega
      rw [Numeral.value, Numeral.coefficient, Digits.value, coefficient, places]
  | case2 small whole =>
    refine ⟨⟨d.digits ++ List.replicate (d.point.toNat - d.digits.length) '0', [], ?_, ?_, nofun⟩,
      ?_, ?_⟩
    · simp [ne_nil]
    · intro c mem
      rcases List.mem_append.1 mem with mem | mem
      · exact isDigit c mem
      · exact isDigit_of_mem_zeros mem
    · simp [Numeral.chars]
    · have exponent : d.point - d.digits.length =
          (d.point.toNat - d.digits.length : Nat) := by omega
      rw [Numeral.value, Numeral.coefficient, Digits.value, List.append_nil, natOfDigits_append,
        natOfDigits_replicate_zero, List.length_replicate, exponent, zpow_natCast]
      simp
  | case3 small whole =>
    refine ⟨⟨d.digits.take d.point.toNat, d.digits.drop d.point.toNat, ?_, ?_, ?_⟩, ?_, ?_⟩
    · apply List.length_pos_iff.1
      rw [List.length_take]
      omega
    · exact fun c mem => isDigit c (List.mem_of_mem_take mem)
    · exact fun c mem => isDigit c (List.mem_of_mem_drop mem)
    · have rest : d.digits.drop d.point.toNat ≠ [] := by
        apply List.length_pos_iff.1
        rw [List.length_drop]
        omega
      rw [Numeral.chars, if_neg rest]
    · have places : -((d.digits.drop d.point.toNat).length : Int) = d.point - d.digits.length := by
        rw [List.length_drop]
        omega
      rw [Numeral.value, Numeral.coefficient, Digits.value, List.take_append_drop, places]

private theorem Digits.positional_plain (d : Digits) :
    (if plain.positional (d.point - 1) then d.positional plain.wholeMark
      else d.scientific plain.plusSign) = d.positional [] :=
  if_pos rfl

private theorem magnitude_plain {x : Float} (nonzero : (x == 0) = false) :
    plain.magnitude x = (shortest plain.tie x).positional [] := by
  rw [Layout.magnitude, nonzero, if_neg Bool.false_ne_true]
  exact Digits.positional_plain _

/-- The absolute value of a finite number is written as a numeral that is rounded to the number. -/
theorem exists_numeral {x : Float} (finite : x.isFinite = true) :
    ∃ n : Numeral, plain.magnitude x = n.chars ∧ RoundsTo n.value x := by
  cases zero : x == 0 with
  | true =>
    refine ⟨⟨['0'], [], nofun, ?_, nofun⟩, ?_, ?_⟩
    · intro c mem
      rw [List.mem_singleton.1 mem]
      decide
    · rw [Layout.magnitude, if_pos zero]
      rfl
    · have value : natOfDigits ['0'] = 0 := rfl
      rw [Numeral.value, Numeral.coefficient, List.append_nil, value, Nat.cast_zero, zero_mul]
      exact roundsTo_zero finite zero
  | false =>
    have pos := Magnitude.significand_pos finite zero
    have holds := Magnitude.holds_shortest (Magnitude.canonical_ofFloat x) pos plain.tie
    rw [magnitude_plain zero, shortest]
    generalize (Magnitude.ofFloat x).interval.shortest plain.tie = found at *
    have proper := Digits.proper_ofCoefficient (Magnitude.coefficient_pos pos holds) found.2
    obtain ⟨n, chars, value⟩ := proper.exists_numeral
    refine ⟨n, chars, ?_⟩
    rw [value, Digits.value_ofCoefficient]
    exact Magnitude.roundsTo_of_holds finite zero holds

end Dialogue.Decimal
