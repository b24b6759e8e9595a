import Dialogue.Decimal.Layout
import Mathlib

/-!
Which decimals read as a binary64 number. A decimal is rounded to the number nearest to it, and to
the one with the even significand if two are equally near. `Magnitude.roundsTo_of_holds` says that
all points in the interval of a number are rounded to it: its neighbours are twice as far away as
the ends.
-/

set_option autoImplicit false
set_option relaxedAutoImplicit false

namespace Dialogue.Decimal

open Float.Model

/-- The significand of a number, sign aside. -/
def significand (x : Float) : Nat :=
  match x.toModel.unpack with
  | .finite _ mantissa _ _ => mantissa
  | _ => 0

/-- The absolute value of a finite number. -/
def size (x : Float) : ℚ :=
  match x.toModel.unpack with
  | .finite _ mantissa exponent _ => mantissa * 2 ^ exponent
  | _ => 0

/-- Sign aside, a number is the one that `q` is rounded to: none is nearer, and of two that are
equally near it is the one with the even significand. -/
structure RoundsTo (q : ℚ) (x : Float) : Prop where
  nearest : ∀ y : Float, y.isFinite = true → |q - size x| ≤ |q - size y|
  even : ∀ y : Float, y.isFinite = true → size y ≠ size x → |q - size x| = |q - size y| →
    significand x % 2 = 0

theorem toNat_unpackExponent (b : BitVec Format.binary64.numBits) :
    (UnpackedFloat.unpackExponent b).toNat = b.toNat / 2 ^ 52 % 2 ^ 11 := by
  simp [UnpackedFloat.unpackExponent, Nat.shiftRight_eq_div_pow]

theorem toNat_unpackMantissa (b : BitVec Format.binary64.numBits) :
    (UnpackedFloat.unpackMantissa b).toNat = b.toNat % 2 ^ 52 := by
  simp [UnpackedFloat.unpackMantissa]

/-- What a magnitude has if it is that of a number: a significand of 53 bits, all of them used
unless the exponent is the least. -/
structure Magnitude.Canonical (m : Magnitude) : Prop where
  significand_lt : m.significand < 2 ^ 53
  exponent_ge : -1074 ≤ m.exponent
  normal : -1074 < m.exponent → 2 ^ 52 ≤ m.significand
  closerBelow_iff : m.closerBelow = true ↔ m.significand = 2 ^ 52 ∧ -1074 < m.exponent

theorem Magnitude.canonical_ofFloat (x : Float) : (ofFloat x).Canonical := by
  have fraction_lt : x.toBits.toNat % 2 ^ 52 < 2 ^ 52 := Nat.mod_lt _ (by decide)
  simp only [ofFloat, Nat.pow_eq]
  generalize x.toBits.toNat % 2 ^ 52 = fraction at *
  generalize x.toBits.toNat / 2 ^ 52 % 2 ^ 11 = biased at *
  by_cases h : biased = 0
  · rw [if_pos h]
    constructor <;> simp
    omega
  · rw [if_neg h]
    constructor <;> simp <;> omega

theorem toNat_eq_zero_iff {w : Nat} (b : BitVec w) : b.toNat = 0 ↔ b = 0#w := by
  constructor
  · intro h
    exact BitVec.eq_of_toNat_eq (by simpa using h)
  · rintro rfl
    simp

theorem finite_congr (s : UnpackedFloat.Sign) {m m' : Nat} {e e' : Int}
    (h : 0 < m) (mantissa : m = m') (exponent : e = e') :
    ∃ h', UnpackedFloat.finite s m e h = .finite s m' e' h' := by
  subst mantissa exponent
  exact ⟨h, rfl⟩

/-- The three kinds of finite numbers: zero, those with the least exponent, and all others, which
have one more bit than is written. -/
theorem unpack_of_isFinite {b : BitVec Format.binary64.numBits}
    (finite : (UnpackedFloat.unpack .binary64 b).isFinite = true) :
    (b.toNat / 2 ^ 52 % 2 ^ 11 = 0 ∧ b.toNat % 2 ^ 52 = 0 ∧
        ∃ s, UnpackedFloat.unpack .binary64 b = .zero s) ∨
      (b.toNat / 2 ^ 52 % 2 ^ 11 = 0 ∧
        ∃ s h, UnpackedFloat.unpack .binary64 b = .finite s (b.toNat % 2 ^ 52) (-1074) h) ∨
      (b.toNat / 2 ^ 52 % 2 ^ 11 ≠ 0 ∧
        ∃ s h, UnpackedFloat.unpack .binary64 b =
          .finite s (2 ^ 52 + b.toNat % 2 ^ 52) ((b.toNat / 2 ^ 52 % 2 ^ 11 : Nat) - 1075) h) := by
  rw [← toNat_unpackExponent, ← toNat_unpackMantissa, toNat_eq_zero_iff, toNat_eq_zero_iff]
  by_cases top : UnpackedFloat.unpackExponent b = -1#11
  · rw [UnpackedFloat.unpack, if_pos top] at finite
    split at finite <;> cases finite
  by_cases least : UnpackedFloat.unpackExponent b = 0#11
  · by_cases zero : UnpackedFloat.unpackMantissa b = 0#52
    · refine .inl ⟨least, zero, .ofBitVec (UnpackedFloat.unpackSign b), ?_⟩
      rw [UnpackedFloat.unpack, if_neg top, if_pos least, dif_pos zero]
    · refine .inr (.inl ⟨least, .ofBitVec (UnpackedFloat.unpackSign b), ?_⟩)
      rw [UnpackedFloat.unpack, if_neg top, if_pos least, dif_neg zero]
      apply finite_congr
      · rfl
      · rw [least]
        rfl
  · refine .inr (.inr ⟨mt (toNat_eq_zero_iff _).1 least,
      .ofBitVec (UnpackedFloat.unpackSign b), ?_⟩)
    rw [UnpackedFloat.unpack, if_neg top, if_neg least]
    apply finite_congr
    · exact (BitVec.toNat_append ..).trans
        (Nat.shiftLeft_add_eq_or_of_lt (UnpackedFloat.unpackMantissa b).isLt 1).symm
    · rfl

private theorem Magnitude.ofFloat_of_isFinite {x : Float} (finite : x.isFinite = true) :
    (∃ s, x.toModel.unpack = .zero s ∧ (ofFloat x).significand = 0) ∨
      ∃ s h, x.toModel.unpack = .finite s (ofFloat x).significand (ofFloat x).exponent h := by
  rcases unpack_of_isFinite finite with ⟨least, zero, s, eq⟩ |
    ⟨least, s, h, eq⟩ | ⟨normal, s, h, eq⟩
  · left
    refine ⟨s, eq, ?_⟩
    exact (congrArg significand (if_pos least)).trans zero
  · right
    refine ⟨s, ?_⟩
    rw [show ofFloat x = _ from if_pos least]
    exact ⟨h, eq⟩
  · right
    refine ⟨s, ?_⟩
    rw [show ofFloat x = _ from if_neg normal]
    exact ⟨h, eq⟩

theorem Magnitude.significand_ofFloat {x : Float} (finite : x.isFinite = true) :
    (ofFloat x).significand = Decimal.significand x := by
  rcases ofFloat_of_isFinite finite with ⟨s, eq, zero⟩ | ⟨s, h, eq⟩
  · rw [zero, Decimal.significand, eq]
  · rw [Decimal.significand, eq]

private theorem beq_zero_iff {x : Float} (finite : x.isFinite = true) :
    (x == 0) = true ↔ (Magnitude.ofFloat x).significand = 0 := by
  have zero : (0 : Float).toModel.unpack = .zero .positive := rfl
  have beq : (x == 0) = x.toModel.unpack.beq (.zero .positive) := by rw [← zero]; rfl
  rcases Magnitude.ofFloat_of_isFinite finite with ⟨s, eq, none⟩ | ⟨s, h, eq⟩
  · rw [beq, eq, none]
    exact ⟨fun _ => rfl, fun _ => rfl⟩
  · rw [beq, eq]
    constructor
    · intro same
      cases s <;> cases same
    · intro none
      exact (Nat.ne_of_gt h none).elim

theorem Magnitude.significand_pos {x : Float} (finite : x.isFinite = true)
    (nonzero : (x == 0) = false) : 0 < (ofFloat x).significand := by
  apply Nat.pos_of_ne_zero
  intro zero
  rw [(beq_zero_iff finite).2 zero] at nonzero
  cases nonzero

theorem ofBitVec_unpackSign (b : BitVec Format.binary64.numBits) :
    UnpackedFloat.Sign.ofBitVec (UnpackedFloat.unpackSign b) =
      if b.toNat < 2 ^ 63 then .positive else .negative := by
  have toNat : (UnpackedFloat.unpackSign b).toNat = b.toNat / 2 ^ 63 := by
    have lt : b.toNat < 2 ^ 64 := b.isLt
    simp [UnpackedFloat.unpackSign, Nat.shiftRight_eq_div_pow]
    omega
  unfold UnpackedFloat.Sign.ofBitVec
  congr 1
  rw [← toNat_eq_zero_iff, toNat]
  exact propext ⟨fun h => by omega, fun h => by omega⟩

private theorem unpack_of_isInf {b : BitVec Format.binary64.numBits}
    (h : (UnpackedFloat.unpack .binary64 b).isInf = true) :
    UnpackedFloat.unpack .binary64 b =
      .infinity (if b.toNat < 2 ^ 63 then .positive else .negative) := by
  rw [← ofBitVec_unpackSign]
  revert h
  unfold UnpackedFloat.unpack
  dsimp only
  split
  · split
    · exact fun _ => rfl
    · rintro ⟨⟩
  · split
    · split <;> rintro ⟨⟩
    · rintro ⟨⟩

theorem pos_iff_of_isInf {x : Float} (h : x.isInf = true) : x > 0 ↔ isNegative x = false := by
  have zero : (0 : Float).toModel.unpack = .zero .positive := rfl
  have unpack : x.toModel.unpack = .infinity (if x.toBits.toNat < 2 ^ 63 then _ else _) :=
    unpack_of_isInf h
  have less : x > 0 ↔ (UnpackedFloat.zero .positive).lt x.toModel.unpack = true := by
    rw [← zero]
    exact decide_eq_true_iff
  have bits : isNegative x = decide (2 ^ 63 ≤ x.toBits.toNat) := rfl
  rw [less, unpack, bits, decide_eq_false_iff_not, Nat.not_le]
  by_cases positive : x.toBits.toNat < 2 ^ 63
  · rw [if_pos positive]
    exact ⟨fun _ => positive, fun _ => rfl⟩
  · rw [if_neg positive]
    exact ⟨nofun, fun lt => (positive lt).elim⟩

theorem isFinite_of_not {x : Float} (number : x.isNaN = false) (bounded : x.isInf = false) :
    x.isFinite = true := by
  change x.toModel.unpack.isNaN = false at number
  change x.toModel.unpack.isInf = false at bounded
  change x.toModel.unpack.isFinite = true
  cases unpacked : x.toModel.unpack with
  | infinity s =>
    rw [unpacked] at bounded
    cases bounded
  | notANumber =>
    rw [unpacked] at number
    cases number
  | zero s => rfl
  | finite s mantissa exponent h => rfl

/-- The number that a magnitude stands for. -/
def Magnitude.value (m : Magnitude) : ℚ :=
  m.significand * 2 ^ m.exponent

/-- The distance to the next number above. -/
def Magnitude.above (m : Magnitude) : ℚ :=
  2 ^ m.exponent

/-- The distance to the next number below. -/
def Magnitude.below (m : Magnitude) : ℚ :=
  if m.closerBelow then m.above / 2 else m.above

namespace Magnitude

theorem above_pos (m : Magnitude) : 0 < m.above := by
  unfold above
  positivity

theorem below_le_above (m : Magnitude) : m.below ≤ m.above := by
  have pos := m.above_pos
  unfold below
  split <;> linarith

theorem below_pos (m : Magnitude) : 0 < m.below := by
  have pos := m.above_pos
  unfold below
  split <;> linarith

/-- With an exponent that is not less, a number is a multiple of the distance. -/
theorem value_eq_mul_above {m n : Magnitude} (h : m.exponent ≤ n.exponent) :
    ∃ k : Nat, n.value = k * m.above := by
  obtain ⟨d, hd⟩ := Int.le.dest h
  refine ⟨n.significand * 2 ^ d, ?_⟩
  rw [value, above, ← hd, zpow_add₀ two_ne_zero, zpow_natCast]
  push_cast
  ring

/-- With a lesser exponent, a number stays below all those that use every bit. -/
theorem value_le_of_exponent_lt {m n : Magnitude} (cn : n.Canonical) (h : n.exponent < m.exponent) :
    n.value ≤ 2 ^ 52 * m.above - m.above / 2 := by
  have significand : (n.significand : ℚ) + 1 ≤ 2 ^ 53 := by exact_mod_cast cn.significand_lt
  have unit : (2 : ℚ) ^ n.exponent ≤ m.above / 2 := by
    have half : m.above / 2 = (2 : ℚ) ^ (m.exponent - 1) := by
      rw [above, zpow_sub_one₀ two_ne_zero]
      ring
    rw [half]
    exact zpow_le_zpow_right₀ one_le_two (by omega)
  have pos : (0 : ℚ) < 2 ^ n.exponent := by positivity
  rw [value]
  nlinarith

theorem above_le_of_value_lt {m n : Magnitude} (cm : m.Canonical) (cn : n.Canonical)
    (h : m.value < n.value) : m.value + m.above ≤ n.value := by
  have pos := m.above_pos
  by_cases le : m.exponent ≤ n.exponent
  · obtain ⟨k, eq⟩ := value_eq_mul_above le
    rw [eq] at h ⊢
    have lt : m.significand < k := by
      exact_mod_cast lt_of_mul_lt_mul_right h pos.le
    have step : (m.significand : ℚ) + 1 ≤ k := by exact_mod_cast lt
    calc m.value + m.above = (m.significand + 1) * m.above := by
          rw [value, above]
          ring
      _ ≤ k * m.above := mul_le_mul_of_nonneg_right step pos.le
  · have lt := not_le.1 le
    have bound := value_le_of_exponent_lt cn lt
    have full : (2 : ℚ) ^ 52 ≤ m.significand := by
      have := cm.normal (Int.lt_of_le_of_lt cn.exponent_ge lt)
      exact_mod_cast this
    have large : (2 : ℚ) ^ 52 * m.above ≤ m.value := mul_le_mul_of_nonneg_right full pos.le
    linarith

private theorem below_le_of_value_lt {m n : Magnitude} (cm : m.Canonical) (cn : n.Canonical)
    (h : n.value < m.value) : n.value ≤ m.value - m.below := by
  have pos := m.above_pos
  by_cases le : m.exponent ≤ n.exponent
  · obtain ⟨k, eq⟩ := value_eq_mul_above le
    rw [eq] at h ⊢
    have lt : k < m.significand := by
      exact_mod_cast lt_of_mul_lt_mul_right h pos.le
    have step : (k : ℚ) + 1 ≤ m.significand := by exact_mod_cast lt
    have below := m.below_le_above
    have : (k + 1) * m.above ≤ m.value := mul_le_mul_of_nonneg_right step pos.le
    linarith
  · have lt := not_le.1 le
    have bound := value_le_of_exponent_lt cn lt
    have normal : -1074 < m.exponent := Int.lt_of_le_of_lt cn.exponent_ge lt
    have full := cm.normal normal
    by_cases closer : m.closerBelow = true
    · have exact := (cm.closerBelow_iff.1 closer).1
      have value : m.value = 2 ^ 52 * m.above := by
        rw [value, exact]
        push_cast
        rfl
      rwa [below, if_pos closer, value]
    · have more : 2 ^ 52 + 1 ≤ m.significand := by
        have : m.significand ≠ 2 ^ 52 := fun eq => closer (cm.closerBelow_iff.2 ⟨eq, normal⟩)
        omega
      have more : (2 : ℚ) ^ 52 + 1 ≤ m.significand := by exact_mod_cast more
      have large : (2 ^ 52 + 1) * m.above ≤ m.value := mul_le_mul_of_nonneg_right more pos.le
      rw [below, if_neg closer]
      linarith

end Magnitude

theorem powerOfTen_eq (e : Int) :
    ((powerOfTen e).1 : ℚ) = 10 ^ e * (powerOfTen e).2 ∧ 0 < (powerOfTen e).2 := by
  unfold powerOfTen
  by_cases h : 0 ≤ e
  · rw [if_pos h]
    obtain ⟨n, rfl⟩ := Int.eq_ofNat_of_zero_le h
    simp
  · rw [if_neg h]
    obtain ⟨n, hn⟩ := Int.eq_ofNat_of_zero_le (Int.neg_nonneg.2 (Int.le_of_not_le h))
    obtain rfl : e = -n := by omega
    simp

private theorem Interval.cast_point (i : Interval) (e : Int) (c : Nat) :
    ((c * (powerOfTen e).1 * i.denominator : Nat) : ℚ) =
      c * 10 ^ e * i.denominator * (powerOfTen e).2 := by
  push_cast
  rw [(powerOfTen_eq e).1]
  ring

private theorem Interval.le_point_iff {i : Interval} (pos : 0 < i.denominator)
    (e : Int) (a c : Nat) :
    a * (powerOfTen e).2 ≤ c * (powerOfTen e).1 * i.denominator ↔
      (a : ℚ) / i.denominator ≤ c * 10 ^ e := by
  have pos : (0 : ℚ) < i.denominator := by exact_mod_cast pos
  have down : (0 : ℚ) < (powerOfTen e).2 := by exact_mod_cast (powerOfTen_eq e).2
  have cast : ((a * (powerOfTen e).2 : Nat) : ℚ) ≤
      (c * (powerOfTen e).1 * i.denominator : Nat) ↔ _ :=
    Nat.cast_le
  rw [← cast, cast_point, Nat.cast_mul, mul_le_mul_iff_left₀ down, div_le_iff₀ pos]

theorem Interval.point_le_iff {i : Interval} (pos : 0 < i.denominator) (e : Int) (a c : Nat) :
    c * (powerOfTen e).1 * i.denominator ≤ a * (powerOfTen e).2 ↔
      c * 10 ^ e ≤ (a : ℚ) / i.denominator := by
  have pos : (0 : ℚ) < i.denominator := by exact_mod_cast pos
  have down : (0 : ℚ) < (powerOfTen e).2 := by exact_mod_cast (powerOfTen_eq e).2
  have cast : ((c * (powerOfTen e).1 * i.denominator : Nat) : ℚ) ≤
      (a * (powerOfTen e).2 : Nat) ↔ _ :=
    Nat.cast_le
  rw [← cast, cast_point, Nat.cast_mul, mul_le_mul_iff_left₀ down, le_div_iff₀ pos]

/-- A point between two ends, which belong to the interval or not. -/
def Within (closed : Bool) (low high q : ℚ) : Prop :=
  if closed then low ≤ q ∧ q ≤ high else low < q ∧ q < high

theorem Within.le {closed : Bool} {low high q : ℚ} (h : Within closed low high q) :
    low ≤ q ∧ q ≤ high := by
  cases closed with
  | false => exact ⟨h.1.le, h.2.le⟩
  | true => exact h

theorem Within.of_lt {closed : Bool} {low high q : ℚ} (above : low < q) (below : q < high) :
    Within closed low high q := by
  cases closed with
  | false => exact ⟨above, below⟩
  | true => exact ⟨above.le, below.le⟩

private theorem Interval.holds_iff {i : Interval} (pos : 0 < i.denominator) (e : Int) (c : Nat) :
    i.holds e c = true ↔
      Within i.closed (i.low / i.denominator) (i.high / i.denominator) (c * 10 ^ e) := by
  have low := le_point_iff pos e i.low c
  have high := point_le_iff pos e i.high c
  have low' := not_congr (point_le_iff pos e i.low c)
  have high' := not_congr (le_point_iff pos e i.high c)
  rw [not_le, not_le] at low' high'
  unfold holds Within
  cases i.closed with
  | false => simp [low', high']
  | true => simp [low, high]

namespace Magnitude

theorem denominator_pos (m : Magnitude) : 0 < m.interval.denominator := by
  simp only [interval, Nat.pow_eq]
  split
  · exact Nat.one_pos
  · exact Nat.two_pow_pos _

/-- A quarter of the distance to the number above is the unit in which an interval is given. -/
theorem exists_unit (m : Magnitude) :
    ∃ unit : Nat, (unit : ℚ) / m.interval.denominator = m.above / 4 ∧
      m.interval.value = 4 * m.significand * unit ∧
      m.interval.low = (4 * m.significand - if m.closerBelow then 1 else 2) * unit ∧
      m.interval.high = (4 * m.significand + 2) * unit := by
  refine ⟨_, ?_, rfl, rfl, rfl⟩
  simp only [interval, Nat.pow_eq, above]
  by_cases h : 2 ≤ m.exponent
  · obtain ⟨n, hn⟩ := Int.le.dest h
    rw [if_pos h, if_pos h, ← hn, show (2 + (n : Int) - 2).toNat = n by omega,
      zpow_add₀ two_ne_zero]
    push_cast
    norm_num
  · obtain ⟨n, hn⟩ := Int.le.dest (Int.le_of_not_le h)
    rw [if_neg h, if_neg h, show (2 - m.exponent).toNat = n by omega,
      show m.exponent = 2 - n by omega, zpow_sub₀ two_ne_zero]
    push_cast
    norm_num
    ring

theorem value_div_denominator (m : Magnitude) :
    (m.interval.value : ℚ) / m.interval.denominator = m.value := by
  obtain ⟨unit, eq, value, -, -⟩ := m.exists_unit
  rw [value]
  push_cast
  rw [mul_div_assoc, eq, Magnitude.value, above]
  ring

private theorem high_div_denominator (m : Magnitude) :
    (m.interval.high : ℚ) / m.interval.denominator = m.value + m.above / 2 := by
  obtain ⟨unit, eq, -, -, high⟩ := m.exists_unit
  rw [high]
  push_cast
  rw [mul_div_assoc, eq, value, above]
  ring

private theorem low_div_denominator {m : Magnitude} (pos : 0 < m.significand) :
    (m.interval.low : ℚ) / m.interval.denominator = m.value - m.below / 2 := by
  obtain ⟨unit, eq, -, low, -⟩ := m.exists_unit
  have margin : ((if m.closerBelow then 1 else 2 : Nat) : ℚ) * (m.above / 4) = m.below / 2 := by
    unfold below
    split <;> push_cast <;> ring
  have le : (if m.closerBelow then 1 else 2) ≤ 4 * m.significand := by split <;> omega
  rw [low, Nat.cast_mul, mul_div_assoc, eq, Nat.cast_sub le, sub_mul, margin, value, above]
  push_cast
  ring

/-- The interval of a magnitude ends half way to its neighbours. -/
theorem holds_iff {m : Magnitude} (pos : 0 < m.significand) (e : Int) (c : Nat) :
    m.interval.holds e c = true ↔
      Within (m.significand % 2 = 0) (m.value - m.below / 2)
        (m.value + m.above / 2) (c * 10 ^ e) := by
  rw [Interval.holds_iff m.denominator_pos, low_div_denominator pos, high_div_denominator]
  rfl

/-- No number is nearer to a point of the interval, and one is as near only at an end. -/
theorem nearest_of_within {m n : Magnitude} (cm : m.Canonical) (cn : n.Canonical)
    {closed : Bool} {q : ℚ} (h : Within closed (m.value - m.below / 2) (m.value + m.above / 2) q) :
    |q - m.value| ≤ |q - n.value| ∧
      (n.value ≠ m.value → |q - m.value| = |q - n.value| → closed = true) := by
  obtain ⟨low, high⟩ := h.le
  have above := m.above_pos
  have below := m.below_pos
  rcases lt_trichotomy n.value m.value with lt | eq | gt
  · have far := below_le_of_value_lt cm cn lt
    have right : |q - n.value| = q - n.value := abs_of_pos (by linarith)
    rw [right]
    refine ⟨abs_le.2 ⟨by linarith, by linarith⟩, fun _ tie => ?_⟩
    cases closed with
    | true => rfl
    | false =>
      have inside : m.value - m.below / 2 < q := h.1
      have less : |q - m.value| < q - n.value := abs_lt.2 ⟨by linarith, by linarith⟩
      exact (less.ne tie).elim
  · rw [eq]
    exact ⟨le_rfl, fun ne => (ne rfl).elim⟩
  · have far := above_le_of_value_lt cm cn gt
    have left : |q - n.value| = n.value - q := by
      rw [abs_sub_comm]
      exact abs_of_pos (by linarith)
    rw [left]
    refine ⟨abs_le.2 ⟨by linarith, by linarith⟩, fun _ tie => ?_⟩
    cases closed with
    | true => rfl
    | false =>
      have inside : q < m.value + m.above / 2 := h.2
      have less : |q - m.value| < n.value - q := abs_lt.2 ⟨by linarith, by linarith⟩
      exact (less.ne tie).elim

theorem value_ofFloat {x : Float} (finite : x.isFinite = true) : (ofFloat x).value = size x := by
  rcases ofFloat_of_isFinite finite with ⟨s, eq, zero⟩ | ⟨s, h, eq⟩
  · rw [value, zero, size, eq]
    simp
  · rw [value, size, eq]

/-- What lies in the interval of a number is rounded to the number. -/
theorem roundsTo_of_holds {x : Float} (finite : x.isFinite = true) (nonzero : (x == 0) = false)
    {e : Int} {c : Nat} (h : (ofFloat x).interval.holds e c = true) : RoundsTo (c * 10 ^ e) x := by
  have pos := significand_pos finite nonzero
  have within := (holds_iff pos e c).1 h
  have cx := canonical_ofFloat x
  constructor
  · intro y finiteY
    rw [← value_ofFloat finite, ← value_ofFloat finiteY]
    exact (nearest_of_within cx (canonical_ofFloat y) within).1
  · intro y finiteY ne tie
    rw [← value_ofFloat finite, ← value_ofFloat finiteY] at ne tie
    rw [← significand_ofFloat finite]
    exact of_decide_eq_true ((nearest_of_within cx (canonical_ofFloat y) within).2 ne tie)

end Magnitude

theorem roundsTo_zero {x : Float} (finite : x.isFinite = true) (zero : (x == 0) = true) :
    RoundsTo 0 x := by
  have size : size x = 0 := by
    rw [← Magnitude.value_ofFloat finite, Magnitude.value, (beq_zero_iff finite).1 zero]
    simp
  constructor
  · intro y _
    rw [size, sub_zero, abs_zero]
    exact abs_nonneg _
  · intro y _ ne tie
    rw [size, sub_zero, abs_zero, zero_sub, abs_neg] at tie
    exact (ne (size.symm ▸ abs_eq_zero.1 tie.symm)).elim

end Dialogue.Decimal
