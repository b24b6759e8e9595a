import Dialogue.Proofs.Decimal.Magnitude

/-!
Numbers by the parts that are stored of them: a sign, an exponent of 11 bits and a fraction of 52
bits. A number is determined by its parts, and negation turns the sign and nothing else. A decimal
is rounded to one number of each sign only: of two that are next to each other, one has an odd
significand.
-/

set_option autoImplicit false
set_option relaxedAutoImplicit false

namespace Dialogue.Decimal

open Float.Model
open UnpackedFloat (packComponents unpackSign unpackExponent unpackMantissa Sign)

/-- The number that is stored as a sign, an exponent and a fraction. -/
def ofParts (s : Sign) (e : BitVec 11) (f : BitVec 52) : UnpackedFloat :=
  if e = -1#11 then if f = 0#52 then .infinity s else .notANumber
  else if e = 0#11 then
    if h : f.toNat = 0 then .zero s else .finite s f.toNat (-1074) (Nat.pos_of_ne_zero h)
  else .finite s (2 ^ 52 + f.toNat) (e.toNat - 1075) (by omega)

private theorem neg_ofParts (s : Sign) (e : BitVec 11) (f : BitVec 52) :
    (ofParts s e f).neg = ofParts (-s) e f := by
  unfold ofParts
  split
  · split <;> rfl
  · split
    · split <;> rfl
    · rfl

private theorem unpack_eq_ofParts (b : BitVec Format.binary64.numBits) :
    UnpackedFloat.unpack .binary64 b =
    ofParts (.ofBitVec (unpackSign b)) (unpackExponent b) (unpackMantissa b) := by
  rw [UnpackedFloat.unpack, ofParts]
  by_cases top : unpackExponent b = -1#11
  · rw [if_pos top, if_pos top]
  rw [if_neg top, if_neg top]
  by_cases least : unpackExponent b = 0#11
  · rw [if_pos least, if_pos least]
    by_cases zero : (unpackMantissa b).toNat = 0
    · rw [dif_pos zero, dif_pos ((toNat_eq_zero_iff _).mp zero)]
    · rw [dif_neg zero, dif_neg (mt (toNat_eq_zero_iff _).mpr zero)]
      have exponent : ((unpackExponent b).toNat : Int) - (1023 + 52) + 1 = -1074 := by
        rw [least]
        rfl
      exact (finite_congr _ _ rfl exponent).elim fun _ same => same
  · rw [if_neg least, if_neg least]
    have significand : (1#1 ++ unpackMantissa b).toNat = 2 ^ 52 + (unpackMantissa b).toNat :=
      (BitVec.toNat_append ..).trans (Nat.shiftLeft_add_eq_or_of_lt (unpackMantissa b).isLt 1).symm
    exact (finite_congr _ _ significand rfl).elim fun _ same => same

private theorem packComponents_parts (b : BitVec Format.binary64.numBits) :
    packComponents .binary64 (.ofBitVec (unpackSign b)) (unpackExponent b)
      (unpackMantissa b) = b := by
  have sign : ∀ v : BitVec 1, (Sign.ofBitVec v).toBitVec = v := by decide
  rw [packComponents, sign]
  ext i hi
  simp only [unpackSign, unpackExponent, unpackMantissa]
  grind

private theorem ofBitVec_unpackSign_packComponents (s : Sign) (e : BitVec 11) (f : BitVec 52) :
    Sign.ofBitVec (unpackSign (packComponents .binary64 s e f)) = s := by
  have sign : unpackSign (packComponents .binary64 s e f) = s.toBitVec := by
    ext i hi
    simp only [unpackSign, packComponents]
    grind
  rw [sign]
  cases s <;> rfl

/-- What is stored as parts is put together from them again, unless it is not a number. -/
theorem pack_ofParts (s : Sign) {e : BitVec 11} {f : BitVec 52} (number : e = -1#11 → f = 0#52) :
    UnpackedFloat.pack .binary64 (ofParts s e f) = packComponents .binary64 s e f := by
  have fraction_lt := f.isLt
  have exponent_lt := e.isLt
  have width : Format.binary64.mantissaBits = 53 := rfl
  rw [ofParts]
  by_cases top : e = -1#11
  · rw [if_pos top, if_pos (number top), number top, top]
    rfl
  rw [if_neg top]
  by_cases least : e = 0#11
  · rw [if_pos least]
    by_cases zero : f.toNat = 0
    · rw [dif_pos zero, (toNat_eq_zero_iff f).mp zero, least]
      rfl
    · have short : ¬f.toNat.log2 + 1 = 53 := by
        have bound : f.toNat.log2 < 52 := (Nat.log2_lt zero).mpr fraction_lt
        omega
      rw [dif_neg zero, UnpackedFloat.pack]
      simp only [width]
      rw [if_neg (by decide), if_neg short, least, BitVec.ofNat_toNat, BitVec.setWidth_eq]
  · have below : e.toNat ≠ 2047 := fun h => top (BitVec.eq_of_toNat_eq h)
    have full : (2 ^ 52 + f.toNat).log2 + 1 = 53 := by
      have log : (2 ^ 52 + f.toNat).log2 = 52 :=
        (Nat.log2_eq_iff (by omega)).mpr ⟨by omega, by omega⟩
      rw [log]
    have biased : ((e.toNat : Int) - 1075 + (1023 : Nat) + (52 : Nat)).toNat = e.toNat := by omega
    have bounded : ¬2048 ≤ e.toNat + 1 := by omega
    have fraction : BitVec.ofNat 52 (2 ^ 52 + f.toNat) = f := by
      apply BitVec.eq_of_toNat_eq
      rw [BitVec.toNat_ofNat]
      omega
    rw [if_neg least, UnpackedFloat.pack]
    simp only [width, show Format.binary64.exponentBias = 1023 from rfl, biased]
    rw [if_neg bounded, if_pos full, BitVec.ofNat_toNat, BitVec.setWidth_eq, fraction]

def bits (x : Float) : BitVec Format.binary64.numBits :=
  x.toModel.toBits.toBitVec

private theorem eq_of_bits_eq {x y : Float} (h : bits x = bits y) : x = y := by
  obtain ⟨⟨xBits, _⟩⟩ := x
  obtain ⟨⟨yBits, _⟩⟩ := y
  obtain rfl : xBits = yBits := UInt64.toBitVec_inj.mp h
  rfl

def sign (x : Float) : Sign :=
  .ofBitVec (unpackSign (bits x))

private theorem sign_eq (x : Float) : sign x = if isNegative x then .negative else .positive := by
  have negative : isNegative x = decide (2 ^ 63 ≤ (bits x).toNat) := rfl
  rw [sign, ofBitVec_unpackSign, negative]
  by_cases positive : (bits x).toNat < 2 ^ 63
  · rw [if_pos positive, decide_eq_false (by omega)]
    rfl
  · rw [if_neg positive, decide_eq_true (by omega)]
    rfl

/-- A number is determined by its parts. -/
theorem eq_of_parts {x y : Float} (same : isNegative x = isNegative y)
    (exponent : unpackExponent (bits x) = unpackExponent (bits y))
    (fraction : unpackMantissa (bits x) = unpackMantissa (bits y)) : x = y := by
  apply eq_of_bits_eq
  rw [← packComponents_parts (bits x), ← packComponents_parts (bits y), exponent, fraction]
  have signs : sign x = sign y := by rw [sign_eq, sign_eq, same]
  exact congrArg (packComponents .binary64 · _ _) signs

private theorem unpack_eq (x : Float) :
    x.toModel.unpack = ofParts (sign x) (unpackExponent (bits x)) (unpackMantissa (bits x)) :=
  unpack_eq_ofParts (bits x)

/-- There is one value for what is not a number. -/
theorem eq_of_isNaN {x y : Float} (undefinedX : x.isNaN = true) (undefinedY : y.isNaN = true) :
    x = y := by
  have canonical : ∀ z : Float, z.isNaN = true → bits z = UnpackedFloat.packedNaN .binary64 := by
    intro z undefined
    change z.toModel.unpack.isNaN = true at undefined
    rw [unpack_eq, ofParts] at undefined
    split at undefined
    · next top =>
      split at undefined
      · cases undefined
      · next fraction => exact z.toModel.valid.eq_packedNaN top fraction
    · split at undefined
      · split at undefined <;> cases undefined
      · cases undefined
  apply eq_of_bits_eq
  rw [canonical x undefinedX, canonical y undefinedY]

/-- There is one infinity of each sign. -/
theorem eq_of_isInf {x y : Float} (infiniteX : x.isInf = true) (infiniteY : y.isInf = true)
    (same : isNegative x = isNegative y) : x = y := by
  have parts : ∀ z : Float, z.isInf = true →
      unpackExponent (bits z) = -1#11 ∧ unpackMantissa (bits z) = 0#52 := by
    intro z infinite
    change z.toModel.unpack.isInf = true at infinite
    rw [unpack_eq, ofParts] at infinite
    split at infinite
    · next top =>
      split at infinite
      · next fraction => exact ⟨top, fraction⟩
      · cases infinite
    · split at infinite
      · split at infinite <;> cases infinite
      · cases infinite
  obtain ⟨topX, fractionX⟩ := parts x infiniteX
  obtain ⟨topY, fractionY⟩ := parts y infiniteY
  exact eq_of_parts same (topX.trans topY.symm) (fractionX.trans fractionY.symm)

private theorem fraction_of_isNaN {x : Float} (number : x.isNaN = false)
    (top : unpackExponent (bits x) = -1#11) : unpackMantissa (bits x) = 0#52 := by
  change x.toModel.unpack.isNaN = false at number
  rw [unpack_eq, ofParts, if_pos top] at number
  by_contra fraction
  rw [if_neg fraction] at number
  cases number

private theorem bits_neg {x : Float} (number : x.isNaN = false) : bits (-x) =
    packComponents .binary64 (-sign x) (unpackExponent (bits x)) (unpackMantissa (bits x)) := by
  have packed : bits (-x) = UnpackedFloat.pack .binary64 x.toModel.unpack.neg := rfl
  rw [packed, unpack_eq, neg_ofParts, pack_ofParts _ (fraction_of_isNaN number)]

section Negation

variable {x : Float} (number : x.isNaN = false)

include number

private theorem sign_neg : sign (-x) = -sign x := by
  rw [sign, bits_neg number, ofBitVec_unpackSign_packComponents]

private theorem unpackExponent_neg : unpackExponent (bits (-x)) = unpackExponent (bits x) := by
  rw [bits_neg number, UnpackedFloat.unpackExponent_packComponents]

private theorem unpackMantissa_neg : unpackMantissa (bits (-x)) = unpackMantissa (bits x) := by
  rw [bits_neg number, UnpackedFloat.unpackMantissa_packComponents]

private theorem isNegative_neg : isNegative (-x) = !isNegative x := by
  have turned := sign_neg number
  rw [sign_eq, sign_eq] at turned
  revert turned
  cases isNegative x <;> cases isNegative (-x) <;> intro turned <;> first | rfl | cases turned

private theorem unpack_neg : (-x).toModel.unpack = x.toModel.unpack.neg := by
  rw [unpack_eq, unpack_eq, neg_ofParts, sign_neg number, unpackExponent_neg number,
    unpackMantissa_neg number]

private theorem isNaN_neg : (-x).isNaN = false := by
  change (-x).toModel.unpack.isNaN = false
  change x.toModel.unpack.isNaN = false at number
  rw [unpack_neg number]
  cases unpacked : x.toModel.unpack with
  | notANumber =>
    rw [unpacked] at number
    cases number
  | infinity s | zero s | finite s m e h => rfl

theorem neg_neg : - -x = x := by
  have number' := isNaN_neg number
  apply eq_of_parts
  · rw [isNegative_neg number', isNegative_neg number, Bool.not_not]
  · rw [unpackExponent_neg number', unpackExponent_neg number]
  · rw [unpackMantissa_neg number', unpackMantissa_neg number]

end Negation

theorem isNaN_of_isFinite {x : Float} (finite : x.isFinite = true) : x.isNaN = false := by
  change x.toModel.unpack.isFinite = true at finite
  change x.toModel.unpack.isNaN = false
  cases unpacked : x.toModel.unpack with
  | notANumber =>
    rw [unpacked] at finite
    cases finite
  | infinity s | zero s | finite s m e h => rfl

theorem isNaN_of_isInf {x : Float} (infinite : x.isInf = true) : x.isNaN = false := by
  change x.toModel.unpack.isInf = true at infinite
  change x.toModel.unpack.isNaN = false
  cases unpacked : x.toModel.unpack with
  | notANumber =>
    rw [unpacked] at infinite
    cases infinite
  | infinity s | zero s | finite s m e h => rfl

private theorem isFinite_neg {x : Float} (number : x.isNaN = false) :
    (-x).isFinite = x.isFinite := by
  change (-x).toModel.unpack.isFinite = x.toModel.unpack.isFinite
  rw [unpack_neg number]
  cases x.toModel.unpack <;> rfl

private theorem isInf_neg {x : Float} (number : x.isNaN = false) : (-x).isInf = x.isInf := by
  change (-x).toModel.unpack.isInf = x.toModel.unpack.isInf
  rw [unpack_neg number]
  cases x.toModel.unpack <;> rfl

private theorem size_neg {x : Float} (number : x.isNaN = false) : size (-x) = size x := by
  unfold size
  rw [unpack_neg number]
  cases x.toModel.unpack <;> rfl

private theorem significand_neg {x : Float} (number : x.isNaN = false) :
    significand (-x) = significand x := by
  unfold significand
  rw [unpack_neg number]
  cases x.toModel.unpack <;> rfl

/-- Rounding leaves the sign aside. -/
theorem RoundsTo.neg {q : ℚ} {x : Float} (h : RoundsTo q x) (number : x.isNaN = false) :
    RoundsTo q (-x) := by
  constructor
  · rw [size_neg number]
    exact h.nearest
  · rw [size_neg number, significand_neg number]
    exact h.even

/-- A number without its sign. -/
def unsigned (x : Float) : Float :=
  if isNegative x then -x else x

theorem isNegative_unsigned {x : Float} (number : x.isNaN = false) :
    isNegative (unsigned x) = false := by
  unfold unsigned
  cases negative : isNegative x with
  | true =>
    rw [if_pos rfl, isNegative_neg number, negative]
    rfl
  | false =>
    rw [if_neg Bool.false_ne_true]
    exact negative

theorem isFinite_unsigned {x : Float} (number : x.isNaN = false) :
    (unsigned x).isFinite = x.isFinite := by
  unfold unsigned
  split
  · exact isFinite_neg number
  · rfl

theorem isInf_unsigned {x : Float} (number : x.isNaN = false) : (unsigned x).isInf = x.isInf := by
  unfold unsigned
  split
  · exact isInf_neg number
  · rfl

theorem RoundsTo.unsigned {q : ℚ} {x : Float} (h : RoundsTo q x) (number : x.isNaN = false) :
    RoundsTo q (unsigned x) := by
  unfold Decimal.unsigned
  split
  · exact h.neg number
  · exact h

private theorem Magnitude.value_lt_of_exponent_lt {m n : Magnitude}
    (cm : m.Canonical) (cn : n.Canonical) (h : n.exponent < m.exponent) : n.value < m.value := by
  have bound := value_le_of_exponent_lt cn h
  have pos := m.above_pos
  have full : (2 : ℚ) ^ 52 ≤ m.significand := by
    have := cm.normal (Int.lt_of_le_of_lt cn.exponent_ge h)
    exact_mod_cast this
  have large : (2 : ℚ) ^ 52 * m.above ≤ m.value := mul_le_mul_of_nonneg_right full pos.le
  linarith

private theorem Magnitude.significand_eq_of_value_eq {m n : Magnitude}
    (cm : m.Canonical) (cn : n.Canonical) (h : m.value = n.value) :
    m.significand = n.significand ∧ m.exponent = n.exponent := by
  have exponent : m.exponent = n.exponent := by
    rcases Int.lt_trichotomy m.exponent n.exponent with lt | same | gt
    · exact absurd h (value_lt_of_exponent_lt cn cm lt).ne
    · exact same
    · exact absurd h (value_lt_of_exponent_lt cm cn gt).ne'
  refine ⟨?_, exponent⟩
  rw [value, value, exponent] at h
  exact_mod_cast mul_right_cancel₀ (zpow_ne_zero n.exponent two_ne_zero) h

theorem isFinite_iff (x : Float) : x.isFinite = true ↔ unpackExponent (bits x) ≠ -1#11 := by
  change x.toModel.unpack.isFinite = true ↔ _
  rw [unpack_eq, ofParts]
  by_cases top : unpackExponent (bits x) = -1#11
  · rw [if_pos top]
    refine ⟨fun finite => ?_, fun apart => absurd top apart⟩
    split at finite <;> cases finite
  · rw [if_neg top]
    refine ⟨fun _ => top, fun _ => ?_⟩
    split
    · split <;> rfl
    · rfl

theorem Magnitude.ofFloat_parts (x : Float) :
    (ofFloat x).significand = (if (unpackExponent (bits x)).toNat = 0 then 0 else 2 ^ 52) +
        (unpackMantissa (bits x)).toNat ∧
      (ofFloat x).exponent = if (unpackExponent (bits x)).toNat = 0 then -1074
        else ((unpackExponent (bits x)).toNat : Int) - 1075 := by
  rw [toNat_unpackExponent, toNat_unpackMantissa, ofFloat]
  simp only [Nat.pow_eq]
  change (if (bits x).toNat / 2 ^ 52 % 2 ^ 11 = 0 then _ else _ : Magnitude).significand = _ ∧
    (if (bits x).toNat / 2 ^ 52 % 2 ^ 11 = 0 then _ else _ : Magnitude).exponent = _
  split
  · exact ⟨(Nat.zero_add _).symm, rfl⟩
  · exact ⟨rfl, rfl⟩

/-- The number after one with an even significand has the next significand. -/
theorem exists_next {x : Float} (finite : x.isFinite = true) (even : significand x % 2 = 0) :
    ∃ y : Float, y.isFinite = true ∧ significand y = significand x + 1 ∧
      size y = size x + (Magnitude.ofFloat x).above := by
  have top := (isFinite_iff x).mp finite
  obtain ⟨significandX, exponentX⟩ := Magnitude.ofFloat_parts x
  have raised : (unpackMantissa (bits x) + 1#52).toNat = (unpackMantissa (bits x)).toNat + 1 := by
    have lt : (unpackMantissa (bits x)).toNat < 2 ^ 52 := (unpackMantissa (bits x)).isLt
    rw [← Magnitude.significand_ofFloat finite, significandX] at even
    rw [BitVec.toNat_add]
    simp only [BitVec.toNat_ofNat]
    split at even <;> omega
  let raisedBits := packComponents .binary64 (sign x) (unpackExponent (bits x))
    (unpackMantissa (bits x) + 1#52)
  have valid : Format.binary64.Valid raisedBits := by
    constructor
    intro infinite
    rw [UnpackedFloat.unpackExponent_packComponents] at infinite
    exact absurd infinite top
  let y : Float := ⟨⟨⟨raisedBits⟩, valid⟩⟩
  have exponentBits : unpackExponent (bits y) = unpackExponent (bits x) :=
    UnpackedFloat.unpackExponent_packComponents
  have fractionBits : unpackMantissa (bits y) = unpackMantissa (bits x) + 1#52 :=
    UnpackedFloat.unpackMantissa_packComponents
  have finiteY : y.isFinite = true := by
    rw [isFinite_iff, exponentBits]
    exact top
  obtain ⟨significandY, exponentY⟩ := Magnitude.ofFloat_parts y
  rw [exponentBits, fractionBits, raised] at significandY
  rw [exponentBits, ← exponentX] at exponentY
  have next : (Magnitude.ofFloat y).significand = (Magnitude.ofFloat x).significand + 1 := by
    rw [significandY, significandX, Nat.add_assoc]
  refine ⟨y, finiteY, ?_, ?_⟩
  · rw [← Magnitude.significand_ofFloat finiteY, ← Magnitude.significand_ofFloat finite, next]
  · rw [← Magnitude.value_ofFloat finiteY, ← Magnitude.value_ofFloat finite, Magnitude.value,
      Magnitude.value, Magnitude.above, next, exponentY]
    push_cast
    ring

private theorem RoundsTo.size_le {q : ℚ} {x y : Float} (hx : RoundsTo q x) (hy : RoundsTo q y)
    (finiteX : x.isFinite = true) (finiteY : y.isFinite = true) : size y ≤ size x := by
  apply not_lt.mp
  intro lt
  have tie : |q - size x| = |q - size y| :=
    le_antisymm (hx.nearest y finiteY) (hy.nearest x finiteX)
  have evenX := hx.even y finiteY lt.ne' tie
  have evenY := hy.even x finiteX lt.ne tie.symm
  obtain ⟨z, finiteZ, significandZ, sizeZ⟩ := exists_next finiteX evenX
  have pos := (Magnitude.ofFloat x).above_pos
  have le : size z ≤ size y := by
    rw [sizeZ, ← Magnitude.value_ofFloat finiteX, ← Magnitude.value_ofFloat finiteY]
    rw [← Magnitude.value_ofFloat finiteX, ← Magnitude.value_ofFloat finiteY] at lt
    exact Magnitude.above_le_of_value_lt (Magnitude.canonical_ofFloat x)
      (Magnitude.canonical_ofFloat y) lt
  rcases le.lt_or_eq with between | same
  · -- What lies between two numbers is nearer to their middle than they are.
    have nearest := hx.nearest z finiteZ
    have middle : q - size x = -(q - size y) := by
      rcases abs_eq_abs.mp tie with equal | opposite
      · linarith
      · exact opposite
    have nearer : |q - size z| < q - size x := abs_lt.mpr ⟨by linarith, by linarith⟩
    have distance : |q - size x| = q - size x := abs_of_pos (by linarith)
    linarith
  · rw [← Magnitude.value_ofFloat finiteZ, ← Magnitude.value_ofFloat finiteY] at same
    have equal := (Magnitude.significand_eq_of_value_eq (Magnitude.canonical_ofFloat z)
      (Magnitude.canonical_ofFloat y) same).1
    rw [Magnitude.significand_ofFloat finiteZ, Magnitude.significand_ofFloat finiteY] at equal
    omega

/-- A decimal is rounded to at most one number of each sign. -/
theorem RoundsTo.unique {q : ℚ} {x y : Float} (hx : RoundsTo q x) (hy : RoundsTo q y)
    (finiteX : x.isFinite = true) (finiteY : y.isFinite = true)
    (same : isNegative x = isNegative y) : x = y := by
  have sizes : size x = size y :=
    le_antisymm (hy.size_le hx finiteY finiteX) (hx.size_le hy finiteX finiteY)
  rw [← Magnitude.value_ofFloat finiteX, ← Magnitude.value_ofFloat finiteY] at sizes
  obtain ⟨significand, exponent⟩ :=
    Magnitude.significand_eq_of_value_eq (Magnitude.canonical_ofFloat x)
      (Magnitude.canonical_ofFloat y) sizes
  obtain ⟨significandX, exponentX⟩ := Magnitude.ofFloat_parts x
  obtain ⟨significandY, exponentY⟩ := Magnitude.ofFloat_parts y
  rw [significandX, significandY] at significand
  rw [exponentX, exponentY] at exponent
  have ltX : (unpackMantissa (bits x)).toNat < 2 ^ 52 := (unpackMantissa (bits x)).isLt
  have ltY : (unpackMantissa (bits y)).toNat < 2 ^ 52 := (unpackMantissa (bits y)).isLt
  apply eq_of_parts same
  · apply BitVec.eq_of_toNat_eq
    grind
  · apply BitVec.eq_of_toNat_eq
    grind

end Dialogue.Decimal
