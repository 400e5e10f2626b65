import Mathlib.Algebra.Order.Field.Power
import Mathlib.Algebra.Order.Field.Rat
import Mathlib.Tactic.Linarith
import Mathlib.Tactic.NormNum
import Mathlib.Tactic.Positivity
import Folio.Proofs.Number.Comparison

/-! # Values

The rational number that a floating-point number stands for. The infinite ones stand for the power
of two behind the last finite number, so that numbers have the order of their values.
-/

namespace Folio.Number

open Float.Model (Format UnpackedFloat)
open Float.Model.UnpackedFloat (Sign)

def scale (e : Int) : ℚ := (2 : ℚ) ^ e

theorem scale_pos (e : Int) : 0 < scale e := zpow_pos two_pos e

theorem scale_add (d e : Int) : scale (d + e) = scale d * scale e := zpow_add₀ two_ne_zero d e

theorem scale_succ (e : Int) : scale (e + 1) = 2 * scale e := by
  rw [scale_add, mul_comm]
  exact congrArg (· * scale e) (zpow_one 2)

theorem scale_natCast (n : Nat) : scale n = ((2 ^ n : Nat) : ℚ) := by
  rw [scale, zpow_natCast, Nat.cast_pow, Nat.cast_ofNat]

theorem scale_le {d e : Int} (le : d ≤ e) : scale d ≤ scale e :=
  zpow_le_zpow_right₀ one_le_two le

theorem scale_lt {d e : Int} (lt : d < e) : scale d < scale e := zpow_lt_zpow_right₀ one_lt_two lt

theorem scale_shift (m : Nat) {d e : Int} (le : d ≤ e) :
    ((m * 2 ^ (e - d).toNat : Nat) : ℚ) * scale d = m * scale e := by
  have exponent : scale e = scale (e - d).toNat * scale d := by
    rw [← scale_add, Int.toNat_of_nonneg (Int.sub_nonneg.2 le), Int.sub_add_cancel]
  rw [exponent, scale_natCast, Nat.cast_mul, mul_assoc]

def signed (negative : Bool) (q : ℚ) : ℚ := if negative then -q else q

/-- Infinite numbers count as the next power of two behind the finite ones. -/
def Decoded.value : Decoded → ℚ
  | .finite negative m => signed negative (m.mantissa * scale m.exponent)
  | .infinite negative => signed negative (scale 128)
  | .notANumber => 0

def value (x : Float32) : ℚ := (ofSingle x).value

def isNegative : Sign → Bool
  | .negative => true
  | .positive => false

def unpackedValue : UnpackedFloat → ℚ
  | .finite sign mantissa exponent _ => signed (isNegative sign) (mantissa * scale exponent)
  | .zero _ => 0
  | .infinity sign => signed (isNegative sign) (scale 128)
  | .notANumber => 0

theorem toNat_unpackMantissa (bits : BitVec Format.binary32.numBits) :
    (UnpackedFloat.unpackMantissa bits).toNat = bits.toNat % 2 ^ 23 := by
  simp [UnpackedFloat.unpackMantissa, BitVec.extractLsb]

theorem isNegative_unpackSign (bits : BitVec Format.binary32.numBits) :
    isNegative (.ofBitVec (UnpackedFloat.unpackSign bits)) = (bits.toNat / 2 ^ 31 % 2 == 1) := by
  have field : (UnpackedFloat.unpackSign bits).toNat = bits.toNat / 2 ^ 31 % 2 := by
    delta UnpackedFloat.unpackSign
    simp [BitVec.extractLsb, Nat.shiftRight_eq_div_pow]
  rw [← field]
  generalize UnpackedFloat.unpackSign bits = sign
  revert sign
  decide

/-- A finite number has a mantissa of 24 bits, the first of which is set unless the exponent is the
lowest. -/
def Canonical (mantissa : Nat) (exponent : Int) : Prop :=
  mantissa < 2 ^ 24 ∧ -149 ≤ exponent ∧ (2 ^ 23 ≤ mantissa ∨ exponent = -149)

inductive Unpacks (bits : Nat) : UnpackedFloat → Prop
  | infinity {sign : Sign} (ones : bits / 2 ^ 23 % 2 ^ 8 = 2 ^ 8 - 1) (none : bits % 2 ^ 23 = 0)
      (side : isNegative sign = (bits / 2 ^ 31 % 2 == 1)) : Unpacks bits (.infinity sign)
  | notANumber (ones : bits / 2 ^ 23 % 2 ^ 8 = 2 ^ 8 - 1) (some : bits % 2 ^ 23 ≠ 0) :
      Unpacks bits .notANumber
  | zero {sign : Sign} (low : bits / 2 ^ 23 % 2 ^ 8 = 0) (none : bits % 2 ^ 23 = 0) :
      Unpacks bits (.zero sign)
  | low {sign : Sign} (low : bits / 2 ^ 23 % 2 ^ 8 = 0)
      (side : isNegative sign = (bits / 2 ^ 31 % 2 == 1)) (pos : 0 < bits % 2 ^ 23) :
      Unpacks bits (.finite sign (bits % 2 ^ 23) (-149) pos)
  | normal {sign : Sign} (not_ones : bits / 2 ^ 23 % 2 ^ 8 ≠ 2 ^ 8 - 1)
      (not_low : bits / 2 ^ 23 % 2 ^ 8 ≠ 0) (side : isNegative sign = (bits / 2 ^ 31 % 2 == 1))
      (pos : 0 < 2 ^ 23 + bits % 2 ^ 23) :
      Unpacks bits
        (.finite sign (2 ^ 23 + bits % 2 ^ 23) ((bits / 2 ^ 23 % 2 ^ 8 : Nat) - 150) pos)

theorem finite_congr {sign : Sign} {m m' : Nat} {e e' : Int} (same : m = m') (same' : e = e')
    (pos : 0 < m) (pos' : 0 < m') :
    UnpackedFloat.finite sign m e pos = .finite sign m' e' pos' := by
  subst same same'
  rfl

theorem unpacks (bits : BitVec Format.binary32.numBits) :
    Unpacks bits.toNat (UnpackedFloat.unpack Format.binary32 bits) := by
  have exponent := toNat_unpackExponent bits
  have mantissa := toNat_unpackMantissa bits
  have side := isNegative_unpackSign bits
  delta UnpackedFloat.unpack
  dsimp only
  by_cases ones : UnpackedFloat.unpackExponent bits = -1#_
  · rw [if_pos ones]
    rw [ones] at exponent
    by_cases none : UnpackedFloat.unpackMantissa bits = 0#_
    · rw [if_pos none]
      rw [none] at mantissa
      exact .infinity exponent.symm mantissa.symm side
    · rw [if_neg none]
      refine .notANumber exponent.symm fun zero => none (BitVec.eq_of_toNat_eq ?_)
      exact mantissa.trans zero
  · rw [if_neg ones]
    by_cases low : UnpackedFloat.unpackExponent bits = 0#_
    · rw [if_pos low]
      rw [low] at exponent
      by_cases none : UnpackedFloat.unpackMantissa bits = 0#_
      · rw [dif_pos none]
        rw [none] at mantissa
        exact .zero exponent.symm mantissa.symm
      · rw [dif_neg none, low]
        have pos : 0 < bits.toNat % 2 ^ 23 := by
          rw [← mantissa]
          exact Nat.pos_of_ne_zero fun zero => none (BitVec.eq_of_toNat_eq zero)
        rw [finite_congr mantissa rfl _ pos]
        exact .low exponent.symm side pos
    · have leading : (1#1 ++ UnpackedFloat.unpackMantissa bits).toNat =
          2 ^ 23 + bits.toNat % 2 ^ 23 := by
        have sum := Nat.two_pow_add_eq_or_of_lt (UnpackedFloat.unpackMantissa bits).isLt 1
        rw [BitVec.toNat_append, ← mantissa]
        exact sum.symm
      have biased : ((UnpackedFloat.unpackExponent bits).toNat : Int) - 150 =
          (bits.toNat / 2 ^ 23 % 2 ^ 8 : Nat) - 150 := by
        rw [exponent]
      have pos : 0 < 2 ^ 23 + bits.toNat % 2 ^ 23 := by omega
      rw [if_neg low]
      refine Eq.subst (finite_congr leading biased _ pos).symm ?_
      exact .normal (fun field => ones (BitVec.eq_of_toNat_eq (exponent.trans field)))
        (fun field => low (BitVec.eq_of_toNat_eq (exponent.trans field))) side pos

theorem signed_zero (negative : Bool) : signed negative 0 = 0 := by
  cases negative with
  | true => exact neg_zero
  | false => rfl

theorem value_decode (bits : Nat) :
    (decode 23 8 bits).value = signed (bits / 2 ^ 31 % 2 == 1)
      (if bits / 2 ^ 23 % 2 ^ 8 = 2 ^ 8 - 1 then if bits % 2 ^ 23 = 0 then scale 128 else 0
      else if bits / 2 ^ 23 % 2 ^ 8 = 0 then (bits % 2 ^ 23 : Nat) * scale (-149)
      else (2 ^ 23 + bits % 2 ^ 23 : Nat) * scale ((bits / 2 ^ 23 % 2 ^ 8 : Nat) - 150)) := by
  simp only [decode, beq_iff_eq]
  split
  · split
    · rfl
    · exact (signed_zero _).symm
  · split
    · rfl
    · have exponent : ((bits / 2 ^ 23 % 2 ^ 8 : Nat) : Int) - 150 =
          -149 + (bits / 2 ^ 23 % 2 ^ 8 - 1 : Nat) := by omega
      rw [exponent]
      rfl

theorem unpackedValue_eq {bits : Nat} {u : UnpackedFloat} (found : Unpacks bits u) :
    unpackedValue u = (decode 23 8 bits).value := by
  rw [value_decode]
  cases found with
  | infinity ones none side =>
    rw [if_pos ones, if_pos none, ← side]
    rfl
  | notANumber ones some =>
    rw [if_pos ones, if_neg some, signed_zero]
    rfl
  | zero low none =>
    rw [if_neg (by omega), if_pos low, none, Nat.cast_zero, zero_mul, signed_zero]
    rfl
  | low low side pos =>
    rw [if_neg (by omega), if_pos low, ← side]
    rfl
  | normal not_ones not_low side pos =>
    rw [if_neg not_ones, if_neg not_low, ← side]
    rfl

theorem canonical_of_unpacks {bits : Nat} {sign : Sign} {m : Nat} {e : Int} {pos : 0 < m}
    (found : Unpacks bits (.finite sign m e pos)) : Canonical m e ∧ e ≤ 104 := by
  cases found with
  | low low side pos =>
    refine ⟨⟨?_, le_refl _, .inr rfl⟩, ?_⟩
    · omega
    · decide
  | normal not_ones not_low side pos =>
    refine ⟨⟨?_, ?_, .inl ?_⟩, ?_⟩
    · omega
    · omega
    · omega
    · omega

theorem unpackedValue_toModel (x : Float32) : unpackedValue x.toModel.unpack = value x :=
  unpackedValue_eq (unpacks x.toBits.toBitVec)

section Magnitudes

variable {m m' : Nat} {e e' : Int}

theorem Canonical.lt_scale (form : Canonical m e) : m * scale e < scale (e + 24) := by
  have bound : (m : ℚ) < (2 ^ 24 : Nat) := Nat.cast_lt.2 form.1
  rw [scale_add, mul_comm (scale e), ← Nat.cast_ofNat (R := Int), scale_natCast]
  exact mul_lt_mul_of_pos_right bound (scale_pos e)

theorem scale_le_magnitude (full : 2 ^ 23 ≤ m) (e : Int) : scale (e + 23) ≤ m * scale e := by
  have bound : ((2 ^ 23 : Nat) : ℚ) ≤ m := Nat.cast_le.2 full
  rw [scale_add, mul_comm (scale e), ← Nat.cast_ofNat (R := Int), scale_natCast]
  exact mul_le_mul_of_nonneg_right bound (scale_pos e).le

theorem Canonical.le_magnitude (form : Canonical m e) (above : -149 < e) :
    scale (e + 23) ≤ m * scale e :=
  scale_le_magnitude (form.2.2.resolve_right above.ne') e

theorem Canonical.lt_of_exponent (form : Canonical m e) (form' : Canonical m' e') (less : e < e') :
    m * scale e < m' * scale e' :=
  calc
    m * scale e < scale (e + 24) := form.lt_scale
    _ ≤ scale (e' + 23) := scale_le (by omega)
    _ ≤ m' * scale e' := form'.le_magnitude (lt_of_le_of_lt form.2.1 less)

theorem Canonical.le_iff (form : Canonical m e) (form' : Canonical m' e') :
    m * scale e ≤ m' * scale e' ↔ e < e' ∨ e = e' ∧ m ≤ m' := by
  rcases lt_trichotomy e e' with less | rfl | more
  · exact iff_of_true (form.lt_of_exponent form' less).le (.inl less)
  · rw [mul_le_mul_iff_left₀ (scale_pos e), Nat.cast_le]
    simp
  · refine iff_of_false (not_le_of_gt (form'.lt_of_exponent form more)) ?_
    omega

theorem Canonical.lt_top (form : Canonical m e) (low : e ≤ 104) : m * scale e < scale 128 :=
  form.lt_scale.trans_le (scale_le (by omega))

theorem magnitude_pos (pos : 0 < m) (e : Int) : 0 < m * scale e :=
  mul_pos (Nat.cast_pos.2 pos) (scale_pos e)

end Magnitudes

/-- The values at the places where numbers stand. -/
inductive Stands : Int × Int × Int → ℚ → Prop
  | bottom : Stands (-2, 0, 0) (-scale 128)
  | below {m : Nat} {e : Int} (form : Canonical m e) (low : e ≤ 104) (pos : 0 < m) :
      Stands (-1, -e, -m) (-(m * scale e))
  | zero : Stands (0, 0, 0) 0
  | above {m : Nat} {e : Int} (form : Canonical m e) (low : e ≤ 104) (pos : 0 < m) :
      Stands (1, e, m) (m * scale e)
  | top : Stands (2, 0, 0) (scale 128)

theorem stands {bits : Nat} {u : UnpackedFloat} (found : Unpacks bits u)
    (number : u.isNaN = false) :
    Stands (rank u) (unpackedValue u) := by
  cases u with
  | notANumber => cases number
  | zero sign => exact .zero
  | infinity sign =>
    cases sign with
    | negative => exact .bottom
    | positive => exact .top
  | finite sign m e pos =>
    obtain ⟨form, low⟩ := canonical_of_unpacks found
    cases sign with
    | negative => exact .below form low pos
    | positive => exact .above form low pos

section Standing

variable {a b : Int × Int × Int} {p q : ℚ}

theorem Stands.lt (first : Stands a p) (second : Stands b q) (side : a.1 < b.1) : p < q := by
  have top := scale_pos 128
  cases first with
  | bottom =>
    cases second with
    | bottom => exact absurd side (by decide)
    | below form low pos => exact neg_lt_neg (form.lt_top low)
    | zero | top => linarith
    | above form low pos => linarith [magnitude_pos pos ‹Int›]
  | @below m e form low pos =>
    have below := magnitude_pos pos e
    cases second with
    | bottom | below => exact absurd side (by dsimp only; decide)
    | zero | top => linarith
    | above form' low' pos' => linarith [magnitude_pos pos' ‹Int›]
  | zero =>
    cases second with
    | bottom | below | zero => exact absurd side (by dsimp only; decide)
    | above form low pos => exact magnitude_pos pos _
    | top => exact top
  | above form low pos =>
    cases second with
    | bottom | below | zero | above => exact absurd side (by dsimp only; decide)
    | top => exact form.lt_top low
  | top => cases second <;> exact absurd side (by dsimp only; decide)

/-- Numbers have the order of their values. -/
theorem Stands.le_iff (first : Stands a p) (second : Stands b q) : p ≤ q ↔ Below a b := by
  rcases lt_trichotomy a.1 b.1 with less | same | more
  · exact iff_of_true (first.lt second less).le (.inl less)
  · cases first with
    | bottom =>
      cases second with
      | bottom => exact iff_of_true le_rfl (.inr ⟨rfl, .inr ⟨rfl, le_rfl⟩⟩)
      | below | zero | above | top => exact absurd same (by dsimp only; decide)
    | zero =>
      cases second with
      | zero => exact iff_of_true le_rfl (.inr ⟨rfl, .inr ⟨rfl, le_rfl⟩⟩)
      | bottom | below | above | top => exact absurd same (by dsimp only; decide)
    | top =>
      cases second with
      | top => exact iff_of_true le_rfl (.inr ⟨rfl, .inr ⟨rfl, le_rfl⟩⟩)
      | bottom | below | zero | above => exact absurd same (by dsimp only; decide)
    | below form =>
      cases second with
      | below form' =>
        rw [neg_le_neg_iff, form'.le_iff form]
        dsimp only [Below]
        omega
      | bottom | zero | above | top => exact absurd same (by dsimp only; decide)
    | above form =>
      cases second with
      | above form' =>
        rw [form.le_iff form']
        dsimp only [Below]
        omega
      | bottom | below | zero | top => exact absurd same (by dsimp only; decide)
  · refine iff_of_false (not_le_of_gt (second.lt first more)) ?_
    rw [Below]
    omega

end Standing

section Numbers

variable {x y : Float32}

theorem le_iff_value (left : x.isNaN = false) (right : y.isNaN = false) :
    x ≤ y ↔ value x ≤ value y := by
  have first := stands (unpacks x.toBits.toBitVec) left
  have second := stands (unpacks y.toBits.toBitVec) right
  rw [← unpackedValue_toModel, ← unpackedValue_toModel]
  exact le_iff.trans ((isLE_compare left right).trans (first.le_iff second).symm)

theorem lt_iff_value (left : x.isNaN = false) (right : y.isNaN = false) :
    x < y ↔ value x < value y := by
  rw [← not_le, ← le_iff_value right left]
  exact ⟨fun lt le => not_lt_of_le le lt, lt_of_not_ge left right⟩

theorem abs_signed (negative : Bool) (q : ℚ) : |signed negative q| = |q| := by
  cases negative with
  | true => exact abs_neg q
  | false => rfl

theorem exists_canonical (finite : x.isFinite = true) :
    ∃ negative m e, Canonical m e ∧ e ≤ 104 ∧ value x = signed negative (m * scale e) := by
  have found := unpacks x.toBits.toBitVec
  change Unpacks _ x.toModel.unpack at found
  change x.toModel.unpack.isFinite = true at finite
  rw [← unpackedValue_toModel]
  cases unpacked : x.toModel.unpack with
  | notANumber | infinity =>
    rw [unpacked] at finite
    cases finite
  | zero sign =>
    refine ⟨false, 0, -149, ⟨by decide, le_rfl, .inr rfl⟩, by decide, ?_⟩
    rw [Nat.cast_zero, zero_mul]
    rfl
  | finite sign m e pos =>
    rw [unpacked] at found
    obtain ⟨form, low⟩ := canonical_of_unpacks found
    exact ⟨isNegative sign, m, e, form, low, rfl⟩

theorem isFinite_iff (number : x.isNaN = false) : x.isFinite = true ↔ |value x| < scale 128 := by
  constructor
  · intro finite
    obtain ⟨negative, m, e, form, low, same⟩ := exists_canonical finite
    rw [same, abs_signed, abs_of_nonneg (mul_nonneg m.cast_nonneg (scale_pos e).le)]
    exact form.lt_top low
  · intro inside
    change x.toModel.unpack.isNaN = false at number
    change x.toModel.unpack.isFinite = true
    rw [← unpackedValue_toModel] at inside
    cases unpacked : x.toModel.unpack with
    | notANumber =>
      rw [unpacked] at number
      cases number
    | zero | finite => rfl
    | infinity sign =>
      have top : |unpackedValue (.infinity sign)| = scale 128 :=
        (abs_signed _ _).trans (abs_of_pos (scale_pos 128))
      rw [unpacked, top] at inside
      exact absurd rfl inside.ne

end Numbers

end Folio.Number
