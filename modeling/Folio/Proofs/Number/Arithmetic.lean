import Folio.Proofs.Number.Rounding

/-! # Arithmetic

The results of sums, differences, products and quotients. A result is never on the other side of a
number than the exact one, so a number that is exact is hit, and it is infinite just when the exact
one is beyond half way behind the last finite number.
-/

namespace Folio.Number

open Float.Model (Format UnpackedFloat totalExponent)
open Float.Model.UnpackedFloat (Accuracy ExtendedMantissa Sign)

/-- The values of numbers, with both infinite ones. -/
def OnGrid (v : ℚ) : Prop :=
  |v| ≤ scale 128 ∧ ∃ (k : Nat) (e : Int), k < 2 ^ 24 ∧ -149 ≤ e ∧ |v| = k * scale e

theorem onGrid_zero : OnGrid 0 := by
  refine ⟨?_, 0, 0, by decide, by decide, ?_⟩
  · rw [abs_zero]
    exact (scale_pos 128).le
  · rw [abs_zero, Nat.cast_zero, zero_mul]

theorem onGrid_top : OnGrid (scale 128) := by
  rw [OnGrid, abs_of_pos (scale_pos 128)]
  refine ⟨le_rfl, 2 ^ 23, 105, by decide, by decide, ?_⟩
  exact (two_pow_mul_scale 23 105).symm

theorem onGrid_signed {v : ℚ} (onGrid : OnGrid v) (negative : Bool) :
    OnGrid (signed negative v) := by
  rw [OnGrid, abs_signed]
  exact onGrid

theorem onGrid_magnitude {m : Nat} {e : Int} (form : Canonical m e) (low : e ≤ 104) :
    OnGrid (m * scale e) := by
  have nonneg : 0 ≤ m * scale e := mul_nonneg m.cast_nonneg (scale_pos e).le
  rw [OnGrid, abs_of_nonneg nonneg]
  exact ⟨(form.lt_top low).le, m, e, form.1, form.2.1, rfl⟩

theorem onGrid_value (x : Float32) : OnGrid (value x) := by
  have found := unpacks x.toBits.toBitVec
  change Unpacks _ x.toModel.unpack at found
  rw [← unpackedValue_toModel]
  cases unpacked : x.toModel.unpack with
  | notANumber | zero => exact onGrid_zero
  | infinity sign => exact onGrid_signed onGrid_top _
  | finite sign m e pos =>
    rw [unpacked] at found
    obtain ⟨form, low⟩ := canonical_of_unpacks found
    exact onGrid_signed (onGrid_magnitude form low) _

def limit : ℚ := scale 128 - scale 103

/-- A number is the result for an exact quantity. -/
structure Rounded (q : ℚ) (z : Float32) : Prop where
  number : z.isNaN = false
  le : ∀ v, OnGrid v → q ≤ v → value z ≤ v
  ge : ∀ v, OnGrid v → v ≤ q → v ≤ value z
  finite_iff : z.isFinite = true ↔ |q| < limit
  near : z.isFinite = true → |q - value z| ≤ scale 103

section Bounds

variable {q : ℚ} {r : Nat} {t : Int} {k : Nat} {e : Int}

theorem lt_scale_of_exponent (fits : k < 2 ^ 24) (less : e < t) : k * scale e < scale (t + 23) := by
  have bound : (k : ℚ) < (2 ^ 24 : Nat) := Nat.cast_lt.2 fits
  calc
    k * scale e < (2 ^ 24 : Nat) * scale e := mul_lt_mul_of_pos_right bound (scale_pos e)
    _ = scale (e + 24) := two_pow_mul_scale 24 e
    _ ≤ scale (t + 23) := scale_le (by omega)

theorem Rounds.scale_le_result (rounds : Rounds q r t) (normal : t ≠ -149) :
    scale (t + 23) ≤ r * scale t :=
  scale_le_magnitude (rounds.full.resolve_right normal) t

theorem Rounds.le (rounds : Rounds q r t) (fits : k < 2 ^ 24) (lowest : -149 ≤ e)
    (le : q ≤ k * scale e) : r * scale t ≤ k * scale e := by
  rcases le_or_gt t e with coarse | fine
  · rw [← scale_shift k coarse] at le ⊢
    have whole := rounds.nearest.le (mul_scale_neg_le.2 le)
    exact mul_le_mul_of_nonneg_right (Nat.cast_le.2 whole) (scale_pos t).le
  · have below := lt_scale_of_exponent fits fine
    have above := rounds.sharp.resolve_left (by omega)
    linarith

theorem Rounds.ge (rounds : Rounds q r t) (fits : k < 2 ^ 24) (lowest : -149 ≤ e)
    (ge : k * scale e ≤ q) : k * scale e ≤ r * scale t := by
  rcases le_or_gt t e with coarse | fine
  · rw [← scale_shift k coarse] at ge ⊢
    have whole := rounds.nearest.ge (le_mul_scale_neg.2 ge)
    exact mul_le_mul_of_nonneg_right (Nat.cast_le.2 whole) (scale_pos t).le
  · exact (lt_scale_of_exponent fits fine).le.trans (rounds.scale_le_result (by omega))

theorem top_eq : scale 128 = (2 ^ 24 : Nat) * scale 104 := (two_pow_mul_scale 24 104).symm

theorem limit_eq : limit = (2 ^ 24 - 1 / 2) * scale 104 := by
  have half : scale 104 = 2 * scale 103 := scale_succ 103
  rw [limit, top_eq, half]
  push_cast
  ring

theorem limit_lt : limit < scale 128 := sub_lt_self _ (scale_pos 103)

/-- A result is off by half a step at most. -/
theorem Rounds.near (rounds : Rounds q r t) : |q - r * scale t| ≤ scale (t - 1) := by
  have step : scale t = 2 * scale (t - 1) := by rw [← scale_succ, sub_add_cancel]
  have low := le_mul_scale_neg.1 rounds.nearest.below
  have high := mul_scale_neg_le.1 rounds.nearest.above
  rw [abs_le]
  constructor
  · linarith
  · linarith

theorem Rounds.large (rounds : Rounds q r t) (large : limit ≤ q) : scale 128 ≤ r * scale t := by
  have place : 104 ≤ t := by
    by_contra low
    have below : q < scale 127 := rounds.fits.trans_le (scale_le (by omega))
    have half : scale 128 = 2 * scale 127 := scale_succ 127
    have less : scale 103 < scale 127 := scale_lt (by decide)
    rw [limit] at large
    linarith
  rcases place.eq_or_lt with rfl | higher
  · -- Half way behind the last finite number is a tie, and its mantissa is odd.
    rw [top_eq]
    rw [limit_eq, ← le_mul_scale_neg] at large
    have whole : 2 ^ 24 ≤ r := by
      by_contra less
      have last : ((r + 1 : Nat) : ℚ) ≤ 2 ^ 24 := by
        exact_mod_cast Nat.lt_of_not_le less
      have above := rounds.nearest.above
      have even := rounds.nearest.tie (.inr (by push_cast at last; linarith))
      push_cast at last
      have same : (r : ℚ) + 1 = 2 ^ 24 := by linarith
      have odd : r + 1 = 2 ^ 24 := by exact_mod_cast same
      omega
    exact mul_le_mul_of_nonneg_right (Nat.cast_le.2 whole) (scale_pos 104).le
  · exact (scale_le (by omega)).trans (rounds.scale_le_result (by omega))

theorem Rounds.exponent_le (rounds : Rounds q r t) (small : q < limit) : t ≤ 104 := by
  by_contra high
  have above := rounds.sharp.resolve_left (by omega)
  have large : scale 128 ≤ scale (t + 23) := scale_le (by omega)
  have less := limit_lt
  linarith

theorem Rounds.small (rounds : Rounds q r t) (small : q < limit) : r * scale t < scale 128 := by
  rcases (rounds.exponent_le small).lt_or_eq with lower | rfl
  · have carried : (r : ℚ) ≤ (2 ^ 24 : Nat) := Nat.cast_le.2 rounds.carried
    calc
      r * scale t ≤ (2 ^ 24 : Nat) * scale t := mul_le_mul_of_nonneg_right carried (scale_pos t).le
      _ = scale (t + 24) := two_pow_mul_scale 24 t
      _ < scale 128 := scale_lt (by omega)
  · rw [limit_eq, ← not_le, ← le_mul_scale_neg, not_le] at small
    have below := rounds.nearest.below
    rw [top_eq]
    push_cast
    exact mul_lt_mul_of_pos_right (by linarith) (scale_pos 104)

end Bounds

/-- An exact quantity and what it is rounded to. -/
inductive Delivered : ℚ → UnpackedFloat → Prop
  | of {sign : Sign} {q : ℚ} {r : Nat} {t : Int} {u : UnpackedFloat} (rounds : Rounds q r t)
      (delivers : Delivers sign (r * scale t) u) : Delivered (signed (isNegative sign) q) u

theorem Delivers.isNaN_eq {sign : Sign} {v : ℚ} {u : UnpackedFloat} (delivers : Delivers sign v u) :
    u.isNaN = false := by
  cases delivers <;> rfl

theorem signed_sub (negative : Bool) (p q : ℚ) :
    signed negative p - signed negative q = signed negative (p - q) := by
  cases negative with
  | true => exact neg_sub_neg p q |>.trans (neg_sub p q).symm
  | false => rfl

theorem signed_le {q v : ℚ} {p : ℚ} (nonneg : 0 ≤ q) (p_nonneg : 0 ≤ p) (negative : Bool)
    (above : q ≤ |v| → p ≤ |v|) (below : |v| ≤ q → |v| ≤ p) (le : signed negative q ≤ v) :
    signed negative p ≤ v := by
  cases negative with
  | false =>
    have side : |v| = v := abs_of_nonneg (nonneg.trans le)
    rw [side] at above
    exact above le
  | true =>
    change -q ≤ v at le
    change -p ≤ v
    rcases le_total 0 v with side | side
    · linarith
    · rw [abs_of_nonpos side] at below
      linarith [below (by linarith)]

theorem le_signed {q v : ℚ} {p : ℚ} (nonneg : 0 ≤ q) (p_nonneg : 0 ≤ p) (negative : Bool)
    (above : q ≤ |v| → p ≤ |v|) (below : |v| ≤ q → |v| ≤ p) (le : v ≤ signed negative q) :
    v ≤ signed negative p := by
  have flipped (d : ℚ) : signed (!negative) d = -signed negative d := by
    cases negative with
    | true => exact (neg_neg d).symm
    | false => rfl
  rw [← neg_le_neg_iff, ← flipped] at le ⊢
  rw [← abs_neg] at above below
  exact signed_le nonneg p_nonneg _ above below le

theorem Delivered.rounded {q : ℚ} {u : UnpackedFloat} (delivered : Delivered q u) {z : Float32}
    (packed : z.toModel = .pack u) : Rounded q z := by
  cases delivered with
  | @of sign q r t _ rounds delivers =>
    have number : z.isNaN = false := by
      show z.toModel.unpack.isNaN = false
      rw [packed]
      exact isNaN_pack delivers.isNaN_eq
    have result : value z = signed (isNegative sign) (min (r * scale t) (scale 128)) := by
      rw [← unpackedValue_toModel, packed, unpackedValue_pack delivers]
    have nonneg : 0 ≤ min (r * scale t) (scale 128) :=
      le_min (mul_nonneg r.cast_nonneg (scale_pos t).le) (scale_pos 128).le
    have above {v : ℚ} (onGrid : OnGrid v) (le : q ≤ |v|) :
        min (r * scale t) (scale 128) ≤ |v| := by
      obtain ⟨_, k, e, fits, lowest, same⟩ := onGrid
      rw [same] at le ⊢
      exact (min_le_left _ _).trans (rounds.le fits lowest le)
    have below {v : ℚ} (onGrid : OnGrid v) (le : |v| ≤ q) :
        |v| ≤ min (r * scale t) (scale 128) := by
      obtain ⟨inside, k, e, fits, lowest, same⟩ := onGrid
      rw [same] at le inside ⊢
      exact le_min (rounds.ge fits lowest le) inside
    have finite_iff : z.isFinite = true ↔ q < limit := by
      rw [isFinite_iff number, result, abs_signed, abs_of_nonneg nonneg]
      constructor
      · intro inside
        by_contra large
        rw [min_eq_right (rounds.large (le_of_not_gt large))] at inside
        exact absurd rfl inside.ne
      · intro small
        exact (min_le_left _ _).trans_lt (rounds.small small)
    refine ⟨number, ?_, ?_, ?_, ?_⟩
    · intro v onGrid le
      rw [result]
      exact signed_le rounds.nonneg nonneg _ (above onGrid) (below onGrid) le
    · intro v onGrid le
      rw [result]
      exact le_signed rounds.nonneg nonneg _ (above onGrid) (below onGrid) le
    · rw [abs_signed, abs_of_nonneg rounds.nonneg]
      exact finite_iff
    · intro finite
      have small := finite_iff.1 finite
      have place := rounds.exponent_le small
      rw [result, min_eq_left (rounds.small small).le, signed_sub, abs_signed]
      exact rounds.near.trans (scale_le (by omega))

theorem rounds_zero : Rounds 0 0 (-149) where
  nonneg := le_rfl
  lowest := le_rfl
  fits := scale_pos _
  sharp := .inl rfl
  nearest := by
    rw [zero_mul]
    exact (represents_ofMantissa 0).nearestEven

theorem delivered_zero (sign : Sign) : Delivered 0 (.zero sign) := by
  have delivers : Delivers sign ((0 : Nat) * scale (-149)) (.zero sign) := by
    rw [Nat.cast_zero, zero_mul]
    exact .zero
  have delivered := Delivered.of rounds_zero delivers
  rwa [signed_zero] at delivered

section Exact

variable {m : Nat} {e : Int}

theorem delivered_canonical (form : Canonical m e) (pos : 0 < m) (sign : Sign) :
    Delivered (signed (isNegative sign) (m * scale e)) (.finite sign m e pos) := by
  have rounds : Rounds (m * scale e) m e := by
    refine ⟨mul_nonneg m.cast_nonneg (scale_pos e).le, form.2.1, form.lt_scale, ?_, ?_⟩
    · exact form.2.2.symm.imp_right fun full => scale_le_magnitude full e
    · rw [mul_scale_neg]
      exact (represents_ofMantissa m).nearestEven
  exact .of rounds (.finite form pos)

theorem delivered_roundWithAccuracy {accuracy : Accuracy} {q : ℚ}
    (held : Represents (.ofMantissaAndAccuracy m accuracy) (q * scale (-e)))
    (low : e ≤ target m e) (some : 0 < m ∨ e ≤ -126) (sign : Sign) :
    Delivered (signed (isNegative sign) q)
      (UnpackedFloat.roundWithAccuracy Format.binary32 sign m e accuracy) := by
  obtain ⟨r, t, rounds, delivers⟩ := delivers_roundWithAccuracy held low some sign
  exact .of rounds delivers

theorem delivered_exact (low : e ≤ target m e) (pos : 0 < m) (sign : Sign) :
    Delivered (signed (isNegative sign) (m * scale e))
      (UnpackedFloat.roundWithAccuracy Format.binary32 sign m e .exact) := by
  apply delivered_roundWithAccuracy _ low (.inl pos)
  rw [mul_scale_neg]
  exact represents_ofMantissa m

theorem delivered_round (pos : 0 < m) (e : Int) (sign : Sign) :
    Delivered (signed (isNegative sign) (m * scale e))
      (UnpackedFloat.round Format.binary32 sign m e) := by
  obtain ⟨k, shift⟩ : ∃ k, k = (e - target m e).toNat := ⟨_, rfl⟩
  show Delivered _ (UnpackedFloat.roundWithAccuracy Format.binary32 sign
    (m <<< (e - target m e).toNat) (e - (e - target m e).toNat) .exact)
  rw [← shift, Nat.shiftLeft_eq]
  rcases le_or_gt (target m e) e with long | short
  · have exponent : e - k = target m e := by omega
    have shifted : 0 < m * 2 ^ k := Nat.mul_pos pos (Nat.two_pow_pos k)
    have bits : m.log2 + k ≤ (m * 2 ^ k).log2 := by
      rw [Nat.le_log2 shifted.ne', Nat.pow_add]
      exact Nat.mul_le_mul_right _ (Nat.log2_self_le pos.ne')
    have enough : target m e ≤ target (m * 2 ^ k) (target m e) := by
      simp only [target] at exponent ⊢
      omega
    rw [exponent, ← scale_shift m long, ← shift]
    exact delivered_exact enough shifted sign
  · have none : k = 0 := by omega
    rw [none, Nat.pow_zero, Nat.mul_one, Nat.cast_zero, Int.sub_zero]
    exact delivered_exact short.le pos sign

theorem delivered_normalize (n : Int) (e : Int) (sign : Sign) :
    Delivered (n * scale e) (UnpackedFloat.normalize Format.binary32 n e sign) := by
  rcases lt_trichotomy n 0 with below | rfl | above
  · have magnitude : (n : ℚ) * scale e = signed true ((-n).toNat * scale e) := by
      have same : ((-n).toNat : ℚ) = -n := by
        exact_mod_cast Int.toNat_of_nonneg (neg_nonneg.2 below.le)
      rw [same, signed, if_pos rfl, neg_mul, neg_neg]
    have rounded : UnpackedFloat.normalize Format.binary32 n e sign =
        UnpackedFloat.round Format.binary32 .negative (-n).toNat e := by
      rw [UnpackedFloat.normalize, Int.compare_eq_lt.2 below]
    rw [magnitude, rounded]
    exact delivered_round (by omega) e .negative
  · rw [Int.cast_zero, zero_mul]
    exact delivered_zero sign
  · have magnitude : (n : ℚ) * scale e = signed false (n.toNat * scale e) := by
      have same : (n.toNat : ℚ) = n := by exact_mod_cast Int.toNat_of_nonneg above.le
      rw [same]
      rfl
    have rounded : UnpackedFloat.normalize Format.binary32 n e sign =
        UnpackedFloat.round Format.binary32 .positive n.toNat e := by
      rw [UnpackedFloat.normalize, Int.compare_eq_gt.2 above]
    rw [magnitude, rounded]
    exact delivered_round (by omega) e .positive

end Exact

/-- What a finite number is unpacked to, with its value. -/
inductive Shape : UnpackedFloat → ℚ → Prop
  | zero (sign : Sign) : Shape (.zero sign) 0
  | finite {m : Nat} {e : Int} (form : Canonical m e) (pos : 0 < m) (sign : Sign) :
      Shape (.finite sign m e pos) (signed (isNegative sign) (m * scale e))

theorem shape {x : Float32} (finite : x.isFinite = true) : Shape x.toModel.unpack (value x) := by
  have found := unpacks x.toBits.toBitVec
  change Unpacks _ x.toModel.unpack at found
  change x.toModel.unpack.isFinite = true at finite
  rw [← unpackedValue_toModel]
  cases unpacked : x.toModel.unpack with
  | notANumber | infinity =>
    rw [unpacked] at finite
    cases finite
  | zero sign => exact .zero sign
  | finite sign m e pos =>
    rw [unpacked] at found
    exact .finite (canonical_of_unpacks found).1 pos sign

section Operations

variable {u v : UnpackedFloat} {p q : ℚ}

theorem cast_apply (sign : Sign) (m : Nat) :
    ((sign.apply m : Int) : ℚ) = signed (isNegative sign) m := by
  cases sign with
  | negative => exact Int.cast_neg _ |>.trans (congrArg Neg.neg (Int.cast_natCast m))
  | positive => exact Int.cast_natCast m

theorem signed_mul (negative : Bool) (p q : ℚ) :
    signed negative p * q = signed negative (p * q) := by
  cases negative with
  | true => exact neg_mul p q
  | false => rfl

theorem signed_neg (sign : Sign) (q : ℚ) :
    signed (isNegative (-sign)) q = -signed (isNegative sign) q := by
  cases sign with
  | negative => exact (neg_neg q).symm
  | positive => rfl

theorem signed_mul_signed (sign sign' : Sign) (p q : ℚ) :
    signed (isNegative sign) p * signed (isNegative sign') q =
      signed (isNegative (sign * sign')) (p * q) := by
  cases sign with
  | negative =>
    cases sign' with
    | negative => exact neg_mul_neg p q
    | positive => exact neg_mul p q
  | positive =>
    cases sign' with
    | negative => exact mul_neg p q
    | positive => rfl

theorem signed_div_signed (sign sign' : Sign) (p q : ℚ) :
    signed (isNegative sign) p / signed (isNegative sign') q =
      signed (isNegative (sign / sign')) (p / q) := by
  cases sign with
  | negative =>
    cases sign' with
    | negative => exact neg_div_neg_eq p q
    | positive => exact neg_div q p
  | positive =>
    cases sign' with
    | negative => exact div_neg p
    | positive => rfl

theorem decreased_value (sign : Sign) (m : Nat) {d e : Int} (le : d ≤ e) :
    ((sign.apply (UnpackedFloat.decreaseExponent m e d).1 : Int) : ℚ) * scale d =
      signed (isNegative sign) (m * scale e) := by
  rw [cast_apply, signed_mul, ← scale_shift m le, UnpackedFloat.decreaseExponent,
    Nat.shiftLeft_eq]

theorem delivered_add (left : Shape u p) (right : Shape v q) :
    Delivered (p + q) (UnpackedFloat.add Format.binary32 u v) := by
  cases left with
  | zero sign =>
    rw [zero_add]
    cases right with
    | zero sign' =>
      cases sign <;> cases sign' <;> exact delivered_zero _
    | finite form pos sign' => exact delivered_canonical form pos sign'
  | @finite m e form pos sign =>
    cases right with
    | zero sign' =>
      rw [add_zero]
      exact delivered_canonical form pos sign
    | @finite m' e' form' pos' sign' =>
      have delivered := delivered_normalize
        (sign.apply (UnpackedFloat.decreaseExponent m e (min e e')).1 +
          sign'.apply (UnpackedFloat.decreaseExponent m' e' (min e e')).1) (min e e') .positive
      rw [Int.cast_add, add_mul, decreased_value sign m (min_le_left e e'),
        decreased_value sign' m' (min_le_right e e')] at delivered
      exact delivered

theorem delivered_sub (left : Shape u p) (right : Shape v q) :
    Delivered (p - q) (UnpackedFloat.sub Format.binary32 u v) := by
  cases left with
  | zero sign =>
    rw [zero_sub]
    cases right with
    | zero sign' =>
      rw [neg_zero]
      cases sign <;> cases sign' <;> exact delivered_zero _
    | finite form pos sign' =>
      rw [← signed_neg]
      exact delivered_canonical form pos (-sign')
  | @finite m e form pos sign =>
    cases right with
    | zero sign' =>
      rw [sub_zero]
      exact delivered_canonical form pos sign
    | @finite m' e' form' pos' sign' =>
      have delivered := delivered_normalize
        (sign.apply (UnpackedFloat.decreaseExponent m e (min e e')).1 -
          sign'.apply (UnpackedFloat.decreaseExponent m' e' (min e e')).1) (min e e') .positive
      rw [Int.cast_sub, sub_mul, decreased_value sign m (min_le_left e e'),
        decreased_value sign' m' (min_le_right e e')] at delivered
      exact delivered

theorem le_target {m : Nat} {e : Int} (enough : 2 ^ 23 ≤ m ∨ e ≤ -149) : e ≤ target m e := by
  rw [target]
  rcases enough with full | low
  · have bits : 23 ≤ m.log2 := (Nat.le_log2 (by omega)).2 full
    omega
  · omega

theorem delivered_mul (left : Shape u p) (right : Shape v q) :
    Delivered (p * q) (UnpackedFloat.mul Format.binary32 u v) := by
  cases left with
  | zero sign =>
    rw [zero_mul]
    cases right with
    | zero sign' | finite form pos sign' => exact delivered_zero (sign * sign')
  | @finite m e form pos sign =>
    cases right with
    | zero sign' =>
      rw [mul_zero]
      exact delivered_zero (sign * sign')
    | @finite m' e' form' pos' sign' =>
      have product : signed (isNegative sign) (m * scale e) *
          signed (isNegative sign') (m' * scale e') =
          signed (isNegative (sign * sign')) ((m * m' : Nat) * scale (e + e')) := by
        rw [signed_mul_signed, scale_add, Nat.cast_mul, mul_mul_mul_comm]
      have enough : 2 ^ 23 ≤ m * m' ∨ e + e' ≤ -149 := by
        rcases form.2.2 with full | lowest
        · exact .inl (full.trans (Nat.le_mul_of_pos_right m pos'))
        · rcases form'.2.2 with full' | lowest'
          · exact .inl (full'.trans (Nat.le_mul_of_pos_left m' pos))
          · right
            omega
      rw [product]
      exact delivered_exact (le_target enough) (Nat.mul_pos pos pos') (sign * sign')

theorem represents_div (n : Nat) {d : Nat} (pos : 0 < d) :
    Represents
      (.ofMantissaAndAccuracy (n / d) (UnpackedFloat.accuracyOfFraction (n % d) d))
      (n / d : ℚ) := by
  have d_pos : (0 : ℚ) < d := Nat.cast_pos.2 pos
  have whole : (n : ℚ) / d = (n / d : Nat) + ((n % d : Nat) : ℚ) / d := by
    have split : (n : ℚ) = d * (n / d : Nat) + (n % d : Nat) := by
      exact_mod_cast (Nat.div_add_mod n d).symm
    rw [eq_comm, eq_div_iff d_pos.ne', add_mul, div_mul_cancel₀ _ d_pos.ne', mul_comm, ← split]
  have less : n % d < d := Nat.mod_lt n pos
  rw [whole]
  generalize n / d = k
  generalize n % d = r at less
  have below : (r : ℚ) / d < 1 := (div_lt_one d_pos).2 (Nat.cast_lt.2 less)
  rw [UnpackedFloat.accuracyOfFraction]
  by_cases zero : r = 0
  · rw [if_pos zero, zero, Nat.cast_zero, zero_div, add_zero]
    exact .exact k
  · have above : 0 < (r : ℚ) / d := div_pos (Nat.cast_pos.2 (Nat.pos_of_ne_zero zero)) d_pos
    rw [if_neg zero]
    cases side : compare (2 * r) d with
    | lt =>
      have half : (2 : ℚ) * r < d := by exact_mod_cast Nat.compare_eq_lt.1 side
      have part : (r : ℚ) / d < 1 / 2 := by
        rw [div_lt_div_iff₀ d_pos two_pos]
        linarith
      exact .less (by linarith) (by linarith)
    | eq =>
      have half : (2 : ℚ) * r = d := by exact_mod_cast Nat.compare_eq_eq.1 side
      have part : (r : ℚ) / d = 1 / 2 := by
        rw [div_eq_div_iff d_pos.ne' two_ne_zero]
        linarith
      rw [part]
      exact .half k
    | gt =>
      have half : (d : ℚ) < 2 * r := by exact_mod_cast Nat.compare_eq_gt.1 side
      have part : 1 / 2 < (r : ℚ) / d := by
        rw [div_lt_div_iff₀ two_pos d_pos]
        linarith
      exact .more (by linarith) (by linarith)

/-- Where a quotient is cut to a whole number. -/
def quotientExponent (m : Nat) (e : Int) (m' : Nat) (e' : Int) : Int :=
  min (e - e') (max (m.log2 + 1 + e - (m'.log2 + 1 + e') - 24) (-149))

theorem quotient_enough {m m' : Nat} {e e' : Int} {k : Nat} (pos : 0 < m) (pos' : 0 < m')
    (shift : e - e' - quotientExponent m e m' e' = k) :
    2 ^ 23 ≤ m * 2 ^ k / m' ∨ quotientExponent m e m' e' ≤ -149 := by
  rcases le_or_gt (quotientExponent m e m' e') (-149) with low | high
  · exact .inr low
  · left
    have bits : 24 + m'.log2 ≤ m.log2 + k := by
      rw [quotientExponent] at shift high
      omega
    rw [Nat.le_div_iff_mul_le pos']
    calc
      2 ^ 23 * m' ≤ 2 ^ 23 * 2 ^ (m'.log2 + 1) := Nat.mul_le_mul_left _ Nat.lt_log2_self.le
      _ = 2 ^ (24 + m'.log2) := by rw [← Nat.pow_add]; congr 1; omega
      _ ≤ 2 ^ (m.log2 + k) := Nat.pow_le_pow_right two_pos bits
      _ = 2 ^ m.log2 * 2 ^ k := Nat.pow_add _ _ _
      _ ≤ m * 2 ^ k := Nat.mul_le_mul_right _ (Nat.log2_self_le pos.ne')

theorem delivered_div (left : Shape u p) (right : Shape v q) (nonzero : q ≠ 0) :
    Delivered (p / q) (UnpackedFloat.div Format.binary32 u v) := by
  cases right with
  | zero sign' => exact absurd rfl nonzero
  | @finite m' e' form' pos' sign' =>
    cases left with
    | zero sign =>
      rw [zero_div]
      exact delivered_zero (sign / sign')
    | @finite m e form pos sign =>
      have low : quotientExponent m e m' e' ≤ e - e' := min_le_left _ _
      obtain ⟨k, shift⟩ := Int.eq_ofNat_of_zero_le (Int.sub_nonneg.2 low)
      have enough := quotient_enough pos pos' shift
      have quotient : (m * scale e) / (m' * scale e') * scale (-quotientExponent m e m' e') =
          (m * 2 ^ k : Nat) / m' := by
        have exponent : e = k + quotientExponent m e m' e' + e' := by omega
        have split : m * scale e =
            (m * 2 ^ k : Nat) * scale (quotientExponent m e m' e') * scale e' := by
          conv_lhs => rw [exponent, scale_add, scale_add, scale_natCast]
          push_cast
          ring
        rw [split, mul_div_mul_right _ _ (scale_pos e').ne', div_mul_eq_mul_div, mul_scale_neg]
      have held := represents_div (m * 2 ^ k) pos'
      rw [← quotient] at held
      have some : 0 < m * 2 ^ k / m' ∨ quotientExponent m e m' e' ≤ -126 :=
        enough.imp (fun full => by omega) (fun lowest => by omega)
      have delivered := delivered_roundWithAccuracy held (le_target enough) some (sign / sign')
      rw [signed_div_signed]
      show Delivered _ (UnpackedFloat.roundWithAccuracy Format.binary32 (sign / sign')
        (m <<< (e - e' - quotientExponent m e m' e').toNat / m') (quotientExponent m e m' e')
        (UnpackedFloat.accuracyOfFraction
          (m <<< (e - e' - quotientExponent m e m' e').toNat % m') m'))
      rw [shift, Int.toNat_natCast, Nat.shiftLeft_eq]
      exact delivered

end Operations

section Results

variable {x y : Float32}

theorem rounded_add (left : x.isFinite = true) (right : y.isFinite = true) :
    Rounded (value x + value y) (x + y) :=
  (delivered_add (shape left) (shape right)).rounded rfl

theorem rounded_sub (left : x.isFinite = true) (right : y.isFinite = true) :
    Rounded (value x - value y) (x - y) :=
  (delivered_sub (shape left) (shape right)).rounded rfl

theorem rounded_mul (left : x.isFinite = true) (right : y.isFinite = true) :
    Rounded (value x * value y) (x * y) :=
  (delivered_mul (shape left) (shape right)).rounded rfl

theorem rounded_div (left : x.isFinite = true) (right : y.isFinite = true)
    (nonzero : value y ≠ 0) : Rounded (value x / value y) (x / y) :=
  (delivered_div (shape left) (shape right) nonzero).rounded rfl

theorem Rounded.eq {q : ℚ} {z : Float32} (rounded : Rounded q z) (onGrid : OnGrid q) :
    value z = q :=
  Std.le_antisymm (rounded.le q onGrid le_rfl) (rounded.ge q onGrid le_rfl)

end Results

end Folio.Number
