import Folio.Proofs.Number.Value
import Mathlib.Tactic.Ring

/-! # Rounding

What arithmetic does with an exact result: it is cut to the format with two more bits that say
where the cut went, rounded to the nearest mantissa, and packed, which makes an infinite number of
what is too large.
-/

namespace Folio.Number

open Float.Model (Format UnpackedFloat totalExponent)
open Float.Model.UnpackedFloat (Accuracy ExtendedMantissa Sign)

/-- The two bits behind a mantissa say how far a quantity is above it. -/
inductive Represents : ExtendedMantissa → ℚ → Prop
  | exact (m : Nat) : Represents ⟨m, false, false⟩ m
  | less {m : Nat} {u : ℚ} (above : m < u) (below : u < m + 1 / 2) : Represents ⟨m, false, true⟩ u
  | half (m : Nat) : Represents ⟨m, true, false⟩ (m + 1 / 2)
  | more {m : Nat} {u : ℚ} (above : m + 1 / 2 < u) (below : u < m + 1) :
      Represents ⟨m, true, true⟩ u

/-- A whole number that is nearest to a quantity, and even where two of them are. -/
structure NearestEven (u : ℚ) (r : Nat) : Prop where
  below : r - 1 / 2 ≤ u
  above : u ≤ r + 1 / 2
  tie : u = r - 1 / 2 ∨ u = r + 1 / 2 → r % 2 = 0

section Mantissa

variable {em : ExtendedMantissa} {u : ℚ}

theorem Represents.le (held : Represents em u) : em.mantissa ≤ u := by
  cases held with
  | exact m => exact le_rfl
  | less above below => exact above.le
  | half m => linarith
  | more above below => linarith

theorem Represents.lt (held : Represents em u) : u < em.mantissa + 1 := by
  cases held with
  | exact m => exact lt_add_one _
  | less above below => linarith
  | half m => linarith
  | more above below => exact below

theorem shiftRightOne_even (k : Nat) (round sticky : Bool) :
    ExtendedMantissa.shiftRightOne ⟨2 * k, round, sticky⟩ = ⟨k, false, round || sticky⟩ := by
  simp [ExtendedMantissa.shiftRightOne]

theorem shiftRightOne_odd (k : Nat) (round sticky : Bool) :
    ExtendedMantissa.shiftRightOne ⟨2 * k + 1, round, sticky⟩ = ⟨k, true, round || sticky⟩ := by
  have half : (2 * k + 1) / 2 = k := by omega
  simp [ExtendedMantissa.shiftRightOne, half]

theorem Represents.shiftRightOne (held : Represents em u) :
    Represents em.shiftRightOne (u / 2) := by
  have even (k : Nat) : ((2 * k : Nat) : ℚ) = 2 * k := by push_cast; rfl
  have odd (k : Nat) : ((2 * k + 1 : Nat) : ℚ) = 2 * k + 1 := by push_cast; rfl
  cases held with
  | exact m =>
    obtain ⟨k, rfl | rfl⟩ := Nat.even_or_odd' m
    · rw [shiftRightOne_even, even, mul_div_cancel_left₀ _ two_ne_zero]
      exact .exact k
    · rw [shiftRightOne_odd, odd, add_div, mul_div_cancel_left₀ _ two_ne_zero]
      exact .half k
  | @less m u above below =>
    obtain ⟨k, rfl | rfl⟩ := Nat.even_or_odd' m
    · rw [shiftRightOne_even]
      rw [even] at above below
      exact .less (by linarith) (by linarith)
    · rw [shiftRightOne_odd]
      rw [odd] at above below
      exact .more (by linarith) (by linarith)
  | half m =>
    obtain ⟨k, rfl | rfl⟩ := Nat.even_or_odd' m
    · rw [shiftRightOne_even, even]
      exact .less (by linarith) (by linarith)
    · rw [shiftRightOne_odd, odd]
      exact .more (by linarith) (by linarith)
  | @more m u above below =>
    obtain ⟨k, rfl | rfl⟩ := Nat.even_or_odd' m
    · rw [shiftRightOne_even]
      rw [even] at above below
      exact .less (by linarith) (by linarith)
    · rw [shiftRightOne_odd]
      rw [odd] at above below
      exact .more (by linarith) (by linarith)

theorem Represents.shiftRight (held : Represents em u) (n : Nat) :
    Represents (em >>> n) (u * scale (-n)) := by
  change Represents (n.repeat ExtendedMantissa.shiftRightOne em) _
  induction n with
  | zero =>
    have none : u * scale (-(0 : Nat)) = u := by
      rw [Nat.cast_zero, neg_zero, scale, zpow_zero, mul_one]
    rw [none]
    exact held
  | succ n ih =>
    have exponent : -(n : Int) = -(n + 1 : Nat) + 1 := by omega
    have next : u * scale (-(n + 1 : Nat)) = u * scale (-n) / 2 := by
      rw [exponent, scale_succ]
      ring
    rw [next]
    exact ih.shiftRightOne

theorem Represents.nearestEven (held : Represents em u) : NearestEven u em.roundedMantissa := by
  cases held with
  | exact m =>
    change NearestEven m m
    refine ⟨by linarith, by linarith, fun tie => ?_⟩
    rcases tie with tie | tie <;> linarith
  | @less m u above below =>
    change NearestEven u m
    refine ⟨by linarith, by linarith, fun tie => ?_⟩
    rcases tie with tie | tie <;> linarith
  | half m =>
    change NearestEven (m + 1 / 2) (m + m % 2)
    have even : (m + m % 2) % 2 = 0 := by omega
    rcases Nat.mod_two_eq_zero_or_one m with parity | parity
    · rw [parity, Nat.add_zero] at even ⊢
      exact ⟨by linarith, by linarith, fun _ => even⟩
    · rw [parity] at even ⊢
      have next : ((m + 1 : Nat) : ℚ) = m + 1 := Nat.cast_succ m
      exact ⟨by linarith, by linarith, fun _ => even⟩
  | @more m u above below =>
    change NearestEven u (m + 1)
    have next : ((m + 1 : Nat) : ℚ) = m + 1 := Nat.cast_succ m
    refine ⟨by linarith, by linarith, fun tie => ?_⟩
    rcases tie with tie | tie <;> linarith

theorem represents_ofMantissa (m : Nat) :
    Represents (ExtendedMantissa.ofMantissaAndAccuracy m .exact) m := .exact m

end Mantissa

theorem NearestEven.le {u : ℚ} {r k : Nat} (nearest : NearestEven u r) (le : u ≤ k) : r ≤ k := by
  have below := nearest.below
  by_contra more
  have next : ((k + 1 : Nat) : ℚ) ≤ r := Nat.cast_le.2 (Nat.lt_of_not_le more)
  rw [Nat.cast_succ] at next
  linarith

theorem NearestEven.ge {u : ℚ} {r k : Nat} (nearest : NearestEven u r) (le : k ≤ u) : k ≤ r := by
  have above := nearest.above
  by_contra less
  have next : ((r + 1 : Nat) : ℚ) ≤ k := Nat.cast_le.2 (Nat.lt_of_not_le less)
  rw [Nat.cast_succ] at next
  linarith

section Scaling

variable {q d : ℚ} {e : Int}

theorem mul_scale_neg_le : q * scale (-e) ≤ d ↔ q ≤ d * scale e := by
  rw [scale, zpow_neg, ← div_eq_mul_inv, div_le_iff₀ (zpow_pos two_pos e), scale]

theorem le_mul_scale_neg : d ≤ q * scale (-e) ↔ d * scale e ≤ q := by
  rw [scale, zpow_neg, ← div_eq_mul_inv, le_div_iff₀ (zpow_pos two_pos e), scale]

theorem mul_scale_neg (q : ℚ) (e : Int) : q * scale e * scale (-e) = q := by
  rw [mul_assoc, ← scale_add, add_neg_cancel, scale, zpow_zero, mul_one]

theorem two_pow_mul_scale (n : Nat) (e : Int) : ((2 ^ n : Nat) : ℚ) * scale e = scale (e + n) := by
  rw [scale_add, ← scale_natCast, mul_comm]

end Scaling

/-- A quantity `q` is rounded to `r` at the exponent `t`, where it has 24 bits or the exponent is
the lowest. -/
structure Rounds (q : ℚ) (r : Nat) (t : Int) : Prop where
  nonneg : 0 ≤ q
  lowest : -149 ≤ t
  fits : q < scale (t + 24)
  sharp : t = -149 ∨ scale (t + 23) ≤ q
  nearest : NearestEven (q * scale (-t)) r

theorem Rounds.carried {q : ℚ} {r : Nat} {t : Int} (rounds : Rounds q r t) : r ≤ 2 ^ 24 := by
  apply rounds.nearest.le
  rw [mul_scale_neg_le, two_pow_mul_scale]
  exact rounds.fits.le

theorem Rounds.full {q : ℚ} {r : Nat} {t : Int} (rounds : Rounds q r t) :
    2 ^ 23 ≤ r ∨ t = -149 := by
  rcases rounds.sharp with low | above
  · exact .inr low
  · left
    apply rounds.nearest.ge
    rw [le_mul_scale_neg, two_pow_mul_scale]
    exact above

/-- An unpacked number in its one form, which may be too large for the format, and its value. -/
inductive Delivers (sign : Sign) : ℚ → UnpackedFloat → Prop
  | zero : Delivers sign 0 (.zero sign)
  | finite {m : Nat} {e : Int} (form : Canonical m e) (pos : 0 < m) :
      Delivers sign (m * scale e) (.finite sign m e pos)

section Round

variable {m : Nat} {e : Int} {q : ℚ}

/-- The exponent to which a mantissa is cut. -/
def target (m : Nat) (e : Int) : Int := max (m.log2 + 1 + e - 24) (-149)

theorem shiftToTargetExponent_eq (m : Nat) (e : Int) (accuracy : Accuracy) :
    UnpackedFloat.shiftToTargetExponent Format.binary32 m e accuracy =
      (ExtendedMantissa.ofMantissaAndAccuracy m accuracy >>> (target m e - e).toNat,
        e + (target m e - e).toNat) := rfl

theorem scale_log2_le (pos : 0 < m) : scale m.log2 ≤ m := by
  rw [scale_natCast]
  exact Nat.cast_le.2 (Nat.log2_self_le pos.ne')

theorem lt_scale_log2 (m : Nat) : ((m + 1 : Nat) : ℚ) ≤ scale (m.log2 + 1) := by
  rw [← Nat.cast_succ, scale_natCast]
  exact Nat.cast_le.2 Nat.lt_log2_self

/-- Rounding may carry into a bit more than there is room for, and one more shift makes room. -/
theorem delivers_carried {r : Nat} {t : Int} (rounds : Rounds q r t) (sign : Sign) :
    Delivers sign (r * scale t)
      (let (final, exponent) := UnpackedFloat.shiftToTargetExponent Format.binary32 r t .exact
       if h : final.mantissa = 0 then .zero sign
       else .finite sign final.mantissa exponent (Nat.pos_of_ne_zero h)) := by
  rw [shiftToTargetExponent_eq]
  have lowest := rounds.lowest
  rcases rounds.carried.lt_or_eq with fits | rfl
  · have low : target r t ≤ t := by
      have bits : r.log2 < 24 := by
        rcases Nat.eq_zero_or_pos r with rfl | pos
        · decide
        · exact (Nat.log2_lt pos.ne').2 fits
      rw [target]
      omega
    have none : (target r t - t).toNat = 0 := Int.toNat_eq_zero.2 (Int.sub_nonpos_of_le low)
    have exponent : t + (0 : Nat) = t := Int.add_zero t
    rw [none, exponent]
    change Delivers sign (r * scale t)
      (if h : r = 0 then .zero sign else .finite sign r t (Nat.pos_of_ne_zero h))
    by_cases zero : r = 0
    · rw [dif_pos zero, zero, Nat.cast_zero, zero_mul]
      exact .zero
    · rw [dif_neg zero]
      exact .finite ⟨fits, lowest, rounds.full⟩ _
  · have one : (target (2 ^ 24) t - t).toNat = 1 := by
      have bits : (2 ^ 24).log2 = 24 := by decide
      rw [target, bits]
      omega
    have half : ((2 ^ 24 : Nat) : ℚ) * scale t = (2 ^ 23 : Nat) * scale (t + 1) := by
      rw [scale_succ, ← mul_assoc]
      norm_num
    have form : Canonical (2 ^ 23) (t + 1) := ⟨by decide, by omega, .inl le_rfl⟩
    have delivered : Delivers sign _ _ := .finite form (by decide)
    rw [one, half]
    exact delivered

theorem mantissa_ofMantissaAndAccuracy (m : Nat) (accuracy : Accuracy) :
    (ExtendedMantissa.ofMantissaAndAccuracy m accuracy).mantissa = m := by
  cases accuracy with
  | exact => rfl
  | inexact side => cases side <;> rfl

section Held

variable {accuracy : Accuracy}
  (held : Represents (.ofMantissaAndAccuracy m accuracy) (q * scale (-e)))

include held

theorem zero_le_of_represents : 0 ≤ q := by
  have above := held.le
  have zero := (Nat.cast_nonneg _).trans above
  rwa [le_mul_scale_neg, zero_mul] at zero

theorem lt_scale_target : q < scale (target m e + 24) := by
  have below := held.lt
  rw [mantissa_ofMantissaAndAccuracy] at below
  have bits : q * scale (-e) < scale (m.log2 + 1) :=
    below.trans_le ((Nat.cast_succ m).symm.le.trans (lt_scale_log2 m))
  rw [← not_le, le_mul_scale_neg, ← scale_add, not_le] at bits
  refine bits.trans_le (scale_le ?_)
  rw [target]
  omega

theorem scale_target_le (some : 0 < m ∨ e ≤ -126) :
    target m e = -149 ∨ scale (target m e + 23) ≤ q := by
  have above := held.le
  rw [mantissa_ofMantissaAndAccuracy] at above
  rcases (le_max_right (m.log2 + 1 + e - 24) (-149)).eq_or_lt with lowest | more
  · exact .inl lowest.symm
  · right
    have pos : 0 < m := by
      rcases Nat.eq_zero_or_pos m with rfl | pos
      · rw [Nat.log2_zero] at more
        omega
      · exact pos
    have bits : scale m.log2 ≤ q * scale (-e) := (scale_log2_le pos).trans above
    rw [le_mul_scale_neg, ← scale_add] at bits
    refine (scale_le ?_).trans bits
    rw [target]
    omega

theorem delivers_roundWithAccuracy (low : e ≤ target m e) (some : 0 < m ∨ e ≤ -126) (sign : Sign) :
    ∃ r t, Rounds q r t ∧ Delivers sign (r * scale t)
      (UnpackedFloat.roundWithAccuracy Format.binary32 sign m e accuracy) := by
  obtain ⟨n, distance⟩ := Int.eq_ofNat_of_zero_le (Int.sub_nonneg.2 low)
  have exponent : e + n = target m e := by omega
  have cut := held.shiftRight n
  rw [mul_assoc, ← scale_add, ← neg_add, exponent] at cut
  have rounds : Rounds q _ (target m e) :=
    { nonneg := zero_le_of_represents held
      lowest := le_max_right _ _
      fits := lt_scale_target held
      sharp := scale_target_le held some
      nearest := cut.nearestEven }
  have delivered := delivers_carried rounds sign
  refine ⟨_, _, rounds, ?_⟩
  rw [UnpackedFloat.roundWithAccuracy, shiftToTargetExponent_eq, distance, Int.toNat_natCast,
    exponent]
  exact delivered

end Held

end Round

section Pack

theorem isNegative_packComponents (sign : Sign) (exponent : BitVec 8) (mantissa : BitVec 23) :
    isNegative (.ofBitVec (UnpackedFloat.unpackSign
      (UnpackedFloat.packComponents Format.binary32 sign exponent mantissa))) =
      isNegative sign := by
  delta UnpackedFloat.unpackSign
  simp only [UnpackedFloat.packComponents, BitVec.extractLsb]
  rw [BitVec.extractLsb'_append_eq_of_le (by decide),
    BitVec.extractLsb'_append_eq_of_le (by decide)]
  cases sign <;> rfl

theorem unpackedValue_packComponents (sign : Sign) (exponent : BitVec 8) (mantissa : BitVec 23) :
    unpackedValue (UnpackedFloat.unpack Format.binary32
        (UnpackedFloat.packComponents Format.binary32 sign exponent mantissa)) =
      signed (isNegative sign)
        (if exponent.toNat = 2 ^ 8 - 1 then if mantissa.toNat = 0 then scale 128 else 0
        else if exponent.toNat = 0 then mantissa.toNat * scale (-149)
        else (2 ^ 23 + mantissa.toNat : Nat) * scale (exponent.toNat - 150)) := by
  rw [unpackedValue_eq (unpacks _), value_decode, ← isNegative_unpackSign, ← toNat_unpackExponent,
    ← toNat_unpackMantissa, isNegative_packComponents,
    UnpackedFloat.unpackExponent_packComponents, UnpackedFloat.unpackMantissa_packComponents]

section Finite

variable {sign : Sign} {m : Nat} {e : Int} (pos : 0 < m)

theorem pack_eq (sign : Sign) :
    UnpackedFloat.pack Format.binary32 (.finite sign m e pos) =
      if 2 ^ 8 ≤ (e + 150).toNat + 1 then UnpackedFloat.packedInfinity Format.binary32 sign
      else if m.log2 = 23 then
        UnpackedFloat.packComponents Format.binary32 sign (.ofNat 8 (e + 150).toNat) (.ofNat 23 m)
      else UnpackedFloat.packComponents Format.binary32 sign 0 (.ofNat 23 m) := by
  have bias : e + (Format.binary32.exponentBias : Int) + (23 : Nat) = e + 150 := by
    rw [add_assoc]
    rfl
  have bits : m.log2 + 1 = Format.binary32.mantissaBits ↔ m.log2 = 23 := by
    show m.log2 + 1 = 1 + 23 ↔ _
    omega
  delta UnpackedFloat.pack
  simp only [bias, bits]
  rfl

theorem unpackedValue_pack_normal (fits : m < 2 ^ 24) (full : 2 ^ 23 ≤ m) (lowest : -149 ≤ e)
    (low : e ≤ 104) :
    unpackedValue (UnpackedFloat.unpack Format.binary32
      (UnpackedFloat.pack Format.binary32 (.finite sign m e pos))) =
      signed (isNegative sign) (m * scale e) := by
  have bits : m.log2 = 23 := (Nat.log2_eq_iff pos.ne').2 ⟨full, fits⟩
  have field : (BitVec.ofNat 8 (e + 150).toNat).toNat = (e + 150).toNat := by
    rw [BitVec.toNat_ofNat]
    omega
  have fraction : 2 ^ 23 + (BitVec.ofNat 23 m).toNat = m := by
    rw [BitVec.toNat_ofNat]
    omega
  have exponent : ((e + 150).toNat : Int) - 150 = e := by omega
  rw [pack_eq, if_neg (by omega), if_pos bits, unpackedValue_packComponents, field, fraction,
    if_neg (by omega), if_neg (by omega), exponent]

theorem unpackedValue_pack_low (fits : m < 2 ^ 23) :
    unpackedValue (UnpackedFloat.unpack Format.binary32
      (UnpackedFloat.pack Format.binary32 (.finite sign m (-149) pos))) =
      signed (isNegative sign) (m * scale (-149)) := by
  have bits : m.log2 ≠ 23 := ((Nat.log2_lt pos.ne').2 fits).ne
  have fraction : (BitVec.ofNat 23 m).toNat = m := by
    rw [BitVec.toNat_ofNat]
    omega
  rw [pack_eq, if_neg (by decide), if_neg bits, unpackedValue_packComponents, fraction]
  rfl

theorem unpackedValue_pack_large (large : 105 ≤ e) :
    unpackedValue (UnpackedFloat.unpack Format.binary32
      (UnpackedFloat.pack Format.binary32 (.finite sign m e pos))) =
      signed (isNegative sign) (scale 128) := by
  rw [pack_eq, if_pos (by omega)]
  exact unpackedValue_packComponents sign (-1) 0

end Finite

/-- Packing keeps the value of what is not too large, and makes the rest infinite. -/
theorem unpackedValue_pack {sign : Sign} {v : ℚ} {u : UnpackedFloat}
    (delivered : Delivers sign v u) :
    unpackedValue (Float32.Model.pack u).unpack = signed (isNegative sign) (min v (scale 128)) := by
  show unpackedValue (UnpackedFloat.unpack Format.binary32 (UnpackedFloat.pack _ u)) = _
  cases delivered with
  | zero =>
    rw [min_eq_left (scale_pos 128).le, signed_zero]
    refine (unpackedValue_packComponents sign 0 0).trans ?_
    exact (congrArg _ (zero_mul _)).trans (signed_zero _)
  | @finite m e form pos =>
    rcases le_or_gt 105 e with large | low
    · have infinite : scale 128 ≤ m * scale e :=
        (scale_le (by omega)).trans (form.le_magnitude (by omega))
      rw [min_eq_right infinite]
      exact unpackedValue_pack_large pos large
    · rw [min_eq_left (form.lt_top (Int.le_of_lt_add_one low)).le]
      obtain ⟨fits, lowest, full⟩ := form
      by_cases normal : 2 ^ 23 ≤ m
      · exact unpackedValue_pack_normal pos fits normal lowest (Int.le_of_lt_add_one low)
      · obtain rfl : e = -149 := full.resolve_left normal
        exact unpackedValue_pack_low pos (Nat.lt_of_not_le normal)

end Pack

end Folio.Number
