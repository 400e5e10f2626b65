import Folio.Number.Binary

/-! # Comparison

What is finite has not all ones in its exponent. Two numbers can always be compared, and what is no
number cannot. A product of finite numbers may be infinite, but it is a number. So a test that a
product is not too large fails only when the opposite test succeeds.
-/

namespace Folio.Number

open Float.Model (Format UnpackedFloat)

theorem toNat_unpackExponent (bits : BitVec Format.binary32.numBits) :
    (UnpackedFloat.unpackExponent bits).toNat = bits.toNat / 2 ^ 23 % 2 ^ 8 := by
  simp [UnpackedFloat.unpackExponent, BitVec.extractLsb, Nat.shiftRight_eq_div_pow]

theorem field_ne_of_isFinite {x : Float32} (h : x.isFinite = true) :
    x.toBits.toNat / 2 ^ 23 % 2 ^ 8 ≠ 2 ^ 8 - 1 := by
  intro field
  have ones : @UnpackedFloat.unpackExponent Format.binary32 x.toBits.toBitVec = -1#8 := by
    apply BitVec.eq_of_toNat_eq
    rw [toNat_unpackExponent]
    exact field
  have unpacked : UnpackedFloat.unpack Format.binary32 x.toBits.toBitVec =
      if @UnpackedFloat.unpackMantissa Format.binary32 x.toBits.toBitVec = 0#_ then
        .infinity (.ofBitVec (@UnpackedFloat.unpackSign Format.binary32 x.toBits.toBitVec))
      else .notANumber := if_pos ones
  change (UnpackedFloat.unpack Format.binary32 x.toBits.toBitVec).isFinite = true at h
  rw [unpacked] at h
  split at h <;> cases h

theorem ofSingle_of_isFinite {x : Float32} (h : x.isFinite = true) :
    ∃ negative m, ofSingle x = .finite negative m := by
  have field := field_ne_of_isFinite h
  simp only [ofSingle, decode, beq_iff_eq, field, if_false]
  split
  · exact ⟨_, _, rfl⟩
  · exact ⟨_, _, rfl⟩

theorem beq_self {x : Float32} (h : x.isNaN = false) : (x == x) = true := by
  change (x.toModel.unpack.compare x.toModel.unpack == some .eq) = true
  change x.toModel.unpack.isNaN = false at h
  cases unpacked : x.toModel.unpack with
  | notANumber => rw [unpacked] at h; cases h
  | infinity sign => cases sign <;> rfl
  | zero sign => rfl
  | finite sign mantissa exponent pos =>
    have same : (compare exponent exponent).then (compare mantissa mantissa) = .eq := by
      simp
    cases sign with
    | positive =>
      show (some ((compare exponent exponent).then (compare mantissa mantissa)) == _) = true
      rw [same]
      rfl
    | negative =>
      show (some ((compare exponent exponent).then (compare mantissa mantissa)).swap == _) = true
      rw [same]
      rfl

/-- Only bits with all ones in the exponent and some in the mantissa are no number. -/
theorem isNaN_unpack {bits : BitVec Format.binary32.numBits}
    (number : UnpackedFloat.unpackExponent bits = -1#8 → UnpackedFloat.unpackMantissa bits = 0#23) :
    (UnpackedFloat.unpack Format.binary32 bits).isNaN = false := by
  delta UnpackedFloat.unpack
  dsimp only
  by_cases ones : UnpackedFloat.unpackExponent bits = -1#_
  · rw [if_pos ones, if_pos (number ones)]
    rfl
  · rw [if_neg ones]
    by_cases low : UnpackedFloat.unpackExponent bits = 0#_
    · rw [if_pos low]
      by_cases none : UnpackedFloat.unpackMantissa bits = 0#_
      · rw [dif_pos none]
        rfl
      · rw [dif_neg none]
        rfl
    · rw [if_neg low]
      rfl

theorem isNaN_pack {u : UnpackedFloat} (number : u.isNaN = false) :
    (Float32.Model.pack u).unpack.isNaN = false := by
  apply isNaN_unpack
  show UnpackedFloat.unpackExponent (UnpackedFloat.pack Format.binary32 u) = _ →
    UnpackedFloat.unpackMantissa (UnpackedFloat.pack Format.binary32 u) = _
  cases u with
  | notANumber => cases number
  | infinity sign | zero sign =>
    intro _
    exact UnpackedFloat.unpackMantissa_packComponents
  | finite sign mantissa exponent pos =>
    delta UnpackedFloat.pack
    dsimp only
    split
    · intro _
      exact UnpackedFloat.unpackMantissa_packComponents
    · rename_i small
      split
      · rw [UnpackedFloat.unpackExponent_packComponents]
        intro ones
        have value := congrArg BitVec.toNat ones
        rw [BitVec.toNat_ofNat] at value
        have bound : 2 ^ 8 - 1 ≤ _ := value ▸ Nat.mod_le _ (2 ^ 8)
        exact absurd (Nat.add_le_add_right bound 1) small
      · rw [UnpackedFloat.unpackExponent_packComponents]
        intro ones
        cases ones

theorem isNaN_of_isFinite {x : Float32} (finite : x.isFinite = true) : x.isNaN = false := by
  change x.toModel.unpack.isFinite = true at finite
  change x.toModel.unpack.isNaN = false
  cases unpacked : x.toModel.unpack with
  | notANumber =>
    rw [unpacked] at finite
    cases finite
  | infinity | zero | finite => rfl

theorem isNaN_roundWithAccuracy (sign : UnpackedFloat.Sign) (mantissa : Nat) (exponent : Int)
    (accuracy : UnpackedFloat.Accuracy) :
    (UnpackedFloat.roundWithAccuracy Format.binary32 sign mantissa exponent accuracy).isNaN =
      false := by
  delta UnpackedFloat.roundWithAccuracy
  exact (apply_dite UnpackedFloat.isNaN _ _ _).trans (ite_self false)

theorem isNaN_mul {x y : Float32} (left : x.isFinite = true) (right : y.isFinite = true) :
    (x * y).isNaN = false := by
  change x.toModel.unpack.isFinite = true at left
  change y.toModel.unpack.isFinite = true at right
  show (Float32.Model.pack
    (UnpackedFloat.mul Format.binary32 x.toModel.unpack y.toModel.unpack)).unpack.isNaN = false
  apply isNaN_pack
  generalize x.toModel.unpack = u at left ⊢
  generalize y.toModel.unpack = v at right ⊢
  cases u with
  | notANumber | infinity => cases left
  | zero =>
    cases v with
    | notANumber | infinity => cases right
    | zero | finite => rfl
  | finite =>
    cases v with
    | notANumber | infinity => cases right
    | zero => rfl
    | finite => exact isNaN_roundWithAccuracy ..

section Order

theorem le_iff {x y : Float32} :
    x ≤ y ↔ (x.toModel.unpack.compare y.toModel.unpack).any (·.isLE) = true :=
  decide_eq_true_iff

theorem lt_iff {x y : Float32} :
    x < y ↔ (x.toModel.unpack.compare y.toModel.unpack == some .lt) = true :=
  decide_eq_true_iff

theorem compare_swap (u v : UnpackedFloat) : v.compare u = (u.compare v).map Ordering.swap := by
  cases u with
  | notANumber =>
    cases v with
    | notANumber | zero => rfl
    | infinity sign' | finite sign' => cases sign' <;> rfl
  | infinity sign =>
    cases v with
    | notANumber | zero => cases sign <;> rfl
    | infinity sign' | finite sign' => cases sign <;> cases sign' <;> rfl
  | zero =>
    cases v with
    | notANumber | zero => rfl
    | infinity sign' | finite sign' => cases sign' <;> rfl
  | finite sign m e pos =>
    cases v with
    | notANumber | zero => cases sign <;> rfl
    | infinity sign' => cases sign <;> cases sign' <;> rfl
    | finite sign' m' e' pos' =>
      have same : (compare e' e).then (compare m' m) =
          ((compare e e').then (compare m m')).swap := by
        rw [Ordering.swap_then, ← Std.OrientedCmp.eq_swap, ← Std.OrientedCmp.eq_swap]
      cases sign with
      | negative =>
        cases sign' with
        | negative => exact congrArg (fun o => some o.swap) same
        | positive => rfl
      | positive =>
        cases sign' with
        | negative => rfl
        | positive => exact congrArg some same

theorem lt_irrefl (x : Float32) : ¬ x < x := by
  rw [lt_iff]
  intro less
  have swapped := compare_swap x.toModel.unpack x.toModel.unpack
  rw [eq_of_beq less] at swapped
  cases swapped

theorem exists_compare {u v : UnpackedFloat} (left : u.isNaN = false) (right : v.isNaN = false) :
    ∃ o, u.compare v = some o := by
  cases u with
  | notANumber => cases left
  | infinity sign =>
    cases v with
    | notANumber => cases right
    | infinity sign' => exact ⟨_, rfl⟩
    | zero | finite => cases sign <;> exact ⟨_, rfl⟩
  | zero =>
    cases v with
    | notANumber => cases right
    | zero => exact ⟨_, rfl⟩
    | infinity sign' | finite sign' => cases sign' <;> exact ⟨_, rfl⟩
  | finite sign =>
    cases v with
    | notANumber => cases right
    | zero => cases sign <;> exact ⟨_, rfl⟩
    | infinity sign' | finite sign' => cases sign <;> cases sign' <;> exact ⟨_, rfl⟩

theorem lt_of_not_ge {x y : Float32} (left : x.isNaN = false) (right : y.isNaN = false)
    (less : ¬ x ≥ y) : x < y := by
  obtain ⟨o, compared⟩ := exists_compare (u := x.toModel.unpack) (v := y.toModel.unpack) left right
  rw [lt_iff, compared]
  rw [ge_iff_le, le_iff, compare_swap x.toModel.unpack, compared] at less
  cases o with
  | lt => rfl
  | eq | gt => exact absurd rfl less

/-- Where a number stands: its side of zero, then its exponent, then its mantissa. -/
def rank : UnpackedFloat → Int × Int × Int
  | .notANumber => (0, 0, 0)
  | .infinity .negative => (-2, 0, 0)
  | .finite .negative m e _ => (-1, -e, -m)
  | .zero _ => (0, 0, 0)
  | .finite .positive m e _ => (1, e, m)
  | .infinity .positive => (2, 0, 0)

def Below (a b : Int × Int × Int) : Prop :=
  a.1 < b.1 ∨ a.1 = b.1 ∧ (a.2.1 < b.2.1 ∨ a.2.1 = b.2.1 ∧ a.2.2 ≤ b.2.2)

theorem isLE_then_compare (e e' : Int) (m m' : Nat) :
    ((compare e e').then (compare m m')).isLE = true ↔ e < e' ∨ e = e' ∧ m ≤ m' := by
  rcases Int.lt_trichotomy e e' with less | rfl | more
  · simp [Int.compare_eq_lt.2 less, less]
  · simp [Nat.isLE_compare]
  · rw [Int.compare_eq_gt.2 more]
    refine iff_of_false Bool.false_ne_true ?_
    omega

section

variable {u v : UnpackedFloat}

theorem isLE_of_lower (compared : u.compare v = some .lt) (side : (rank u).1 < (rank v).1) :
    (u.compare v).any (·.isLE) = true ↔ Below (rank u) (rank v) := by
  rw [compared]
  exact iff_of_true rfl (.inl side)

theorem isLE_of_level (compared : u.compare v = some .eq) (same : rank u = rank v) :
    (u.compare v).any (·.isLE) = true ↔ Below (rank u) (rank v) := by
  rw [compared, same]
  exact iff_of_true rfl (.inr ⟨rfl, .inr ⟨rfl, Int.le_refl _⟩⟩)

theorem isLE_of_higher (compared : u.compare v = some .gt) (side : (rank v).1 < (rank u).1) :
    (u.compare v).any (·.isLE) = true ↔ Below (rank u) (rank v) := by
  rw [compared]
  refine iff_of_false Bool.false_ne_true ?_
  rw [Below]
  omega

/-- One number is at most another just if it stands no higher. -/
theorem isLE_compare (left : u.isNaN = false) (right : v.isNaN = false) :
    (u.compare v).any (·.isLE) = true ↔ Below (rank u) (rank v) := by
  cases u with
  | notANumber => cases left
  | zero =>
    cases v with
    | notANumber => cases right
    | zero => exact isLE_of_level rfl rfl
    | infinity sign' | finite sign' =>
      cases sign' with
      | negative => exact isLE_of_higher rfl (by dsimp only [rank]; decide)
      | positive => exact isLE_of_lower rfl (by dsimp only [rank]; decide)
  | infinity sign =>
    cases v with
    | notANumber => cases right
    | zero =>
      cases sign with
      | negative => exact isLE_of_lower rfl (by dsimp only [rank]; decide)
      | positive => exact isLE_of_higher rfl (by dsimp only [rank]; decide)
    | finite sign' =>
      cases sign with
      | negative => cases sign' <;> exact isLE_of_lower rfl (by dsimp only [rank]; decide)
      | positive => cases sign' <;> exact isLE_of_higher rfl (by dsimp only [rank]; decide)
    | infinity sign' =>
      cases sign with
      | negative =>
        cases sign' with
        | negative => exact isLE_of_level rfl rfl
        | positive => exact isLE_of_lower rfl (by decide)
      | positive =>
        cases sign' with
        | negative => exact isLE_of_higher rfl (by decide)
        | positive => exact isLE_of_level rfl rfl
  | finite sign m e =>
    cases v with
    | notANumber => cases right
    | zero =>
      cases sign with
      | negative => exact isLE_of_lower rfl (by dsimp only [rank]; decide)
      | positive => exact isLE_of_higher rfl (by dsimp only [rank]; decide)
    | infinity sign' =>
      cases sign' with
      | negative => cases sign <;> exact isLE_of_higher rfl (by dsimp only [rank]; decide)
      | positive => cases sign <;> exact isLE_of_lower rfl (by dsimp only [rank]; decide)
    | finite sign' m' e' =>
      cases sign with
      | negative =>
        cases sign' with
        | negative =>
          -- Below zero the larger exponent or mantissa is that of the smaller number.
          have swapped : ((compare e e').then (compare m m')).swap =
              (compare e' e).then (compare m' m) := by
            rw [Ordering.swap_then, ← Std.OrientedCmp.eq_swap, ← Std.OrientedCmp.eq_swap]
          change ((compare e e').then (compare m m')).swap.isLE = true ↔
            Below (-1, -e, -m) (-1, -e', -m')
          rw [swapped, isLE_then_compare]
          dsimp only [Below]
          omega
        | positive => exact isLE_of_lower rfl (by dsimp only [rank]; decide)
      | positive =>
        cases sign' with
        | negative => exact isLE_of_higher rfl (by dsimp only [rank]; decide)
        | positive =>
          change ((compare e e').then (compare m m')).isLE = true ↔ Below (1, e, m) (1, e', m')
          rw [isLE_then_compare]
          dsimp only [Below]
          omega

theorem isNaN_of_compare {o : Ordering} (compared : u.compare v = some o) :
    u.isNaN = false ∧ v.isNaN = false := by
  cases u with
  | notANumber => cases v <;> cases compared
  | zero =>
    cases v with
    | notANumber => cases compared
    | zero | infinity | finite => exact ⟨rfl, rfl⟩
  | infinity sign | finite sign =>
    cases v with
    | notANumber => cases sign <;> cases compared
    | zero | infinity | finite => exact ⟨rfl, rfl⟩

end

theorem isNaN_of_le {x y : Float32} (le : x ≤ y) : x.isNaN = false ∧ y.isNaN = false := by
  obtain ⟨o, compared, _⟩ := (Option.any_eq_true _ _).1 (le_iff.1 le)
  exact isNaN_of_compare compared

theorem le_trans {x y z : Float32} (first : x ≤ y) (second : y ≤ z) : x ≤ z := by
  obtain ⟨left, middle⟩ := isNaN_of_le first
  obtain ⟨_, right⟩ := isNaN_of_le second
  have low := (isLE_compare left middle).1 (le_iff.1 first)
  have high := (isLE_compare middle right).1 (le_iff.1 second)
  refine le_iff.2 ((isLE_compare left right).2 ?_)
  rw [Below] at low high ⊢
  omega

theorem not_lt_of_le {x y : Float32} (le : x ≤ y) : ¬ y < x := by
  rw [lt_iff, compare_swap x.toModel.unpack]
  rw [le_iff] at le
  cases compared : x.toModel.unpack.compare y.toModel.unpack with
  | none => simp
  | some o =>
    rw [compared] at le
    cases o with
    | lt | eq => decide
    | gt => cases le

theorem isNaN_lesser {x y : Float32} (left : x.isNaN = false) (right : y.isNaN = false) :
    (lesser x y).isNaN = false := by
  rw [lesser, left, right]
  by_cases less : x < y
  · simp only [less, Bool.false_eq_true, if_false, if_true, left]
  · simp only [less, Bool.false_eq_true, if_false, right]

end Order

end Folio.Number
