import Folio.Proofs.Number.Arithmetic

/-! # Lengths

Sums, differences, products and quotients of numbers that are not negative and may be infinite.
Such a sum is finite only if both parts are and then also for smaller parts. A difference of
different finite numbers is never zero.
-/

namespace Folio.Number

open Float.Model (Format UnpackedFloat)
open Float.Model.UnpackedFloat (Sign)

section Values

variable {x y : Float32}

theorem value_eq_of_ofSingle {d : Decoded} (decoded : ofSingle x = d) : value x = d.value :=
  congrArg Decoded.value decoded

theorem value_zero : value 0 = 0 := by
  rw [value_eq_of_ofSingle (d := .finite false ⟨0, -149, false⟩) (by decide +kernel)]
  exact zero_mul _

theorem isNaN_zero : (0 : Float32).isNaN = false := by decide +kernel

theorem value_unit (decoded : ofSingle x = .finite false ⟨2 ^ 23, -23, true⟩) : value x = 1 := by
  rw [value_eq_of_ofSingle decoded]
  exact (two_pow_mul_scale 23 (-23)).trans (zpow_zero 2)

theorem value_one : value 1 = 1 := value_unit (by decide +kernel)

theorem value_two : value 2 = 2 := by
  rw [value_eq_of_ofSingle (d := .finite false ⟨2 ^ 23, -22, true⟩) (by decide +kernel)]
  exact (two_pow_mul_scale 23 (-22)).trans (zpow_one 2)

theorem isNaN_of_lt (less : x < y) : x.isNaN = false ∧ y.isNaN = false := by
  exact isNaN_of_compare (eq_of_beq (lt_iff.1 less))

theorem zero_le_iff : 0 ≤ x ↔ x.isNaN = false ∧ 0 ≤ value x := by
  constructor
  · intro nonneg
    have number := (isNaN_of_le nonneg).2
    rw [le_iff_value isNaN_zero number, value_zero] at nonneg
    exact ⟨number, nonneg⟩
  · rintro ⟨number, nonneg⟩
    rwa [le_iff_value isNaN_zero number, value_zero]

theorem zero_lt_iff : 0 < x ↔ x.isNaN = false ∧ 0 < value x := by
  constructor
  · intro pos
    have number := (isNaN_of_lt pos).2
    rw [lt_iff_value isNaN_zero number, value_zero] at pos
    exact ⟨number, pos⟩
  · rintro ⟨number, pos⟩
    rwa [lt_iff_value isNaN_zero number, value_zero]

theorem nonneg_of_pos (pos : 0 < x) : 0 ≤ x := by
  obtain ⟨number, pos⟩ := zero_lt_iff.1 pos
  exact zero_le_iff.2 ⟨number, pos.le⟩

theorem le_of_not_gt (left : x.isNaN = false) (right : y.isNaN = false) (less : ¬ y < x) :
    x ≤ y := by
  by_contra more
  exact less (lt_of_not_ge right left more)

theorem le_self (number : x.isNaN = false) : x ≤ x :=
  le_of_not_gt number number (lt_irrefl x)

/-- What is less than the smaller of two is less than both, but what is no number does not count. -/
theorem of_lt_lesser {z : Float32} (less : z < lesser x y) :
    (x.isNaN = true ∧ z < y) ∨ (y.isNaN = true ∧ z < x) ∨ (z < x ∧ z < y) := by
  rw [lesser] at less
  cases left : x.isNaN with
  | true =>
    rw [left, if_pos rfl] at less
    exact .inl ⟨rfl, less⟩
  | false =>
    cases right : y.isNaN with
    | true =>
      rw [left, right, if_neg Bool.false_ne_true, if_pos rfl] at less
      exact .inr (.inl ⟨rfl, less⟩)
    | false =>
      rw [left, right, if_neg Bool.false_ne_true, if_neg Bool.false_ne_true] at less
      refine .inr (.inr ?_)
      by_cases smaller : x < y
      · rw [if_pos smaller] at less
        have number := (isNaN_of_lt less).1
        refine ⟨less, ?_⟩
        rw [lt_iff_value left right] at smaller
        rw [lt_iff_value number left] at less
        rw [lt_iff_value number right]
        exact less.trans smaller
      · rw [if_neg smaller] at less
        have number := (isNaN_of_lt less).1
        refine ⟨?_, less⟩
        rw [lt_iff_value left right, not_lt] at smaller
        rw [lt_iff_value number right] at less
        rw [lt_iff_value number left]
        exact less.trans_le smaller

theorem abs_value_le (finite : x.isFinite = true) : |value x| ≤ scale 128 - scale 104 := by
  obtain ⟨negative, m, e, form, low, same⟩ := exists_canonical finite
  have fits : (m : ℚ) ≤ 2 ^ 24 - 1 := by
    rw [le_sub_iff_add_le]
    exact_mod_cast form.1
  rw [same, abs_signed, abs_of_nonneg (mul_nonneg m.cast_nonneg (scale_pos e).le)]
  calc
    m * scale e ≤ m * scale 104 := mul_le_mul_of_nonneg_left (scale_le low) m.cast_nonneg
    _ ≤ (2 ^ 24 - 1) * scale 104 := mul_le_mul_of_nonneg_right fits (scale_pos 104).le
    _ = scale 128 - scale 104 := by
      rw [top_eq]
      push_cast
      ring

theorem abs_value_lt (finite : x.isFinite = true) : |value x| < limit := by
  have last := abs_value_le finite
  have less : scale 103 < scale 104 := scale_lt (by decide)
  rw [limit]
  linarith

theorem isFinite_of_le (nonneg : 0 ≤ x) (le : x ≤ y) (finite : y.isFinite = true) :
    x.isFinite = true := by
  obtain ⟨left, right⟩ := isNaN_of_le le
  have bound := (isFinite_iff right).1 finite
  rw [le_iff_value left right] at le
  have nonneg := (zero_le_iff.1 nonneg).2
  rw [isFinite_iff left, abs_of_nonneg nonneg]
  exact le.trans_lt ((le_abs_self _).trans_lt bound)

end Values

section Infinite

variable {x y : Float32}

theorem unpack_of_infinite (nonneg : 0 ≤ x) (infinite : x.isFinite = false) :
    x.toModel.unpack = .infinity .positive := by
  obtain ⟨number, side⟩ := zero_le_iff.1 nonneg
  change x.toModel.unpack.isNaN = false at number
  change x.toModel.unpack.isFinite = false at infinite
  rw [← unpackedValue_toModel] at side
  cases unpacked : x.toModel.unpack with
  | notANumber =>
    rw [unpacked] at number
    cases number
  | zero | finite =>
    rw [unpacked] at infinite
    cases infinite
  | infinity sign =>
    cases sign with
    | positive => rfl
    | negative =>
      rw [unpacked] at side
      exact absurd side (not_le_of_gt (neg_neg_of_pos (scale_pos 128)))

theorem unpack_pack_infinity (sign : Sign) :
    (Float32.Model.pack (.infinity sign)).unpack = .infinity sign := by
  cases sign <;> rfl

theorem infinite_of_packed {z : Float32} {sign : Sign}
    (packed : z.toModel = .pack (.infinity sign)) :
    z.isNaN = false ∧ z.isFinite = false ∧ value z = signed (isNegative sign) (scale 128) := by
  have unpacked : z.toModel.unpack = .infinity sign := packed ▸ unpack_pack_infinity sign
  refine ⟨?_, ?_, ?_⟩
  · show z.toModel.unpack.isNaN = false
    rw [unpacked]
    rfl
  · show z.toModel.unpack.isFinite = false
    rw [unpacked]
    rfl
  · rw [← unpackedValue_toModel, unpacked]
    rfl

theorem isFinite_or_infinite (nonneg : 0 ≤ x) :
    x.isFinite = true ∨ x.toModel.unpack = .infinity .positive := by
  cases finite : x.isFinite with
  | true => exact .inl rfl
  | false => exact .inr (unpack_of_infinite nonneg finite)

section Unpacked

variable {u : UnpackedFloat} {p : ℚ}

theorem Shape.add_infinity (form : Shape u p) :
    UnpackedFloat.add Format.binary32 u (.infinity .positive) = .infinity .positive := by
  cases form <;> rfl

theorem Shape.infinity_add (form : Shape u p) :
    UnpackedFloat.add Format.binary32 (.infinity .positive) u = .infinity .positive := by
  cases form <;> rfl

theorem Shape.sub_infinity (form : Shape u p) :
    UnpackedFloat.sub Format.binary32 u (.infinity .positive) = .infinity .negative := by
  cases form <;> rfl

theorem Shape.div_infinity (form : Shape u p) :
    ∃ sign, UnpackedFloat.div Format.binary32 u (.infinity .positive) = .zero sign := by
  cases form <;> exact ⟨_, rfl⟩

theorem Shape.infinity_div (form : Shape u p) (pos : 0 < p) :
    UnpackedFloat.div Format.binary32 (.infinity .positive) u = .infinity .positive := by
  cases form with
  | zero => exact absurd rfl pos.ne
  | @finite m e _ mantissa_pos sign =>
    cases sign with
    | positive => rfl
    | negative => exact absurd pos (not_lt_of_gt (neg_neg_of_pos (magnitude_pos mantissa_pos e)))

theorem Shape.infinity_mul (form : Shape u p) (pos : 0 < p) :
    UnpackedFloat.mul Format.binary32 (.infinity .positive) u = .infinity .positive := by
  cases form with
  | zero => exact absurd rfl pos.ne
  | @finite m e _ mantissa_pos sign =>
    cases sign with
    | positive => rfl
    | negative => exact absurd pos (not_lt_of_gt (neg_neg_of_pos (magnitude_pos mantissa_pos e)))

end Unpacked

theorem value_le_top (x : Float32) : value x ≤ scale 128 :=
  (le_abs_self _).trans (onGrid_value x).1

theorem add_infinite (left : 0 ≤ x) (right : 0 ≤ y)
    (infinite : x.isFinite = true → y.isFinite = false) :
    (x + y).toModel = .pack (.infinity .positive) := by
  show Float32.Model.pack (UnpackedFloat.add _ x.toModel.unpack y.toModel.unpack) = _
  rcases isFinite_or_infinite left with finite | unpacked
  · rw [unpack_of_infinite right (infinite finite), (shape finite).add_infinity]
  · rw [unpacked]
    rcases isFinite_or_infinite right with finite | unpacked'
    · rw [(shape finite).infinity_add]
    · rw [unpacked']
      rfl

theorem isFinite_of_mul_lt {z : Float32} (left : 0 ≤ x) (finite' : y.isFinite = true)
    (pos : 0 < value y) (less : x * y < z) : x.isFinite = true := by
  by_contra infinite
  have packed : (x * y).toModel = .pack (.infinity .positive) := by
    show Float32.Model.pack (UnpackedFloat.mul _ x.toModel.unpack y.toModel.unpack) = _
    rw [unpack_of_infinite left (Bool.eq_false_iff.2 infinite), (shape finite').infinity_mul pos]
  obtain ⟨number, -, top⟩ := infinite_of_packed packed
  rw [lt_iff_value number (isNaN_of_lt less).2, top] at less
  exact absurd (value_le_top z) (not_le_of_gt less)

theorem sub_not_finite {u : UnpackedFloat} (v : UnpackedFloat) (infinite : u.isFinite = false) :
    UnpackedFloat.sub Format.binary32 u v = .notANumber ∨
      ∃ sign, UnpackedFloat.sub Format.binary32 u v = .infinity sign := by
  cases u with
  | zero | finite => cases infinite
  | notANumber =>
    left
    cases v <;> rfl
  | infinity sign =>
    cases v with
    | notANumber => exact .inl rfl
    | zero | finite => exact .inr ⟨sign, rfl⟩
    | infinity sign' =>
      cases sign <;> cases sign'
      · exact .inl rfl
      · exact .inr ⟨_, rfl⟩
      · exact .inr ⟨_, rfl⟩
      · exact .inl rfl

theorem isFinite_of_sub (finite : (x - y).isFinite = true) : x.isFinite = true := by
  by_contra infinite
  change (Float32.Model.pack (UnpackedFloat.sub Format.binary32 x.toModel.unpack
    y.toModel.unpack)).unpack.isFinite = true at finite
  rcases sub_not_finite y.toModel.unpack (Bool.eq_false_iff.2 infinite) with nan | ⟨sign, infinity⟩
  · rw [nan] at finite
    cases finite
  · rw [infinity, unpack_pack_infinity] at finite
    cases finite

end Infinite

section Sums

variable {x y x' y' : Float32}

theorem Rounded.zero_le {q : ℚ} {z : Float32} (rounded : Rounded q z) (nonneg : 0 ≤ q) : 0 ≤ z :=
  zero_le_iff.2 ⟨rounded.number, rounded.ge 0 onGrid_zero nonneg⟩

theorem zero_le_add (left : 0 ≤ x) (right : 0 ≤ y) : 0 ≤ x + y := by
  by_cases finite : x.isFinite = true ∧ y.isFinite = true
  · exact (rounded_add finite.1 finite.2).zero_le
      (add_nonneg (zero_le_iff.1 left).2 (zero_le_iff.1 right).2)
  · have infinite (finite' : x.isFinite = true) : y.isFinite = false :=
      Bool.eq_false_iff.2 fun h => finite ⟨finite', h⟩
    obtain ⟨number, -, top⟩ := infinite_of_packed (add_infinite left right infinite)
    exact zero_le_iff.2 ⟨number, top ▸ (scale_pos 128).le⟩

theorem isFinite_of_add (left : 0 ≤ x) (right : 0 ≤ y) (finite : (x + y).isFinite = true) :
    x.isFinite = true ∧ y.isFinite = true := by
  by_contra none
  have infinite (finite' : x.isFinite = true) : y.isFinite = false :=
    Bool.eq_false_iff.2 fun h => none ⟨finite', h⟩
  obtain ⟨-, infinite, -⟩ := infinite_of_packed (add_infinite left right infinite)
  rw [finite] at infinite
  cases infinite

theorem isFinite_add_of_le (left : 0 ≤ x) (right : 0 ≤ y) (left_le : x ≤ x') (right_le : y ≤ y')
    (finite : (x' + y').isFinite = true) : (x + y).isFinite = true := by
  have nonneg := (zero_le_iff.1 left).2
  have nonneg' := (zero_le_iff.1 right).2
  obtain ⟨finite_left, finite_right⟩ :=
    isFinite_of_add (le_trans left left_le) (le_trans right right_le) finite
  have first := isFinite_of_le left left_le finite_left
  have second := isFinite_of_le right right_le finite_right
  have below := (rounded_add finite_left finite_right).finite_iff.1 finite
  rw [le_iff_value (isNaN_of_isFinite first) (isNaN_of_isFinite finite_left)] at left_le
  rw [le_iff_value (isNaN_of_isFinite second) (isNaN_of_isFinite finite_right)] at right_le
  rw [(rounded_add first second).finite_iff, abs_of_nonneg (add_nonneg nonneg nonneg')]
  exact (add_le_add left_le right_le).trans_lt ((le_abs_self _).trans_lt below)

theorem sub_le (finite : x.isFinite = true) (right : 0 ≤ y) : x - y ≤ x := by
  have number := isNaN_of_isFinite finite
  cases finite' : y.isFinite with
  | true =>
    have rounded := rounded_sub finite finite'
    rw [le_iff_value rounded.number number]
    exact rounded.le _ (onGrid_value x) (sub_le_self _ (zero_le_iff.1 right).2)
  | false =>
    have packed : (x - y).toModel = .pack (.infinity .negative) := by
      show Float32.Model.pack (UnpackedFloat.sub _ x.toModel.unpack y.toModel.unpack) = _
      rw [unpack_of_infinite right finite', (shape finite).sub_infinity]
    obtain ⟨number', -, bottom⟩ := infinite_of_packed packed
    rw [le_iff_value number' number, bottom]
    exact (abs_lt.1 ((isFinite_iff number).1 finite)).1.le

theorem isFinite_sub (left : 0 ≤ x) (finite : x.isFinite = true) (right : 0 ≤ y)
    (finite' : y.isFinite = true) : (x - y).isFinite = true := by
  have nonneg := (zero_le_iff.1 left).2
  have nonneg' := (zero_le_iff.1 right).2
  rw [(rounded_sub finite finite').finite_iff, abs_lt]
  have below := (abs_lt.1 (abs_value_lt finite)).2
  have below' := (abs_lt.1 (abs_value_lt finite')).2
  constructor
  · linarith
  · linarith

/-- Finite numbers are whole multiples of the smallest of them. -/
theorem exists_multiple (finite : x.isFinite = true) :
    ∃ n : Int, value x = n * scale (-149) := by
  obtain ⟨negative, m, e, form, -, same⟩ := exists_canonical finite
  rw [same, ← scale_shift m form.2.1]
  generalize m * 2 ^ (e - -149).toNat = n
  cases negative with
  | true =>
    refine ⟨-n, ?_⟩
    rw [Int.cast_neg, Int.cast_natCast, neg_mul]
    rfl
  | false =>
    refine ⟨n, ?_⟩
    rw [Int.cast_natCast]
    rfl

theorem onGrid_smallest : OnGrid (scale (-149)) := by
  rw [OnGrid, abs_of_pos (scale_pos _)]
  refine ⟨scale_le (by decide), 1, -149, by decide, le_rfl, ?_⟩
  rw [Nat.cast_one, one_mul]

theorem zero_lt_sub (finite : x.isFinite = true) (finite' : y.isFinite = true) (less : y < x) :
    0 < x - y := by
  have rounded := rounded_sub finite finite'
  rw [lt_iff_value (isNaN_of_isFinite finite') (isNaN_of_isFinite finite)] at less
  obtain ⟨n, same⟩ := exists_multiple finite
  obtain ⟨n', same'⟩ := exists_multiple finite'
  have apart : n' < n := by
    rw [same, same', mul_lt_mul_iff_left₀ (scale_pos _)] at less
    exact_mod_cast less
  have step : scale (-149) ≤ value x - value y := by
    have one : (1 : ℚ) ≤ n - n' := by
      rw [← Int.cast_sub]
      exact_mod_cast Int.sub_pos_of_lt apart
    rw [same, same', ← sub_mul]
    exact le_mul_of_one_le_left (scale_pos _).le one
  exact zero_lt_iff.2 ⟨rounded.number, (scale_pos _).trans_le (rounded.ge _ onGrid_smallest step)⟩

end Sums

section Products

variable {x y : Float32}

theorem zero_le_mul (left : 0 ≤ x) (finite : x.isFinite = true) (right : 0 ≤ y)
    (finite' : y.isFinite = true) : 0 ≤ x * y :=
  (rounded_mul finite finite').zero_le (mul_nonneg (zero_le_iff.1 left).2 (zero_le_iff.1 right).2)

theorem mul_le_self (left : 0 ≤ x) (finite : x.isFinite = true) (finite' : y.isFinite = true)
    (le : value y ≤ 1) : x * y ≤ x := by
  have rounded := rounded_mul finite finite'
  rw [le_iff_value rounded.number (isNaN_of_isFinite finite)]
  exact rounded.le _ (onGrid_value x) (mul_le_of_le_one_right (zero_le_iff.1 left).2 le)

theorem le_mul_self (left : 0 ≤ x) (finite : x.isFinite = true) (finite' : y.isFinite = true)
    (ge : 1 ≤ value y) : x ≤ x * y := by
  have rounded := rounded_mul finite finite'
  rw [le_iff_value (isNaN_of_isFinite finite) rounded.number]
  exact rounded.ge _ (onGrid_value x) (le_mul_of_one_le_right (zero_le_iff.1 left).2 ge)

theorem onGrid_double (left : 0 ≤ x) (finite : x.isFinite = true)
    (inside : 2 * value x ≤ scale 128) : OnGrid (2 * value x) := by
  have nonneg := (zero_le_iff.1 left).2
  obtain ⟨negative, m, e, form, -, same⟩ := exists_canonical finite
  have magnitude : value x = m * scale e := by
    rw [← abs_of_nonneg nonneg, same, abs_signed,
      abs_of_nonneg (mul_nonneg m.cast_nonneg (scale_pos e).le)]
  have double : |2 * value x| = m * scale (e + 1) := by
    rw [abs_of_nonneg (mul_nonneg zero_le_two nonneg), magnitude, scale_succ]
    ring
  refine ⟨?_, m, e + 1, form.1, by linarith [form.2.1], double⟩
  rwa [abs_of_nonneg (mul_nonneg zero_le_two nonneg)]

/-- A length is doubled exactly, or becomes infinite. -/
theorem value_double {z : Float32} (left : 0 ≤ x) (finite : x.isFinite = true)
    (rounded : Rounded (2 * value x) z) : value z = min (2 * value x) (scale 128) := by
  rcases le_total (2 * value x) (scale 128) with inside | outside
  · rw [min_eq_left inside]
    exact rounded.eq (onGrid_double left finite inside)
  · rw [min_eq_right outside]
    exact Std.le_antisymm (value_le_top z) (rounded.ge _ onGrid_top outside)

theorem double_of_mul_lt (left : 0 ≤ x) (less : x * 2 < y) :
    x.isFinite = true ∧ 0 < y ∧ (y.isFinite = true →
      (2 * x).isFinite = true ∧ value (2 * x) = 2 * value x ∧ 2 * x < y) := by
  have two : (2 : Float32).isFinite = true := by decide +kernel
  have finite := isFinite_of_mul_lt left two (by rw [value_two]; exact two_pos) less
  have behind := rounded_mul finite two
  have front := rounded_mul two finite
  rw [value_two, mul_comm] at behind
  rw [value_two] at front
  have doubled := value_double left finite front
  have same : value (2 * x) = value (x * 2) :=
    doubled.trans (value_double left finite behind).symm
  have nonneg := mul_nonneg zero_le_two (zero_le_iff.1 left).2
  have number := (isNaN_of_lt less).2
  rw [lt_iff_value behind.number number, ← same] at less
  have taken := front.ge 0 onGrid_zero nonneg
  refine ⟨finite, zero_lt_iff.2 ⟨number, taken.trans_lt less⟩, fun bounded => ?_⟩
  have below := less.trans (abs_lt.1 ((isFinite_iff number).1 bounded)).2
  refine ⟨?_, ?_, (lt_iff_value front.number number).2 less⟩
  · rw [isFinite_iff front.number, abs_of_nonneg taken]
    exact below
  · rw [doubled] at below ⊢
    exact min_eq_left ((min_lt_iff.1 below).resolve_right (lt_self_iff_false _).1).le

theorem room_of_mul_lt (left : 0 ≤ x) (finite : y.isFinite = true) (less : x * 2 < y) :
    0 < y - 2 * x ∧ (y - 2 * x).isFinite = true := by
  obtain ⟨_, pos, double⟩ := double_of_mul_lt left less
  obtain ⟨inside, same, taken⟩ := double finite
  have nonneg : 0 ≤ 2 * x := by
    refine zero_le_iff.2 ⟨isNaN_of_isFinite inside, ?_⟩
    rw [same]
    exact mul_nonneg zero_le_two (zero_le_iff.1 left).2
  exact ⟨zero_lt_sub finite inside taken, isFinite_sub (nonneg_of_pos pos) finite nonneg inside⟩

/-- A length by a finite one is a length, even where the first is infinite. -/
theorem zero_le_div (left : 0 ≤ x) (finite' : y.isFinite = true) (pos : 0 < y) : 0 ≤ x / y := by
  have divisor := (zero_lt_iff.1 pos).2
  cases finite : x.isFinite with
  | true =>
    exact (rounded_div finite finite' divisor.ne').zero_le
      (div_nonneg (zero_le_iff.1 left).2 divisor.le)
  | false =>
    have packed : (x / y).toModel = .pack (.infinity .positive) := by
      show Float32.Model.pack (UnpackedFloat.div _ x.toModel.unpack y.toModel.unpack) = _
      rw [unpack_of_infinite left finite, (shape finite').infinity_div divisor]
    obtain ⟨number, -, top⟩ := infinite_of_packed packed
    exact zero_le_iff.2 ⟨number, top ▸ (scale_pos 128).le⟩

/-- A share of a length is no longer, and it is nothing if there are infinitely many. -/
theorem share_le (left : 0 ≤ x) (finite : x.isFinite = true) (number : y.isNaN = false)
    (ge : 1 ≤ value y) : 0 ≤ x / y ∧ x / y ≤ x := by
  have nonneg := (zero_le_iff.1 left).2
  cases finite' : y.isFinite with
  | true =>
    have rounded := rounded_div finite finite' (zero_lt_one.trans_le ge).ne'
    refine ⟨rounded.zero_le (div_nonneg nonneg (zero_le_one.trans ge)), ?_⟩
    rw [le_iff_value rounded.number (isNaN_of_isFinite finite)]
    exact rounded.le _ (onGrid_value x) (div_le_self nonneg ge)
  | false =>
    have right : 0 ≤ y := zero_le_iff.2 ⟨number, zero_le_one.trans ge⟩
    obtain ⟨sign, nothing⟩ := (shape finite).div_infinity
    have packed : (x / y).toModel = .pack (.zero sign) := by
      show Float32.Model.pack (UnpackedFloat.div _ x.toModel.unpack y.toModel.unpack) = _
      rw [unpack_of_infinite right finite', nothing]
    have rounded := (delivered_zero sign).rounded packed
    refine ⟨rounded.zero_le le_rfl, ?_⟩
    rw [le_iff_value rounded.number (isNaN_of_isFinite finite)]
    exact rounded.le _ (onGrid_value x) nonneg

theorem abs_natCast_lt {n : Nat} (small : n < 2 ^ 64) : |(n : ℚ)| < limit := by
  have below : (n : ℚ) < scale 64 := by
    rw [← Nat.cast_ofNat (R := Int), scale_natCast]
    exact_mod_cast small
  have half : scale 128 = 2 * scale 127 := scale_succ 127
  have step : scale 103 ≤ scale 127 := scale_le (by decide)
  have room : scale 64 ≤ scale 127 := scale_le (by decide)
  rw [abs_of_nonneg n.cast_nonneg, limit]
  linarith

theorem rounded_ofNat {n : Nat} {z : Float32}
    (packed : z.toModel = .pack (UnpackedFloat.normalize Format.binary32 n 0 .positive)) :
    Rounded n z := by
  have delivered := delivered_normalize n 0 .positive
  rw [Int.cast_natCast, scale, zpow_zero, mul_one] at delivered
  exact delivered.rounded packed

theorem rounded_ofUInt8 (n : UInt8) : Rounded n.toNat n.toFloat32 := rounded_ofNat rfl

theorem rounded_ofUInt32 (n : UInt32) : Rounded n.toNat n.toFloat32 := rounded_ofNat rfl

theorem rounded_ofUInt64 (n : UInt64) : Rounded n.toNat n.toFloat32 := rounded_ofNat rfl

theorem mul_positive (m m' : Nat) (e e' : Int) (pos : 0 < m) (pos' : 0 < m') :
    UnpackedFloat.mul Format.binary32 (.finite .positive m e pos) (.finite .positive m' e' pos') =
      UnpackedFloat.roundWithAccuracy Format.binary32 .positive (m * m') (e + e') .exact := rfl

theorem rounded_ofScientific {n : Nat} (pos : 0 < n) :
    Rounded n (Float32.ofModel (Float32.Model.ofScientific n 0)) := by
  have shifted : 0 < n * 2 ^ 24 := Nat.mul_pos pos (Nat.two_pow_pos 24)
  have enough : -24 ≤ target (n * 2 ^ 24) (-24) := le_target (.inl (by omega))
  have delivered := delivered_exact enough shifted .positive
  have exact_value : signed (isNegative .positive) ((n * 2 ^ 24 : Nat) * scale (-24)) = n := by
    have shift := scale_shift n (d := -24) (e := 0) (by decide)
    rw [show scale 0 = 1 from zpow_zero 2, mul_one] at shift
    exact shift
  rw [exact_value] at delivered
  have room : ¬ (0 : Int) < -((2 ^ Format.binary32.exponentBits : Int) + n.log2) := by
    show ¬ (0 : Int) < -(2 ^ 8 + n.log2)
    omega
  have result : UnpackedFloat.ofScientific Format.binary32 n 0 =
      UnpackedFloat.roundWithAccuracy Format.binary32 .positive (n * 2 ^ 24) (-24) .exact := by
    rw [UnpackedFloat.ofScientific, dif_neg pos.ne', if_neg (by decide), if_neg room,
      if_pos le_rfl, mul_positive, Nat.shiftLeft_eq, Int.toNat_zero, Nat.pow_zero, Nat.mul_one,
      Int.add_zero]
    rfl
  exact delivered.rounded (congrArg Float32.Model.pack result)

/-- A whole number that is not zero is at least one, although it may become infinite. -/
theorem one_le_ofNat {n : Nat} (pos : 0 < n) :
    (Float32.ofNat n).isNaN = false ∧ 1 ≤ value (Float32.ofNat n) := by
  have one : OnGrid 1 := value_one ▸ onGrid_value 1
  have ge : (1 : ℚ) ≤ n := by exact_mod_cast pos
  show (Float32.ofScientific n false 0).isNaN = false ∧ 1 ≤ value (Float32.ofScientific n false 0)
  rw [Float32.ofScientific]
  by_cases small : n < 2 ^ 23
  · rw [dif_pos ⟨small, by decide⟩]
    have same : n.toUInt64.toNat = n := Nat.mod_eq_of_lt (small.trans (by decide))
    have rounded := rounded_ofUInt64 n.toUInt64
    rw [same] at rounded
    have unit : value (Float32.ofBits 0x3F800000) = 1 := value_unit (by decide +kernel)
    have finite := rounded.finite_iff.2 (abs_natCast_lt (small.trans (by decide)))
    have product := rounded_mul finite (y := Float32.ofBits 0x3F800000) (by decide +kernel)
    rw [unit, mul_one] at product
    exact ⟨product.number, product.ge 1 one (rounded.ge 1 one ge)⟩
  · rw [dif_neg fun both => small both.1]
    exact ⟨(rounded_ofScientific pos).number, (rounded_ofScientific pos).ge 1 one ge⟩

end Products

end Folio.Number
