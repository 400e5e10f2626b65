import Folio.Proofs.Number.Lengths
import Folio.Proofs.Session.Acceptance

/-! # Room on a page

A session makes sure that two margins fit on the shorter side of its page. A side that is no number
passes this test unseen if the other side passes it, and on an endless side everything fits. For
the rest the test is enough: where the width of a page is finite, what the margins leave of it is a
width that a text could have asked for. The pages that a root lets through are finite.
-/

namespace Folio.Compositor

open Number

variable {options : Options} {s : Compositor}

theorem checkPositive_iff {what : Quantity} {value : Float32} :
    checkPositive what value = .ok value ↔ value.isFinite = true ∧ 0 < value := by
  have test : (value.isFinite && value > 0) = true ↔ value.isFinite = true ∧ 0 < value := by
    rw [Bool.and_eq_true, decide_eq_true_iff, gt_iff_lt]
  rw [checkPositive, ← test]
  constructor
  · intro ok
    split at ok
    · assumption
    · cases ok
  · intro passed
    exact if_pos passed

theorem margin_of_create (created : create options = .ok s) :
    0 ≤ s.margin ∧ s.margin * 2 < lesser s.page.width s.page.height := by
  obtain ⟨font, _, _, room, rfl⟩ := of_create created
  obtain ⟨nonneg, less⟩ := Bool.and_eq_true_iff.1 room
  exact ⟨of_decide_eq_true nonneg, of_decide_eq_true less⟩

theorem left_of_side {margin side : Float32} (nonneg : 0 ≤ margin) (less : margin * 2 < side) :
    checkPositive .textWidth (side - 2 * margin) = .ok (side - 2 * margin) ↔
      side.isFinite = true := by
  rw [checkPositive_iff]
  constructor
  · rintro ⟨finite, _⟩
    exact isFinite_of_sub finite
  · intro finite
    exact (room_of_mul_lt nonneg finite less).symm

/-- The sides of a page that is accepted are positive or no numbers, and at least one of them is a
number. What the margins leave of the width is a width that a text may ask for exactly if the page
has a finite width. -/
theorem accepted_page_leaves_room (created : create options = .ok s) :
    (∀ side ∈ [s.page.width, s.page.height], side.isNaN = true ∨ 0 < side) ∧
      (s.page.width.isNaN = true → s.page.height.isNaN = false) ∧
      (checkPositive .textWidth s.contentWidth = .ok s.contentWidth ↔
        s.page.width.isFinite = true) := by
  obtain ⟨nonneg, less⟩ := margin_of_create created
  have unbounded (none : s.page.width.isNaN = true) :
      checkPositive .textWidth s.contentWidth = .ok s.contentWidth ↔
        s.page.width.isFinite = true := by
    have infinite : ¬ s.page.width.isFinite = true := by
      intro finite
      rw [isNaN_of_isFinite finite] at none
      cases none
    refine iff_of_false (fun ok => ?_) infinite
    exact infinite (isFinite_of_sub (checkPositive_iff.1 ok).1)
  rcases of_lt_lesser less with ⟨none, high⟩ | ⟨none, wide⟩ | ⟨wide, high⟩
  · have pos := (double_of_mul_lt nonneg high).2.1
    refine ⟨?_, fun _ => (isNaN_of_lt high).2, unbounded none⟩
    exact List.forall_mem_cons.2 ⟨.inl none, List.forall_mem_singleton.2 (.inr pos)⟩
  · have pos := (double_of_mul_lt nonneg wide).2.1
    refine ⟨?_, ?_, left_of_side nonneg wide⟩
    · exact List.forall_mem_cons.2 ⟨.inr pos, List.forall_mem_singleton.2 (.inl none)⟩
    · intro both
      rw [(isNaN_of_lt wide).2] at both
      cases both
  · have pos := (double_of_mul_lt nonneg wide).2.1
    have pos' := (double_of_mul_lt nonneg high).2.1
    refine ⟨?_, fun _ => (isNaN_of_lt high).2, left_of_side nonneg wide⟩
    exact List.forall_mem_cons.2 ⟨.inr pos, List.forall_mem_singleton.2 (.inr pos')⟩

def noNumber : Float32 := Float32.ofBits 0x7fc00000

theorem accepted_page_leaves_least_room :
    let options : Options := { size := .custom ⟨1, noNumber⟩, margin := 0.49999997 }
    let s : Compositor :=
      { page := ⟨1, noNumber⟩, margin := 0.49999997, info := options.info, cursor := 0.49999997,
        font := .helvetica, fontSize := 12 }
    create options = .ok s ∧ s.page.height.isNaN = true ∧ 0 < s.page.width ∧
      checkPositive .textWidth s.contentWidth = .ok s.contentWidth := by
  intro options s
  have created : create options = .ok s := by decide +kernel
  obtain ⟨_, _, left⟩ := accepted_page_leaves_room created
  exact ⟨created, by decide +kernel, by decide +kernel, left.2 (by decide +kernel)⟩

/-- A page whose width is no number is accepted, although no text could ask for what is left of it,
and so is a page without an end. -/
theorem unmeasured_page_accepted :
    let sized (width height : Float32) : Compositor :=
      { page := ⟨width, height⟩, margin := 0, info := ({} : Options).info, cursor := 0,
        font := .helvetica, fontSize := 12 }
    let endless : Float32 := Float32.ofBits 0x7f800000
    ∀ s ∈ [sized noNumber 100, sized endless endless],
      create { size := .custom s.page, margin := 0 } = .ok s ∧
        ¬ (s.page.width.isFinite = true ∧ 0 < s.page.width) ∧
        checkPositive .textWidth s.contentWidth =
          .error (.invalidValue .textWidth s.contentWidth) := by
  decide +kernel

structure Frame (page : Dimensions) (margin : Float32) : Prop where
  width : page.width.isFinite = true
  height : page.height.isFinite = true
  nonneg : 0 ≤ margin
  wide : margin * 2 < page.width
  high : margin * 2 < page.height

theorem frame_of_root {root : Markup.Element} (accepted : (Options.ofRoot root).1 = .ok options) :
    Frame options.page options.margin := by
  obtain ⟨sound, room, _⟩ := Options.of_ofRoot accepted
  have sides : options.page.width.isFinite = true ∧ options.page.height.isFinite = true := by
    rw [Options.page]
    cases options.orientation with
    | portrait => exact sound.size
    | landscape => exact sound.size.symm
  rcases of_lt_lesser room with ⟨none, _⟩ | ⟨none, _⟩ | ⟨wide, high⟩
  · rw [isNaN_of_isFinite sides.1] at none
    cases none
  · rw [isNaN_of_isFinite sides.2] at none
    cases none
  · exact ⟨sides.1, sides.2, sound.margin.2, wide, high⟩

namespace Frame

variable {page : Dimensions} {margin : Float32}

theorem finite (frame : Frame page margin) : margin.isFinite = true :=
  (double_of_mul_lt frame.nonneg frame.wide).1

theorem width_pos (frame : Frame page margin) : 0 < page.width :=
  (double_of_mul_lt frame.nonneg frame.wide).2.1

theorem height_pos (frame : Frame page margin) : 0 < page.height :=
  (double_of_mul_lt frame.nonneg frame.high).2.1

theorem finite_bottom (frame : Frame page margin) : (page.height - margin).isFinite = true :=
  isFinite_sub (nonneg_of_pos frame.height_pos) frame.height frame.nonneg frame.finite

/-- The right margin begins before the largest number, although what is between the margins may
have been rounded up. -/
theorem finite_right (frame : Frame page margin) :
    (margin + (page.width - 2 * margin)).isFinite = true := by
  obtain ⟨pos, finite⟩ := room_of_mul_lt frame.nonneg frame.width frame.wide
  obtain ⟨inside, same, _⟩ := (double_of_mul_lt frame.nonneg frame.wide).2.2 frame.width
  have left := rounded_sub frame.width inside
  rw [same] at left
  have nonneg := (zero_le_iff.1 frame.nonneg).2
  have nonneg' := (zero_lt_iff.1 pos).2.le
  have most := (abs_le.1 (abs_value_le frame.width)).2
  have room : value (page.width - 2 * margin) ≤ value page.width :=
    left.le _ (onGrid_value _) (by linarith)
  have near := (abs_le.1 (left.near finite)).1
  have half : scale 104 = 2 * scale 103 := scale_succ 103
  have some := scale_pos 103
  rw [(rounded_add frame.finite finite).finite_iff, abs_of_nonneg (add_nonneg nonneg nonneg'),
    limit]
  -- Without a margin nothing was rounded, and a margin is taken away twice and added once.
  rcases nonneg.eq_or_lt with none | more
  · linarith
  · linarith

end Frame

end Folio.Compositor
