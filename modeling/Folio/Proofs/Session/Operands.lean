import Folio.Proofs.Session.Room
import Folio.Proofs.Layout.Paragraphs
import Folio.Proofs.Layout.TextState
import Folio.Proofs.Session.Lifecycle

/-! # Numbers on a page

The numbers that a page is drawn with come from sums and products of numbers that were looked at
one by one. Sizes, colours and spaces stay finite. A place stays finite as long as no margin
overflows with a width that was asked for, and no margin with the ascent of a font size: lines
that are further down have passed the test against the bottom margin, and that test fails for what
is not finite. Nothing that is no number is ever written.
-/

namespace Folio

open Number

namespace Layout

/-- The numbers of an instruction: those that set something are finite, and those of a place are
numbers that are finite if what is assumed for them holds. -/
def Instruction.Bounded (across down : Prop) : Instruction → Prop
  | font _ size => size.isFinite = true
  | fill red green blue => red.isFinite = true ∧ green.isFinite = true ∧ blue.isFinite = true
  | wordSpacing width => width.isFinite = true
  | moveTo x y =>
    (x.isNaN = false ∧ (across → x.isFinite = true)) ∧
      (y.isNaN = false ∧ (down → y.isFinite = true))
  | beginText | showText _ | endText => True

namespace Page

variable {page : Page} {i j : Instruction}

theorem mem_push : i ∈ (page.push j).instructions ↔ i ∈ page.instructions ∨ i = j := by
  rw [instructions_push, List.mem_append, List.mem_singleton]

theorem mem_setFont {name : String} {size : Float32}
    (mem : i ∈ (page.setFont name size).instructions) :
    i ∈ page.instructions ∨ i = .font name size := by
  rw [setFont] at mem
  split at mem
  · exact .inl mem
  · exact mem_push.1 mem

theorem mem_setColor {color : Color} (mem : i ∈ (page.setColor color).instructions) :
    i ∈ page.instructions ∨ i = .fill color.unit.1 color.unit.2.1 color.unit.2.2 := by
  rw [setColor] at mem
  split at mem
  · exact .inl mem
  · exact mem_push.1 mem

theorem mem_setWordSpacing {width : Float32}
    (mem : i ∈ (page.setWordSpacing width).instructions) :
    i ∈ page.instructions ∨ i = .wordSpacing width := by
  rw [setWordSpacing] at mem
  split at mem
  · exact .inl mem
  · exact mem_push.1 mem

theorem mem_draw {run : TextRun} (mem : i ∈ (page.draw run).instructions) :
    i ∈ page.instructions ∨ i ∈ run.plainly := by
  rw [draw] at mem
  rw [TextRun.plainly]
  by_cases empty : run.text.isEmpty = true
  · rw [if_pos empty] at mem
    exact .inl mem
  · rw [if_neg empty] at mem ⊢
    rcases mem_push.1 mem with mem | rfl
    · rcases mem_push.1 mem with mem | rfl
      · rcases mem_push.1 mem with mem | rfl
        · rcases mem_setWordSpacing mem with mem | rfl
          · rcases mem_setColor mem with mem | rfl
            · rcases mem_setFont mem with mem | rfl
              · exact (mem_push.1 mem).imp_right fun same => by simp [same]
              · simp
            · simp
          · simp
        · simp
      · simp
    · simp

end Page

structure TextRun.Bounded (across down : Prop) (run : TextRun) : Prop where
  size : run.size.isFinite = true
  wordSpacing : run.wordSpacing.isFinite = true
  x : run.x.isNaN = false ∧ (across → run.x.isFinite = true)
  baseline : run.baseline.isNaN = false ∧ (down → run.baseline.isFinite = true)

theorem isFinite_share (byte : UInt8) : (byte.toFloat32 / 255).isFinite = true := by
  have small := byte.toNat_lt
  have rounded := rounded_ofUInt8 byte
  have finite := rounded.finite_iff.2 (abs_natCast_lt (small.trans (by decide)))
  obtain ⟨number, ge⟩ := one_le_ofNat (n := 255) (by decide)
  obtain ⟨nonneg, le⟩ := share_le (rounded.zero_le byte.toNat.cast_nonneg) finite number ge
  exact isFinite_of_le nonneg le finite

theorem TextRun.Bounded.plainly {across down : Prop} {run : TextRun}
    (bounded : run.Bounded across down) : ∀ i ∈ run.plainly, i.Bounded across down := by
  intro i mem
  rw [TextRun.plainly] at mem
  split at mem
  · cases mem
  · simp only [List.mem_cons, List.not_mem_nil, or_false] at mem
    rcases mem with rfl | rfl | rfl | rfl | rfl | rfl | rfl
    · trivial
    · exact bounded.size
    · exact ⟨isFinite_share _, isFinite_share _, isFinite_share _⟩
    · exact bounded.wordSpacing
    · exact ⟨bounded.x, bounded.baseline⟩
    · trivial
    · trivial

theorem zero_le_measure (metrics : Metrics) {size : Float32} (nonneg : 0 ≤ size)
    (finite : size.isFinite = true) (text : String) : 0 ≤ metrics.measure size text := by
  have units := rounded_ofUInt32 (metrics.units text)
  have counted := units.finite_iff.2
    (abs_natCast_lt ((metrics.units text).toNat_lt.trans (by decide)))
  have product := zero_le_mul (units.zero_le (Nat.cast_nonneg _)) counted nonneg finite
  exact zero_le_div product (by decide +kernel) (by decide +kernel)

theorem zero_le_width {metrics : Metrics} {size limit : Float32} (nonneg : 0 ≤ size)
    (finite : size.isFinite = true) {text : String} {line : Line}
    (mem : line ∈ wrap (metrics.measure size) limit text) : 0 ≤ line.width := by
  rw [(sound_of_mem_wrap mem).width]
  exact zero_le_measure metrics nonneg finite line.text

end Layout

namespace Compositor

open Layout (Line Page TextRun Instruction)

theorem slack_le {width taken : Float32} (nonneg : 0 ≤ width) (finite : width.isFinite = true)
    (taken_nonneg : 0 ≤ taken) :
    0 ≤ greater (width - taken) 0 ∧ greater (width - taken) 0 ≤ width := by
  have le := sub_le finite taken_nonneg
  have number := (isNaN_of_le le).1
  rw [greater, number, isNaN_zero, if_neg Bool.false_ne_true, if_neg Bool.false_ne_true]
  by_cases less : width - taken < 0
  · rw [if_pos less]
    exact ⟨le_self isNaN_zero, nonneg⟩
  · rw [if_neg less]
    exact ⟨le_of_not_gt isNaN_zero number less, le⟩

theorem placement_le (align : Align) {line : Line} {width : Float32} (nonneg : 0 ≤ width)
    (finite : width.isFinite = true) (taken_nonneg : 0 ≤ line.width) :
    (0 ≤ (placement align line width).1 ∧ (placement align line width).1 ≤ width) ∧
      (0 ≤ (placement align line width).2 ∧ (placement align line width).2 ≤ width) := by
  have nothing := le_self isNaN_zero
  obtain ⟨low, high⟩ := slack_le nonneg finite taken_nonneg
  have slack_finite := isFinite_of_le low high finite
  cases align with
  | left | other => exact ⟨⟨nothing, nonneg⟩, ⟨nothing, nonneg⟩⟩
  | right => exact ⟨⟨low, high⟩, ⟨nothing, nonneg⟩⟩
  | center =>
    obtain ⟨number, ge⟩ := one_le_ofNat (n := 2) (by decide)
    obtain ⟨share_low, share_high⟩ := share_le low slack_finite number ge
    exact ⟨⟨share_low, le_trans share_high high⟩, ⟨nothing, nonneg⟩⟩
  | justify =>
    rw [placement]
    split
    · rename_i spread
      have some : 0 < line.gaps := of_decide_eq_true (Bool.and_eq_true_iff.1 spread).2
      obtain ⟨number, ge⟩ := one_le_ofNat some
      obtain ⟨share_low, share_high⟩ := share_le low slack_finite number ge
      exact ⟨⟨nothing, nonneg⟩, ⟨share_low, le_trans share_high high⟩⟩
    · exact ⟨⟨nothing, nonneg⟩, ⟨nothing, nonneg⟩⟩

section Runs

variable {across down : Prop} {page : Dimensions} {margin : Float32} {s t : Compositor}

/-- What lines are drawn with: a size and a width that are finite, and that add up with the margin
to what is finite if it is assumed. -/
structure Style.Fits (across down : Prop) (margin : Float32) (style : Style) : Prop where
  size : style.size.isFinite = true ∧ 0 < style.size
  width : style.width.isFinite = true ∧ 0 < style.width
  right : across → (margin + style.width).isFinite = true
  ascent : down → (margin + style.size * ascentFactor).isFinite = true

/-- How far the baseline is below the top of a line: no further than the next line. -/
theorem ascent_le {style : Style} (size : style.size.isFinite = true ∧ 0 < style.size) :
    0 ≤ style.size * ascentFactor ∧ style.size * ascentFactor ≤ style.lineHeight := by
  have nonneg := nonneg_of_pos size.2
  have finite : ascentFactor.isFinite = true := by decide +kernel
  have finite' : lineHeightFactor.isFinite = true := by decide +kernel
  have below : value ascentFactor ≤ 1 := by
    have le : ascentFactor ≤ 1 := by decide +kernel
    rwa [le_iff_value (isNaN_of_isFinite finite) (by decide +kernel), value_one] at le
  have above : 1 ≤ value lineHeightFactor := by
    have ge : 1 ≤ lineHeightFactor := by decide +kernel
    rwa [le_iff_value (by decide +kernel) (isNaN_of_isFinite finite'), value_one] at ge
  refine ⟨zero_le_mul nonneg size.1 (by decide +kernel) finite, ?_⟩
  exact le_trans (mul_le_self nonneg size.1 finite below) (le_mul_self nonneg size.1 finite' above)

structure Steady (across down : Prop) (page : Dimensions) (margin : Float32) (s : Compositor) :
    Prop where
  page_eq : s.page = page
  margin_eq : s.margin = margin
  cursor : 0 ≤ s.cursor
  size : s.fontSize.isFinite = true ∧ 0 < s.fontSize
  ascent : down → (margin + s.fontSize * ascentFactor).isFinite = true
  bounded : ∀ p ∈ s.pages, ∀ i ∈ p.instructions, i.Bounded across down

/-- A baseline is finite where the line does not cross the bottom margin, or is at the top one. -/
theorem finite_baseline (frame : Frame page margin) (steady : Steady across down page margin s)
    {style : Style} (fits : style.Fits across down margin) (assumed : down)
    (clears : s.overflows style.lineHeight = false) :
    (s.cursor + style.size * ascentFactor).isFinite = true := by
  obtain ⟨nonneg, le⟩ := ascent_le fits.size
  have number := (zero_le_iff.1 steady.cursor).1
  rw [overflows, steady.page_eq, steady.margin_eq] at clears
  by_cases past : s.cursor > margin
  · rw [decide_eq_true past, Bool.true_and] at clears
    have sum := zero_le_add steady.cursor (le_trans nonneg le)
    have above : s.cursor + style.lineHeight ≤ page.height - margin :=
      le_of_not_gt (zero_le_iff.1 sum).1 (isNaN_of_isFinite frame.finite_bottom)
        (of_decide_eq_false clears)
    exact isFinite_add_of_le steady.cursor nonneg (le_self number) le
      (isFinite_of_le sum above frame.finite_bottom)
  · have top : s.cursor ≤ margin := le_of_not_gt number (isNaN_of_isFinite frame.finite) past
    exact isFinite_add_of_le steady.cursor nonneg top (le_self (zero_le_iff.1 nonneg).1)
      (fits.ascent assumed)

theorem bounded_run (frame : Frame page margin) (steady : Steady across down page margin s)
    {style : Style} (fits : style.Fits across down margin) {line : Line}
    (taken : 0 ≤ line.width) (clears : s.overflows style.lineHeight = false) :
    (s.run style line).Bounded across down := by
  have wide := nonneg_of_pos fits.width.2
  obtain ⟨⟨low, high⟩, ⟨low', high'⟩⟩ := placement_le style.align wide fits.width.1 taken
  obtain ⟨ascent, _⟩ := ascent_le fits.size
  have below := zero_le_add steady.cursor ascent
  refine ⟨fits.size.1, isFinite_of_le low' high' fits.width.1, ⟨?_, fun assumed => ?_⟩,
    ⟨?_, fun assumed => ?_⟩⟩
  · show (s.margin + (placement style.align line style.width).1).isNaN = false
    rw [steady.margin_eq]
    exact (zero_le_iff.1 (zero_le_add frame.nonneg low)).1
  · show (s.margin + (placement style.align line style.width).1).isFinite = true
    rw [steady.margin_eq]
    exact isFinite_add_of_le frame.nonneg low (le_self (isNaN_of_isFinite frame.finite)) high
      (fits.right assumed)
  · show (s.page.height - (s.cursor + style.size * ascentFactor)).isNaN = false
    rw [steady.page_eq]
    exact (isNaN_of_le (sub_le frame.height below)).1
  · show (s.page.height - (s.cursor + style.size * ascentFactor)).isFinite = true
    rw [steady.page_eq]
    exact isFinite_sub (nonneg_of_pos frame.height_pos) frame.height below
      (finite_baseline frame steady fits assumed clears)

theorem Steady.startPage (steady : Steady across down page margin s) (nonneg : 0 ≤ margin) :
    Steady across down page margin s.startPage := by
  refine { steady with cursor := ?_, bounded := ?_ }
  · show 0 ≤ s.margin
    rw [steady.margin_eq]
    exact nonneg
  · exact List.forall_mem_cons.2 ⟨List.forall_mem_nil _, steady.bounded⟩

theorem Steady.placeLine (frame : Frame page margin) (steady : Steady across down page margin s)
    {style : Style} (fits : style.Fits across down margin) {line : Line}
    (taken : 0 ≤ line.width) (clears : s.overflows style.lineHeight = false) :
    Steady across down page margin (s.placeLine style line) := by
  have drawn := (bounded_run frame steady fits taken clears).plainly
  obtain ⟨ascent, le⟩ := ascent_le fits.size
  refine
    { steady with
      cursor := zero_le_add steady.cursor (le_trans ascent le)
      bounded := ?_ }
  have bounded := steady.bounded
  cases pages : s.pages with
  | nil =>
    have placed : (s.placeLine style line).pages = [] := by simp only [Compositor.placeLine, pages]
    rw [placed]
    exact List.forall_mem_nil _
  | cons last earlier =>
    have placed : (s.placeLine style line).pages = last.draw (s.run style line) :: earlier := by
      simp only [Compositor.placeLine, pages]
    rw [pages] at bounded
    obtain ⟨last_bounded, others⟩ := List.forall_mem_cons.1 bounded
    rw [placed]
    refine List.forall_mem_cons.2 ⟨?_, others⟩
    intro i mem
    rcases Page.mem_draw mem with old | new
    · exact last_bounded i old
    · exact drawn i new

theorem overflows_startPage (s : Compositor) (height : Float32) :
    s.startPage.overflows height = false := by
  show (decide (s.margin > s.margin) && _) = false
  rw [decide_eq_false (lt_irrefl s.margin), Bool.false_and]

theorem Steady.drawLines (frame : Frame page margin) {style : Style}
    (fits : style.Fits across down margin) {lines : List Line}
    (taken : ∀ line ∈ lines, 0 ≤ line.width) (steady : Steady across down page margin s) :
    Steady across down page margin (s.drawLines style lines).1 := by
  induction lines generalizing s with
  | nil => exact steady
  | cons line rest ih =>
    obtain ⟨first, others⟩ := List.forall_mem_cons.1 taken
    rw [Compositor.drawLines]
    split
    · have begun := steady.startPage frame.nonneg
      exact ih others (begun.placeLine frame fits first (overflows_startPage s _))
    · rename_i clears
      exact ih others (steady.placeLine frame fits first (Bool.eq_false_iff.2 clears))

theorem finite_width (frame : Frame page margin) (steady : Steady across down page margin s)
    {options : TextOptions} {align : Align} {width : Float32}
    (settled : s.Settled options align width)
    (asked : ∀ w ∈ options.width, across → w.isFinite = true → (margin + w).isFinite = true) :
    (width.isFinite = true ∧ 0 < width) ∧ (across → (margin + width).isFinite = true) := by
  have width_eq := settled.width_eq
  cases ask : options.width with
  | none =>
    rw [ask, Option.getD_none, contentWidth, steady.page_eq, steady.margin_eq] at width_eq
    subst width_eq
    exact ⟨(room_of_mul_lt frame.nonneg frame.width frame.wide).symm, fun _ => frame.finite_right⟩
  | some w =>
    rw [ask, Option.getD_some] at width_eq
    subst width_eq
    have positive := checkPositive_iff.1 (settled.positive w ask)
    exact ⟨positive, fun assumed => asked w ask assumed positive.1⟩

end Runs

end Compositor

namespace Request

def width? : Request → Option Float32
  | .draw (.drawText _ options) => options.width
  | _ => none

def size? : Request → Option Float32
  | .draw (.setFontSize size) => some size
  | _ => none

end Request

namespace Compositor

open Layout (Instruction)

section Requests

variable {across down : Prop} {page : Dimensions} {margin : Float32} {s t : Compositor}

theorem steady_course (frame : Frame page margin) (steady : Steady across down page margin s)
    {what : Drawing} {records : List Record} (course : Course s what t records)
    (widths : ∀ w ∈ (Request.draw what).width?, across → w.isFinite = true →
      (margin + w).isFinite = true)
    (sizes : ∀ size ∈ (Request.draw what).size?, down → size.isFinite = true →
      (margin + size * ascentFactor).isFinite = true) :
    Steady across down page margin t := by
  cases course with
  | pageAdded => exact steady.startPage frame.nonneg
  | fontSet | colorSet => exact { steady with }
  | @sizeSet size positive =>
    have finite := checkPositive_iff.1 positive
    exact { steady with size := finite, ascent := fun assumed => sizes size rfl assumed finite.1 }
  | nothingDrawn => exact steady
  | @textDrawn text options align width _ settled =>
    obtain ⟨finite, right⟩ := finite_width frame steady settled widths
    have fits : (s.style align width).Fits across down margin :=
      { size := steady.size, width := finite, right := right, ascent := steady.ascent }
    have numbered : Steady across down page margin (s.fontNumber s.font).2 := by
      rw [fontNumber_snd]
      exact { steady with }
    have taken : ∀ line ∈ s.linesOf text width, 0 ≤ line.width := fun line =>
      Layout.zero_le_width (nonneg_of_pos steady.size.2) steady.size.1
    exact numbered.drawLines frame fits taken

theorem steady_goesOn (frame : Frame page margin) (steady : Steady across down page margin s)
    {request : Request} (goes : GoesOn s request t)
    (widths : ∀ w ∈ request.width?, across → w.isFinite = true → (margin + w).isFinite = true)
    (sizes : ∀ size ∈ request.size?, down → size.isFinite = true →
      (margin + size * ascentFactor).isFinite = true) :
    Steady across down page margin t := by
  cases goes with
  | drawn course => exact steady_course frame steady course widths sizes
  | finalized | abandoned => exact { steady with bounded := List.forall_mem_nil _ }
  | refused => exact steady

end Requests

/-- Whatever is asked of a session that was made from a root, in whatever order: font sizes,
colours and word spacings on its pages are finite, and places are numbers. Where the margin
overflows with no width that is asked for, all places across a page are finite, and where it
overflows with the ascent of no font size, all places down a page are. -/
theorem page_numbers_bounded (encode : Encoder) {root : Markup.Element} {options : Options}
    {s : Compositor} (accepted : (Options.ofRoot root).1 = .ok options)
    (created : create options = .ok s) (requests : List Request) :
    ∀ page ∈ ((backendWith encode).after s requests).pages, ∀ i ∈ page.instructions,
      i.Bounded
        (∀ request ∈ requests, ∀ w ∈ request.width?, w.isFinite = true →
          (options.margin + w).isFinite = true)
        ((options.margin + options.fontSize * ascentFactor).isFinite = true ∧
          ∀ request ∈ requests, ∀ size ∈ request.size?, size.isFinite = true →
            (options.margin + size * ascentFactor).isFinite = true) := by
  intro page mem i drawn
  have frame := frame_of_root accepted
  obtain ⟨font, _, positive, _, rfl⟩ := of_create created
  apply (kept_after encode ?step ?start : Steady _ _ options.page options.margin
    ((backendWith encode).after _ requests)).bounded page mem i drawn
  case start =>
    exact
      { page_eq := rfl
        margin_eq := rfl
        cursor := frame.nonneg
        size := checkPositive_iff.1 positive
        ascent := fun assumed => assumed.1
        bounded := List.forall_mem_nil _ }
  case step =>
    intro request mem s t goes steady
    apply steady_goesOn frame steady goes
    · intro w asked assumed
      exact assumed request mem w asked
    · intro size asked assumed
      exact assumed.2 request mem size asked

def hugeRoot (fontSize : String) : Markup.Element :=
  .mk "document" ""
    (.ofList [("size", "3e38x3e38"), ("margin", "1e38"), ("fontSize", fontSize)]) []

def hugeSession (fontSize : Float32) : Compositor :=
  { page := ⟨3e38, 3e38⟩, margin := 1e38, info := ({} : Options).info, cursor := 1e38,
    font := .helvetica, fontSize := fontSize }

theorem page_numbers_bounded_huge :
    let options : Options :=
      { size := .custom ⟨3e38, 3e38⟩, margin := 1e38, fontSize := 2.2e38 }
    let requests : List Request :=
      [.draw .addPage,
       .draw (.drawText "a\nb" { width := some 2e38, align := some .right })]
    let t := backend.after (hugeSession 2.2e38) requests
    (Options.ofRoot (hugeRoot "2.2e38")).1 = .ok options ∧
      create options = .ok (hugeSession 2.2e38) ∧ t.pageCount = 2 ∧ t.cursor.isFinite = false ∧
      ∀ page ∈ t.pages, ∀ i ∈ page.instructions, i.Bounded True True := by
  intro options requests t
  have accepted : (Options.ofRoot (hugeRoot "2.2e38")).1 = .ok options := by decide +kernel
  have created : create options = .ok (hugeSession 2.2e38) := by decide +kernel
  have widths : ∀ request ∈ requests, ∀ w ∈ request.width?, w.isFinite = true →
      (options.margin + w).isFinite = true := by
    decide +kernel
  have sizes : (options.margin + options.fontSize * ascentFactor).isFinite = true ∧
      ∀ request ∈ requests, ∀ size ∈ request.size?, size.isFinite = true →
        (options.margin + size * ascentFactor).isFinite = true := by
    decide +kernel
  have bounded := page_numbers_bounded (fun instructions => .ok (Layout.encode instructions))
    accepted created requests
  rw [eq_true widths, eq_true sizes] at bounded
  exact ⟨accepted, created, by decide +kernel, by decide +kernel, bounded⟩

/-- A line that ends where no number reaches begins at infinity. -/
theorem place_past_largest_number :
    let options : Options := { size := .custom ⟨3e38, 3e38⟩, margin := 1e38 }
    let requests : List Request :=
      [.draw .addPage,
       .draw (.drawText "a" { width := some 3.4e38, align := some .right })]
    let t := backend.after (hugeSession 12) requests
    (Options.ofRoot (hugeRoot "12")).1 = .ok options ∧ create options = .ok (hugeSession 12) ∧
      backend.collected (fun s request => [(backend.answer s request).1]) (hugeSession 12)
        requests = [.ok (), .ok ()] ∧
      ∃ x y, x.isFinite = false ∧
        ∃ page ∈ t.pages, Instruction.moveTo x y ∈ page.instructions := by
  intro options requests t
  refine ⟨by decide +kernel, by decide +kernel, by decide +kernel, Float32.ofBits 0x7f800000,
    3e38 - (1e38 + 12 * ascentFactor), by decide +kernel, ?_⟩
  decide +kernel

end Compositor

end Folio
