import Folio.Layout.Line
import Folio.Proofs.Layout.Paragraphs
import Folio.Proofs.Pdf.Word
import Mathlib.Algebra.Order.BigOperators.Group.List
import Mathlib.Algebra.Order.Ring.Nat
import Mathlib.Data.Bool.AllAny

/-! # Widths of texts

The width of a text is the sum of the widths of its characters, but it is counted in thirty-two
bits. A text of up to four million characters is too short for that to matter, and is broken into
the same lines as if the sums had no bound.

A character above U+00FF is shown as a question mark. It is measured as one too, but for the faces
of Times, where what has no width of its own is a little wider than a question mark.
-/

namespace Folio

namespace Text

theorem length_words_le (cs : List Char) :
    ((words cs).map fun word => word.length + 1).sum + (cs.head?.any isBlank).toNat ≤
      cs.length + 1 := by
  fun_induction words cs with
  | case1 => simp
  | case2 c cs blank ih =>
    simp only [List.head?_cons, Option.any_some, blank, Bool.toNat_true, List.length_cons]
    omega
  | case3 c full => simp [full]
  | case4 c full d cs blank ih =>
    simp only [List.head?_cons, Option.any_some, blank, full, Bool.toNat_true, Bool.toNat_false,
      List.length_cons, List.length_nil, List.map_cons, List.sum_cons] at ih ⊢
    omega
  | case5 c full d cs more none ih =>
    rw [none]
    simp [full]
  | case6 c full d cs more w ws some ih =>
    rw [some] at ih ⊢
    simp only [List.head?_cons, Option.any_some, more, full, Bool.toNat_false,
      List.length_cons, List.map_cons, List.sum_cons] at ih ⊢
    omega

end Text

namespace Metrics

def width (m : Metrics) (text : String) : Nat :=
  (text.toList.map fun c => (m.charWidth c).toNat).sum

/-- What a text measures when its width is not bounded: the width is rounded once, then scaled. -/
def exact (m : Metrics) (size : Float32) (text : String) : Float32 :=
  ⟨.ofNat (m.width text)⟩ * size / 1000

theorem toNat_foldl_charWidth (m : Metrics) (cs : List Char) (sum : UInt32) :
    (cs.foldl (fun sum c => sum + m.charWidth c) sum).toNat =
      (sum.toNat + (cs.map fun c => (m.charWidth c).toNat).sum) % UInt32.size := by
  induction cs generalizing sum with
  | nil => exact (Nat.mod_eq_of_lt sum.toNat_lt).symm
  | cons c rest ih =>
    rw [List.foldl_cons, ih, UInt32.toNat_add, Nat.mod_add_mod, Nat.add_assoc, List.map_cons,
      List.sum_cons]

theorem toNat_units (m : Metrics) (text : String) :
    (m.units text).toNat = m.width text % UInt32.size := by
  rw [units, toNat_foldl_charWidth, UInt32.toNat_zero, Nat.zero_add, width]

theorem measure_eq_exact {m : Metrics} {text : String} (fits : m.width text < UInt32.size)
    (size : Float32) : m.measure size text = m.exact size text := by
  have units := m.toNat_units text
  rw [Nat.mod_eq_of_lt fits] at units
  rw [exact, ← units]
  rfl

theorem measure_congr {m : Metrics} {text other : String} (same : m.width text = m.width other)
    (size : Float32) : m.measure size text = m.measure size other := by
  have units : m.units text = m.units other := by
    apply UInt32.toNat_inj.1
    rw [toNat_units, toNat_units, same]
  rw [measure, measure, units]

theorem width_ofList_replicate (m : Metrics) (n : Nat) (c : Char) :
    m.width (String.ofList (List.replicate n c)) = n * (m.charWidth c).toNat := by
  rw [width, String.toList_ofList, List.map_replicate, List.sum_replicate_nat]

theorem charWidth_le {widths : Array UInt32} {fallback : UInt32} {most : Nat}
    (table : (fallback :: widths.toList).all (·.toNat ≤ most)) (c : Char) :
    ((proportional widths fallback).charWidth c).toNat ≤ most := by
  obtain ⟨other, listed⟩ := List.forall_mem_cons.1 (List.all_iff_forall_prop.1 table)
  rw [charWidth]
  split
  · rw [Array.getD_eq_getD_getElem?]
    cases found : widths[c.toNat - 32]? with
    | none => exact other
    | some w => exact listed w (Array.mem_toList_iff.2 (Array.mem_of_getElem? found))
  · exact other

end Metrics

/-- No character is wider than the commercial at of Helvetica. -/
theorem Font.charWidth_le (font : Font) (c : Char) : (font.metrics.charWidth c).toNat ≤ 1015 := by
  cases font with
  | helvetica | helveticaBold | helveticaOblique | helveticaBoldOblique =>
    exact Metrics.charWidth_le (by decide) c
  | timesRoman | timesBold | timesItalic | timesBoldItalic =>
    exact Metrics.charWidth_le (by decide) c
  | courier | courierBold | courierOblique | courierBoldOblique | symbol | zapfDingbats =>
    exact (by decide : (600 : UInt32).toNat ≤ 1015)

theorem Font.width_le (font : Font) (text : String) :
    font.metrics.width text ≤ 1015 * text.length := by
  have each : ∀ w ∈ text.toList.map fun c => (font.metrics.charWidth c).toNat, w ≤ 1015 := by
    simpa using fun c _ => font.charWidth_le c
  have bound := List.sum_le_card_nsmul _ 1015 each
  rw [List.length_map, String.length_toList] at bound
  rw [Nat.mul_comm]
  exact bound

/-- By how much a font measures what is shown as a question mark wider than a question mark. -/
def Font.excess : Font → Nat
  | .timesRoman | .timesBold | .timesItalic | .timesBoldItalic => 56
  | _ => 0

theorem Metrics.charWidth_of_high (widths : Array UInt32) (fallback : UInt32) {c : Char}
    (high : 255 < c.toNat) : (proportional widths fallback).charWidth c = fallback :=
  if_neg fun ⟨_, low⟩ => absurd low (by omega)

theorem Font.charWidth_of_high (font : Font) {c : Char} (high : 255 < c.toNat) :
    (font.metrics.charWidth c).toNat = (font.metrics.charWidth '?').toNat + font.excess := by
  cases font with
  | helvetica | helveticaBold | helveticaOblique | helveticaBoldOblique =>
    rw [Font.metrics, Metrics.charWidth_of_high _ _ high]
    rfl
  | timesRoman | timesBold | timesItalic | timesBoldItalic =>
    rw [Font.metrics, Metrics.charWidth_of_high _ _ high]
    rfl
  | courier | courierBold | courierOblique | courierBoldOblique | symbol | zapfDingbats => rfl

namespace Layout

section

variable {measure other : String → Float32} {most : Nat}

theorem fill_congr (same : ∀ line : String, line.length ≤ most → measure line = other line)
    (limit : Float32) {current : String} (gaps : Nat) {words : List String}
    (short : ((current :: words).map fun word => word.length + 1).sum ≤ most + 1) :
    fill measure limit current gaps words = fill other limit current gaps words := by
  induction words generalizing current gaps with
  | nil =>
    rw [List.map_singleton, List.sum_singleton] at short
    rw [fill, fill, same current (Nat.le_of_succ_le_succ short)]
  | cons word rest ih =>
    simp only [List.map_cons, List.sum_cons] at short
    have length : (current ++ " " ++ word).length = current.length + 1 + word.length := by
      rw [String.length_append, String.length_append]
      rfl
    rw [fill, fill, same (current ++ " " ++ word) (by omega), same current (by omega)]
    split
    · apply ih
      rw [List.map_cons, List.sum_cons]
      omega
    · rw [ih]
      rw [List.map_cons, List.sum_cons]
      omega

theorem wrap_congr {text : String}
    (same : ∀ line : String, line.length ≤ text.length → measure line = other line)
    (limit : Float32) : wrap measure limit text = wrap other limit text := by
  rw [wrap, wrap, List.flatMap_def, List.flatMap_def]
  refine congrArg List.flatten (List.map_congr_left fun paragraph listed => ?_)
  have short := Text.length_words_le paragraph
  have part := (Text.sublist_of_mem_lines listed).length_le
  rw [String.length_toList] at part
  have spelled : ((wordsOf paragraph).map fun word => word.length + 1) =
      (Text.words paragraph).map fun word => word.length + 1 := by
    simp [wordsOf, Function.comp_def]
  rw [← spelled] at short
  cases words : wordsOf paragraph with
  | nil => rw [wrapWords, wrapWords, same "" (Nat.zero_le _)]
  | cons word rest =>
    rw [words] at short
    exact fill_congr same limit 0 (by omega)

end

/-- The width of a text is counted modulo two to the power of thirty-two. Where it is less than
that nothing is lost, and a text that is short enough for the widest of characters is broken into
lines by its true widths. -/
theorem widths_add_up (font : Font) (size : Float32) (text : String) :
    (font.metrics.units text).toNat = font.metrics.width text % UInt32.size ∧
      (font.metrics.width text < UInt32.size →
        font.metrics.measure size text = font.metrics.exact size text) ∧
      (1015 * text.length < UInt32.size → ∀ limit,
        wrap (font.metrics.measure size) limit text =
          wrap (font.metrics.exact size) limit text) := by
  refine ⟨font.metrics.toNat_units text, fun fits => Metrics.measure_eq_exact fits size, ?_⟩
  intro short limit
  apply wrap_congr
  intro line part
  apply Metrics.measure_eq_exact
  have bound := font.width_le line
  omega

theorem widths_add_up_to_the_limit :
    let most := String.ofList (List.replicate 4231494 '@')
    let metrics := Font.helvetica.metrics
    metrics.width most = 4294966410 ∧ metrics.measure 1 most = metrics.exact 1 most ∧
      wrap (metrics.measure 12) 60 "Total @ 1015\nper thousand" =
        wrap (metrics.exact 12) 60 "Total @ 1015\nper thousand" ∧
      (wrap (metrics.exact 12) 60 "Total @ 1015\nper thousand").map Line.text =
        ["Total @", "1015", "per", "thousand"] := by
  intro most metrics
  have width : metrics.width most = 4294966410 := metrics.width_ofList_replicate 4231494 '@'
  obtain ⟨_, measured, _⟩ := widths_add_up .helvetica 1 most
  obtain ⟨_, _, wrapped⟩ := widths_add_up .helvetica 12 "Total @ 1015\nper thousand"
  refine ⟨width, measured ?_, wrapped (by decide) 60, by decide +kernel⟩
  rw [width]
  decide

/-- One more of the widest characters, and next to nothing is left of the width. -/
theorem width_of_ats_lost :
    let text := String.ofList (List.replicate 4231495 '@')
    let metrics := Font.helvetica.metrics
    metrics.width text = 4294967425 ∧ (metrics.units text).toNat = 129 ∧
      metrics.measure 1 text ≠ metrics.exact 1 text := by
  intro text metrics
  have width : metrics.width text = 4294967425 := metrics.width_ofList_replicate 4231495 '@'
  have units : (metrics.units text).toNat = 129 := by
    rw [Metrics.toNat_units, width]
    rfl
  refine ⟨width, units, ?_⟩
  have counted : metrics.units text = 129 := UInt32.toNat_inj.1 units
  rw [Metrics.measure, counted, Metrics.exact, width]
  decide +kernel

def shown (text : String) : String := String.ofList ((latin text).map Pdf.charOf)

theorem toList_shown (text : String) :
    (shown text).toList = text.toList.map fun c => if c.toNat ≤ 255 then c else '?' := by
  rw [shown, String.toList_ofList, latin, List.map_map]
  refine List.map_congr_left fun c _ => ?_
  rw [Function.comp_apply]
  split
  · exact Pdf.charOf_byteOf (Nat.lt_succ_of_le ‹_›)
  · rfl

theorem width_shown (font : Font) (text : String) :
    font.metrics.width text =
      font.metrics.width (shown text) + font.excess * text.toList.countP (255 < ·.toNat) := by
  rw [Metrics.width, Metrics.width, toList_shown, List.map_map]
  induction text.toList with
  | nil => rfl
  | cons c rest ih =>
    rw [List.map_cons, List.map_cons, List.sum_cons, List.sum_cons, ih, Function.comp_apply]
    by_cases low : c.toNat ≤ 255
    · rw [if_pos low, List.countP_cons_of_neg (by simpa using low)]
      omega
    · rw [if_neg low, List.countP_cons_of_pos (by simpa using low),
        font.charWidth_of_high (Nat.lt_of_not_le low), Nat.mul_add_one]
      omega

/-- A font measures what it shows, in texts as in the lines they are broken into, unless it is a
face of Times and a character has to be shown as a question mark. Then it measures fifty-six
thousandths of the font size too much for each of these. -/
theorem measured_as_shown (font : Font) (size : Float32) (text : String) :
    (font.excess = 0 ∨ (∀ c ∈ text.toList, c.toNat ≤ 255) →
        font.metrics.measure size text = font.metrics.measure size (shown text)) ∧
      (font.excess = 0 → ∀ limit, ∀ line ∈ wrap (font.metrics.measure size) limit text,
        line.width = font.metrics.measure size (shown line.text)) ∧
      font.metrics.width text =
        font.metrics.width (shown text) + font.excess * text.toList.countP (255 < ·.toNat) := by
  have alike {line : String} (none : font.excess * line.toList.countP (255 < ·.toNat) = 0) :
      font.metrics.measure size line = font.metrics.measure size (shown line) := by
    apply Metrics.measure_congr
    rw [width_shown, none, Nat.add_zero]
  refine ⟨?_, ?_, width_shown font text⟩
  · rintro (regular | low)
    · exact alike (by rw [regular, Nat.zero_mul])
    · have none : text.toList.countP (255 < ·.toNat) = 0 :=
        List.countP_eq_zero.2 fun c mem => by simpa using low c mem
      exact alike (by rw [none, Nat.mul_zero])
  · intro regular limit line mem
    rw [(sound_of_mem_wrap mem).width]
    exact alike (by rw [regular, Nat.zero_mul])

theorem measured_as_shown_in_helvetica :
    let metrics := Font.helvetica.metrics
    let lines := wrap (metrics.measure 10) 30 "café ЖЖ"
    shown "café ЖЖ" = "café ??" ∧ lines.map Line.text = ["café", "ЖЖ"] ∧
      metrics.measure 10 "café ЖЖ" = metrics.measure 10 "café ??" ∧
      Font.timesRoman.metrics.measure 10 "café" =
        Font.timesRoman.metrics.measure 10 (shown "café") ∧
      ∀ line ∈ lines, line.width = metrics.measure 10 (shown line.text) := by
  intro metrics lines
  have letters : shown "café ЖЖ" = "café ??" := by decide +kernel
  obtain ⟨whole, parts, _⟩ := measured_as_shown .helvetica 10 "café ЖЖ"
  obtain ⟨latin, _⟩ := measured_as_shown .timesRoman 10 "café"
  rw [letters] at whole
  have low : ∀ c ∈ "café".toList, c.toNat ≤ 255 := List.all_iff_forall_prop.1 (by decide)
  exact ⟨letters, by decide +kernel, whole (.inl rfl), latin (.inr low), parts rfl 30⟩

/-- A letter of another script measures half the font size in Times, and the question mark shown in
its place does not. -/
theorem letter_measured_wider :
    let metrics := Font.timesRoman.metrics
    shown "Ж" = "?" ∧ metrics.measure 1 "Ж" = 0.5 ∧
      metrics.measure 1 (shown "Ж") = 0.444 ∧
      metrics.measure 1 "Ж" ≠ metrics.measure 1 (shown "Ж") := by
  decide +kernel

end Layout

end Folio
