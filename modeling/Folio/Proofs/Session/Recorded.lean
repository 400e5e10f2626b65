import Folio.Session.Recorder

/-! # Drawings that are recorded

What can come of a drawing that a recorder does not refuse.
-/

namespace Folio.Recorder

variable {s t : Recorder}

inductive Course (s : Recorder) : Drawing → Recorder → Prop
  | pageAdded : Course s .addPage ({ s with hasPage := true }.record .addPage)
  | fontSet {name : String} {font : Font} (known : Font.ofName? name = some font) :
      Course s (.setFont name) ({ s with font := font }.record (.setFont name))
  | sizeSet {size : Float32} (positive : (size.isFinite && size > 0) = true) :
      Course s (.setFontSize size) ({ s with fontSize := size }.record (.setFontSize size))
  | colorSet {value : String} {color : Color} (known : Color.parse value = .ok color) :
      Course s (.setFillColor value) ({ s with color := color }.record (.setFillColor color))
  | textDrawn {text : String} {options : TextOptions} (page : s.hasPage = true) :
      Course s (.drawText text options)
        (s.record (.drawText text s.font s.fontSize s.color options))

theorem drawn_eq_ok_iff {what : Drawing} :
    s.drawn what = .ok t ↔ s.closed = false ∧ Course s what t := by
  constructor
  · intro drawn
    obtain ⟨entries, recording, font, size, color, hasPage, closed⟩ := s
    cases closed with
    | true => cases drawn
    | false =>
      refine ⟨rfl, ?_⟩
      cases what with
      | addPage =>
        cases drawn
        exact .pageAdded
      | setFont name =>
        cases known : Font.ofName? name with
        | none =>
          simp only [Recorder.drawn, known] at drawn
          cases drawn
        | some font =>
          simp only [Recorder.drawn, known] at drawn
          cases drawn
          exact .fontSet known
      | setFontSize size =>
        by_cases positive : (size.isFinite && size > 0) = true
        · simp only [Recorder.drawn, if_pos positive] at drawn
          cases drawn
          exact .sizeSet positive
        · simp only [Recorder.drawn, if_neg positive] at drawn
          cases drawn
      | setFillColor value =>
        cases known : Color.parse value with
        | error why =>
          simp only [Recorder.drawn, known] at drawn
          cases drawn
        | ok color =>
          simp only [Recorder.drawn, known] at drawn
          cases drawn
          exact .colorSet known
      | drawText text options =>
        cases hasPage with
        | false => cases drawn
        | true =>
          cases drawn
          exact .textDrawn rfl
  · rintro ⟨opened, course⟩
    cases course with
    | pageAdded => simp [Recorder.drawn, opened]
    | fontSet known => simp [Recorder.drawn, opened, known]
    | sizeSet positive =>
      simp only [Recorder.drawn, opened, positive]
      rfl
    | colorSet known => simp [Recorder.drawn, opened, known]
    | textDrawn page => simp [Recorder.drawn, opened, page]

end Folio.Recorder
