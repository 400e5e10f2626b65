import Folio.Proofs.Session.Refusal

/-! # Requests that are carried out

What can come of a request that is not refused, said once for everything that follows from it.
-/

namespace Folio.Compositor

open Layout (Line TextRun Page)

theorem Work.of_bind_ok {α β : Type} {work : Work α} {next : α → Work β} {s u : Compositor}
    {result : Except SessionError α} {b : β} (look : work.run s = (result, s))
    (run : (work >>= next).run s = (.ok b, u)) :
    ∃ a, result = .ok a ∧ (next a).run s = (.ok b, u) := by
  rw [run_bind, look] at run
  cases result with
  | error e => cases run
  | ok a => exact ⟨a, rfl, run⟩

/-- The page is there, and the alignment and the width are such as can be drawn. -/
structure Settled (s : Compositor) (options : TextOptions) (align : Align) (width : Float32) :
    Prop where
  page : s.pages ≠ []
  align_eq : options.align.getD .left = align
  known : ∀ raw, align ≠ .other raw
  width_eq : options.width.getD s.contentWidth = width
  positive : ∀ asked, options.width = some asked → checkPositive .textWidth asked = .ok asked

def style (s : Compositor) (align : Align) (width : Float32) : Style where
  align := align
  width := width
  font := Layout.fontName (s.fontNumber s.font).1
  size := s.fontSize
  color := s.color

inductive Course (s : Compositor) : Drawing → Compositor → List Record → Prop
  | pageAdded : Course s .addPage s.startPage []
  | fontSet {name : String} {font : Font} (known : Font.ofName? name = some font) :
      Course s (.setFont name) { s with font := font } []
  | sizeSet {size : Float32} (positive : checkPositive .fontSize size = .ok size) :
      Course s (.setFontSize size) { s with fontSize := size } []
  | colorSet {value : String} {color : Color} (known : Color.parse value = .ok color) :
      Course s (.setFillColor value) { s with color := color } []
  | nothingDrawn {options : TextOptions} {align : Align} {width : Float32}
      (settled : s.Settled options align width) : Course s (.drawText "" options) s []
  | textDrawn {text : String} {options : TextOptions} {align : Align} {width : Float32}
      (some : text ≠ "") (settled : s.Settled options align width) :
      Course s (.drawText text options)
        ((s.fontNumber s.font).2.drawLines (s.style align width) (s.linesOf text width)).1
        ((s.fontNumber s.font).2.drawLines (s.style align width) (s.linesOf text width)).2

theorem eq_of_checkPositive {what : Quantity} {value size : Float32}
    (ok : checkPositive what value = .ok size) : size = value := by
  rw [checkPositive] at ok
  split at ok
  · cases ok
    rfl
  · cases ok

theorem isFinite_of_checkPositive {what : Quantity} {value size : Float32}
    (ok : checkPositive what value = .ok size) : value.isFinite = true := by
  rw [checkPositive] at ok
  split at ok
  · rename_i positive
    exact ((Bool.and_eq_true _ _).mp positive).1
  · cases ok

variable {s t : Compositor}

theorem of_create {options : Options} (created : create options = .ok s) :
    ∃ font, Font.ofName? options.font = some font ∧
      checkPositive .fontSize options.fontSize = .ok options.fontSize ∧
      (options.margin ≥ 0 && options.margin * 2 < options.page.shortest) = true ∧
      s = { page := options.page, margin := options.margin, info := options.info,
            cursor := options.margin, font := font, fontSize := options.fontSize } := by
  rw [create] at created
  cases known : Font.ofName? options.font with
  | none =>
    rw [known] at created
    cases created
  | some font =>
    rw [known] at created
    cases positive : checkPositive .fontSize options.fontSize with
    | error e =>
      rw [positive] at created
      cases created
    | ok size =>
      obtain rfl := eq_of_checkPositive positive
      rw [positive] at created
      by_cases room : (options.margin ≥ 0 && options.margin * 2 < options.page.shortest) = true
      · refine ⟨font, rfl, rfl, room, ?_⟩
        have made := (if_pos room).symm.trans created
        cases made
        rfl
      · have refused := (if_neg room).symm.trans created
        cases refused

theorem fontNumber_snd (s : Compositor) (font : Font) :
    (s.fontNumber font).2 = { s with fonts := (s.fontNumber font).2.fonts } := by
  rw [fontNumber]
  split <;> rfl

theorem pages_fontNumber (s : Compositor) (font : Font) :
    (s.fontNumber font).2.pages = s.pages := by
  rw [fontNumber_snd]

/-- What neither a new page nor a line changes is what lines leave as it is. -/
theorem kept_drawLines {α : Type} (f : Compositor → α)
    (page : ∀ s : Compositor, f s.startPage = f s)
    (placed : ∀ (s : Compositor) (style : Style) (line : Line), f (s.placeLine style line) = f s)
    (s : Compositor) (style : Style) (lines : List Line) :
    f (s.drawLines style lines).1 = f s := by
  induction lines generalizing s with
  | nil => rfl
  | cons line rest ih =>
    rw [drawLines]
    split
    · exact (ih _).trans ((placed _ style line).trans (page s))
    · exact (ih _).trans (placed s style line)

theorem pages_placeLine_ne_nil (some : s.pages ≠ []) (style : Style) (line : Line) :
    (s.placeLine style line).pages ≠ [] := by
  obtain ⟨page, earlier, pages⟩ := List.exists_cons_of_ne_nil some
  simp [placeLine, pages]

theorem pages_drawLines_ne_nil (some : s.pages ≠ []) (style : Style) (lines : List Line) :
    (s.drawLines style lines).1.pages ≠ [] := by
  induction lines generalizing s with
  | nil => exact some
  | cons line rest ih =>
    rw [drawLines]
    split
    · exact ih (pages_placeLine_ne_nil (List.cons_ne_nil _ _) style line)
    · exact ih (pages_placeLine_ne_nil some style line)

theorem Course.pages_ne_nil {what : Drawing} {records : List Record}
    (course : Course s what t records) (some : s.pages ≠ []) : t.pages ≠ [] := by
  cases course with
  | pageAdded => exact List.cons_ne_nil _ _
  | textDrawn =>
    refine pages_drawLines_ne_nil ?_ _ _
    rw [pages_fontNumber]
    exact some
  | fontSet | sizeSet | colorSet | nothingDrawn => exact some

theorem run_change (f : Compositor → Compositor) : (change f).run s = (.ok [], f s) := rfl

theorem run_throw {α : Type} (e : SessionError) : (throw e : Work α).run s = (.error e, s) := rfl

theorem run_pure {α : Type} (a : α) : (pure a : Work α).run s = (.ok a, s) := rfl

theorem settled_of_checks {options : TextOptions} {align : Align} {width : Float32}
    (page : s.pages ≠ [])
    (aligned : (match options.align.getD .left with
      | .other raw => .error (.unsupportedAlignment raw)
      | align => .ok align : Except SessionError Align) = .ok align)
    (wide : (match options.width with
      | some width => checkPositive .textWidth width
      | none => .ok s.contentWidth) = .ok width) : s.Settled options align width := by
  have known : options.align.getD .left = align ∧ ∀ raw, align ≠ .other raw := by
    cases asked : options.align.getD .left with
    | other raw =>
      rw [asked] at aligned
      cases aligned
    | left | center | right | justify =>
      rw [asked] at aligned
      cases aligned
      exact ⟨rfl, fun raw => Align.noConfusion⟩
  cases asked : options.width with
  | none =>
    rw [asked] at wide
    cases wide
    exact ⟨page, known.1, known.2, by rw [asked]; rfl, by rw [asked]; exact fun _ h => by cases h⟩
  | some value =>
    rw [asked] at wide
    obtain rfl := eq_of_checkPositive wide
    refine ⟨page, known.1, known.2, by rw [asked]; rfl, ?_⟩
    intro other same
    obtain rfl := Option.some.inj (asked.symm.trans same)
    exact wide

theorem course_drawText {text : String} {options : TextOptions} {records : List Record}
    (run : (drawText text options).run s = (.ok records, t)) :
    Course s (.drawText text options) t records := by
  obtain ⟨_, page, run⟩ := Work.of_bind_ok (run_ensurePage s) run
  obtain ⟨align, aligned, run⟩ := Work.of_bind_ok (run_alignmentOf options s) run
  obtain ⟨width, wide, run⟩ := Work.of_bind_ok (run_widthOf options s) run
  have some : s.pages ≠ [] := by
    intro none
    rw [none] at page
    cases page
  have settled := settled_of_checks some aligned wide
  by_cases empty : text = ""
  · subst empty
    rw [if_pos (by rfl), run_pure] at run
    cases run
    exact .nothingDrawn settled
  · rw [if_neg (by simpa using empty)] at run
    have drawn := Course.textDrawn empty settled
    cases run
    exact drawn

theorem course_of_drawn {what : Drawing} {records : List Record}
    (run : (drawn what).run s = (.ok records, t)) :
    s.stage = .drawing ∧ Course s what t records := by
  obtain ⟨_, opened, run⟩ := Work.of_bind_ok (run_ensureOpen s) run
  have opened : s.stage = .drawing := by
    by_cases drawing : s.stage = .drawing
    · exact drawing
    · rw [if_neg drawing] at opened
      cases opened
  refine ⟨opened, ?_⟩
  cases what with
  | addPage =>
    rw [run_change] at run
    cases run
    exact .pageAdded
  | setFont name =>
    cases known : Font.ofName? name with
    | none =>
      simp only [known, run_throw] at run
      cases run
    | some font =>
      simp only [known, run_change] at run
      cases run
      exact .fontSet known
  | setFontSize size =>
    obtain ⟨value, positive, changed⟩ := Work.of_bind_ok (Work.run_check _ s) run
    obtain rfl := eq_of_checkPositive positive
    rw [run_change] at changed
    cases changed
    exact .sizeSet positive
  | setFillColor value =>
    cases known : Color.parse value with
    | error why =>
      simp only [known, run_throw] at run
      cases run
    | ok color =>
      simp only [known, run_change] at run
      cases run
      exact .colorSet known
  | drawText text options => exact course_drawText run

theorem run_mapM {ι α : Type} {f : ι → Work α} {result : ι → Except SessionError α}
    (look : ∀ i s, (f i).run s = (result i, s)) (l : List ι) (s : Compositor) :
    (l.mapM f).run s = (l.mapM result, s) := by
  induction l with
  | nil => rfl
  | cons i rest ih =>
    rw [List.mapM_cons, List.mapM_cons, Work.run_bind, look]
    cases result i with
    | error e => rfl
    | ok a =>
      dsimp only
      rw [Work.run_bind, ih]
      cases rest.mapM result <;> rfl

/-- A promise is carried out while the session is open and something can carry the output. It
closes the session and takes the pages out of it. -/
theorem of_finalize {encode : Encoder} {runtime : Bool} {result : Pdf.Document × List Record}
    (run : (finalize encode runtime).run s = (.ok result, t)) :
    s.stage = .drawing ∧ runtime = true ∧ t = { s with stage := .finalized, pages := [] } ∧
      ∃ contents, (s.pages.reverse.mapM fun page =>
          (encode page.instructions).mapError SessionError.pdf) = .ok contents ∧
        result = (s.document contents, [promised contents.length s.fonts.length]) := by
  obtain ⟨_, opened, run⟩ := Work.of_bind_ok (run_ensureUnpromised s) run
  obtain ⟨_, carried, run⟩ := Work.of_bind_ok (run_ensureRuntime runtime s) run
  have opened : s.stage = .drawing := by
    cases stage : s.stage with
    | drawing => rfl
    | finalized | abandoned =>
      rw [stage] at opened
      cases opened
  have carried : runtime = true := by
    cases runtime with
    | true => rfl
    | false => cases carried
  refine ⟨opened, carried, ?_⟩
  have turned := run_mapM (fun page => Work.run_check ((encode page.instructions).mapError .pdf))
    s.pages.reverse { s with stage := .finalized, pages := [] }
  obtain ⟨contents, ok, run⟩ := Work.of_bind_ok turned run
  cases run
  exact ⟨rfl, contents, ok, rfl⟩

end Folio.Compositor
