import Folio.Proofs.Layout.Lines
import Folio.Proofs.Session.Lifecycle

/-! # The flow of text

Text runs down the page and from one page to the next. What the pages show, read from the first to
the last, is what was asked of them in that order, wherever pages begin; a page on which another
one follows does not change any more.
-/

namespace Folio

namespace Layout

def strings (instructions : List Instruction) : List Bytes :=
  instructions.filterMap fun
    | .showText string => some string
    | _ => none

def Page.Extends (before after : Page) (shown : List Bytes) : Prop :=
  ∃ added, after.instructions = before.instructions ++ added ∧ strings added = shown

namespace Page.Extends

variable {first middle last : Page} {s t : List Bytes}

theorem refl (page : Page) : page.Extends page [] := ⟨[], by simp, rfl⟩

theorem trans (one : first.Extends middle s) (two : middle.Extends last t) :
    first.Extends last (s ++ t) := by
  obtain ⟨front, one, rfl⟩ := one
  obtain ⟨behind, two, rfl⟩ := two
  refine ⟨front ++ behind, ?_, by simp [strings]⟩
  rw [two, one, List.append_assoc]

theorem isPrefix (more : first.Extends last s) : first.instructions <+: last.instructions := by
  obtain ⟨added, same, _⟩ := more
  exact ⟨added, same.symm⟩

theorem strings_eq (more : first.Extends last s) :
    strings last.instructions = strings first.instructions ++ s := by
  obtain ⟨added, same, rfl⟩ := more
  simp [same, strings]

end Page.Extends

namespace Page

variable (page : Page)

theorem extends_push (i : Instruction) : page.Extends (page.push i) (strings [i]) :=
  ⟨[i], List.reverse_cons, rfl⟩

theorem extends_setFont (name : String) (size : Float32) :
    page.Extends (page.setFont name size) [] := by
  rw [setFont]
  split
  · exact .refl page
  · exact extends_push { page with font := name, size := size } _

theorem extends_setColor (color : Color) : page.Extends (page.setColor color) [] := by
  rw [setColor]
  split
  · exact .refl page
  · exact extends_push { page with color := some color } _

theorem extends_setWordSpacing (width : Float32) :
    page.Extends (page.setWordSpacing width) [] := by
  rw [setWordSpacing]
  split
  · exact .refl page
  · exact extends_push { page with wordSpacing := width } _

theorem extends_draw (run : TextRun) :
    page.Extends (page.draw run) (if run.text = "" then [] else [latin run.text]) := by
  rw [draw]
  by_cases empty : run.text = ""
  · rw [if_pos empty, if_pos (by simpa using empty)]
    exact .refl page
  · rw [if_neg empty, if_neg (by simpa using empty)]
    have set := (((page.extends_push .beginText).trans (extends_setFont _ run.font run.size)).trans
      (extends_setColor _ run.color)).trans (extends_setWordSpacing _ run.wordSpacing)
    exact ((set.trans (extends_push _ (.moveTo run.x run.baseline))).trans
      (extends_push _ (.showText (latin run.text)))).trans (extends_push _ .endText)

end Page

/-- Pages in the order in which they are read, before and after. Those that others follow are as
they were, and the last one has grown at its end. -/
def Grown (before after : List Page) : Prop :=
  ∀ earlier page, before = earlier ++ [page] →
    ∃ same later, after = earlier ++ same :: later ∧ page.instructions <+: same.instructions

namespace Grown

variable {first middle last : List Page}

theorem refl (pages : List Page) : Grown pages pages :=
  fun _ page split => ⟨page, [], split, List.prefix_refl _⟩

theorem trans (one : Grown first middle) (two : Grown middle last) : Grown first last := by
  intro earlier page split
  obtain ⟨same, later, between, grown⟩ := one earlier page split
  rcases List.eq_nil_or_concat later with rfl | ⟨later, other, rfl⟩
  · obtain ⟨same', later', whole, more⟩ := two earlier same between
    exact ⟨same', later', whole, grown.trans more⟩
  · have split : middle = (earlier ++ same :: later) ++ [other] := by simp [between]
    obtain ⟨other', later', whole, _⟩ := two _ other split
    exact ⟨same, later ++ other' :: later', by simp [whole], grown⟩

theorem concat (pages : List Page) (page : Page) : Grown pages (pages ++ [page]) := by
  rintro earlier last rfl
  exact ⟨last, [page], by simp, List.prefix_refl _⟩

theorem of_extends {earlier : List Page} {page after : Page} {shown : List Bytes}
    (more : page.Extends after shown) : Grown (earlier ++ [page]) (earlier ++ [after]) := by
  intro front other split
  obtain ⟨rfl, same⟩ := List.append_inj' split rfl
  cases same
  exact ⟨after, [], rfl, more.isPrefix⟩

end Grown

end Layout

namespace Compositor

open Layout (Line Page latin Grown)

def strings (s : Compositor) : List Bytes :=
  s.pages.reverse.flatMap fun page => Layout.strings page.instructions

def stringsOf (s : Compositor) (text : String) (options : TextOptions) : List Bytes :=
  ((s.linesOf text (options.width.getD s.contentWidth)).filter fun line => ¬ line.IsBlank).map
    fun line => latin line.text

def asked (s : Compositor) : Request → List Bytes
  | .draw (.drawText text options) => s.stringsOf text options
  | _ => []

/-- The strings that are asked for from here on by requests that are not refused. -/
def askedAll (encode : Encoder) (s : Compositor) : List Request → List Bytes
  | [] => []
  | request :: rest =>
    (if ((backendWith encode).answer s request).1 = .ok () then s.asked request else []) ++
      askedAll encode ((backendWith encode).answer s request).2 rest

structure Flows (s t : Compositor) (shown : List Bytes) : Prop where
  strings : t.strings = s.strings ++ shown
  grown : Grown s.pages.reverse t.pages.reverse

namespace Flows

variable {s t u : Compositor} {front behind : List Bytes}

theorem of_pages (same : t.pages = s.pages) : Flows s t [] where
  strings := by rw [Compositor.strings, Compositor.strings, same, List.append_nil]
  grown := same ▸ .refl _

theorem trans (one : Flows s t front) (two : Flows t u behind) : Flows s u (front ++ behind) where
  strings := by rw [two.strings, one.strings, List.append_assoc]
  grown := one.grown.trans two.grown

end Flows

variable {encode : Encoder} {s t : Compositor}

theorem flows_startPage (s : Compositor) : Flows s s.startPage [] where
  strings := by simp [strings, startPage, Layout.strings, Layout.Page.instructions]
  grown := by
    show Grown s.pages.reverse (({} : Page) :: s.pages).reverse
    rw [List.reverse_cons]
    exact .concat _ _

theorem flows_placeLine (some : s.pages ≠ []) (style : Style) (line : Line) :
    Flows s (s.placeLine style line) (if line.text = "" then [] else [latin line.text]) := by
  obtain ⟨page, earlier, pages⟩ := List.exists_cons_of_ne_nil some
  have drawn := page.extends_draw (s.run style line)
  have placed : (s.placeLine style line).pages = page.draw (s.run style line) :: earlier := by
    simp only [placeLine, pages]
  constructor
  · rw [strings, strings, placed, pages, List.reverse_cons, List.reverse_cons,
      List.flatMap_append, List.flatMap_append, List.flatMap_singleton, List.flatMap_singleton,
      drawn.strings_eq, List.append_assoc]
    rfl
  · rw [placed, pages, List.reverse_cons, List.reverse_cons]
    exact .of_extends drawn

theorem flows_drawLines (some : s.pages ≠ []) (style : Style) (lines : List Line) :
    Flows s (s.drawLines style lines).1
      ((lines.filter fun line => line.text ≠ "").map fun line => latin line.text) := by
  induction lines generalizing s with
  | nil => exact .of_pages rfl
  | cons line rest ih =>
    rw [Layout.map_filter_cons, drawLines]
    split
    · have fresh : s.startPage.pages ≠ [] := List.cons_ne_nil _ _
      have step := (flows_startPage s).trans (flows_placeLine fresh style line)
      exact step.trans (ih (pages_placeLine_ne_nil fresh style line))
    · exact (flows_placeLine some style line).trans (ih (pages_placeLine_ne_nil some style line))

theorem filter_isBlank (s : Compositor) (text : String) (width : Float32) :
    (s.linesOf text width).filter (fun line => ¬ line.IsBlank) =
      (s.linesOf text width).filter fun line => line.text ≠ "" := by
  refine List.filter_congr fun line mem => ?_
  rw [decide_eq_decide, Layout.isBlank_iff_of_mem_wrap _ _ mem]

theorem flows_drawText {text : String} {options : TextOptions} {records : List Record}
    (course : Course s (.drawText text options) t records) :
    Flows s t (s.stringsOf text options) := by
  cases course with
  | nothingDrawn settled =>
    exact .of_pages rfl
  | @textDrawn _ _ align width some settled =>
    have numbered := s.pages_fontNumber s.font
    have lines := flows_drawLines (numbered ▸ settled.page) (s.style align width)
      (s.linesOf text width)
    rw [stringsOf, settled.width_eq, filter_isBlank]
    exact (Flows.of_pages numbered).trans lines

theorem flows_course {what : Drawing} {records : List Record} (course : Course s what t records) :
    Flows s t (s.asked (.draw what)) := by
  cases what with
  | addPage =>
    cases course
    exact flows_startPage s
  | drawText text options => exact flows_drawText course
  | setFont | setFontSize | setFillColor =>
    cases course
    exact .of_pages rfl

theorem flows_answer {request : Request}
    (opened : ((backendWith encode).answer s request).2.stage = .drawing) :
    Flows s ((backendWith encode).answer s request).2
      (if ((backendWith encode).answer s request).1 = .ok () then s.asked request else []) := by
  cases request with
  | draw what =>
    rcases answer_draw encode s what with ⟨records, t, run, answer⟩ | ⟨e, answer⟩
    · rw [answer]
      exact flows_course (course_of_drawn run).2
    · rw [answer]
      exact .of_pages rfl
  | finalize runtime =>
    have goes := goesOn_answer encode s (.finalize runtime)
    have nothing : s.asked (.finalize runtime) = [] := rfl
    rw [nothing, ite_self]
    generalize ((backendWith encode).answer s (.finalize runtime)).2 = t at goes opened ⊢
    cases goes with
    | finalized => cases opened
    | refused => exact .of_pages rfl
  | abandon => cases opened

theorem flows_after (requests : List Request)
    (opened : ((backendWith encode).after s requests).stage = .drawing) :
    Flows s ((backendWith encode).after s requests) (s.askedAll encode requests) := by
  induction requests generalizing s with
  | nil => exact .of_pages rfl
  | cons request rest ih =>
    have later : ((backendWith encode).after ((backendWith encode).answer s request).2 rest).stage =
        .drawing := opened
    have first := flows_answer (drawing_of_after later)
    exact first.trans (ih later)

/-- Whatever is asked of a session while it is open: its pages show the lines of the texts that
were drawn, each once and in order, and once a page follows another one the other one stays as it
is, while the last page grows at its end. -/
theorem pages_show_drawn_text (encode : Encoder) {options : Options}
    (created : create options = .ok s) (front behind : List Request)
    (opened : ((backendWith encode).after s (front ++ behind)).stage = .drawing) :
    ((backendWith encode).after s (front ++ behind)).strings =
        s.askedAll encode (front ++ behind) ∧
      Grown ((backendWith encode).after s front).pages.reverse
        ((backendWith encode).after s (front ++ behind)).pages.reverse := by
  have blank : s.strings = [] := by
    obtain ⟨font, _, _, _, rfl⟩ := of_create created
    rfl
  constructor
  · have whole := (flows_after _ opened).strings
    rw [whole, blank, List.nil_append]
  · rw [Backend.after_append] at opened ⊢
    exact (flows_after behind opened).grown

theorem pages_show_three_lines :
    let options : Options := { size := .custom ⟨100, 60⟩, margin := 10 }
    let s : Compositor :=
      { page := ⟨100, 60⟩, margin := 10, info := options.info, cursor := 10, font := .helvetica,
        fontSize := 12 }
    let front : List Request := [.draw .addPage, .draw (.drawText "one\n \ntwo" {})]
    let behind : List Request :=
      [.draw (.drawText "lost" { width := some 0 }), .draw (.drawText "three" {}), .finalize false]
    let t := backend.after s (front ++ behind)
    create options = .ok s ∧ t.stage = .drawing ∧ t.pageCount = 2 ∧
      t.strings = [latin "one", latin "two", latin "three"] ∧
      Grown (backend.after s front).pages.reverse t.pages.reverse := by
  intro options s front behind t
  have created : create options = .ok s := by decide +kernel
  have opened : t.stage = .drawing := by decide +kernel
  have asked : s.askedAll (fun instructions => .ok (Layout.encode instructions))
      (front ++ behind) = [latin "one", latin "two", latin "three"] := by decide +kernel
  obtain ⟨shown, grown⟩ := pages_show_drawn_text _ created front behind opened
  exact ⟨created, opened, by decide +kernel, shown.trans asked, grown⟩

end Compositor

end Folio
