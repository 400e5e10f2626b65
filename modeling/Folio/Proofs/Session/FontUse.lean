import Folio.Proofs.Lists
import Folio.Proofs.Session.FontNames

/-! # Fonts in use

A font is taken into use before the lines of its text are known, by any text that has characters,
and a line without words shows nothing. So the fonts of a document are those of the texts drawn, in
the order of their first use; they are the fonts that show something where no text is white space
only, for then each text shows a string.
-/

namespace Folio

namespace Compositor

open Layout (HasInk latin)

variable {encode : Encoder} {s t : Compositor} {used : List Font}

theorem stringsOf_ne_nil_iff {text : String} {options : TextOptions} :
    s.stringsOf text options ≠ [] ↔ HasInk text := by
  rw [stringsOf, filter_isBlank, Ne, List.map_eq_nil_iff, List.filter_eq_nil_iff,
    ← Layout.exists_mem_wrap (s.font.metrics.measure s.fontSize)
      (options.width.getD s.contentWidth)]
  simp [linesOf]

/-- The font that a drawing takes into use: that of a text with characters. -/
def employs (s : Compositor) : Request → List Font
  | .draw (.drawText text _) => if text = "" then [] else [s.font]
  | _ => []

def employed (encode : Encoder) (s : Compositor) (request : Request) : List Font :=
  if ((backendWith encode).answer s request).1 = .ok () then s.employs request else []

theorem employed_eq_nil {request : Request} (nothing : s.employs request = []) :
    employed encode s request = [] := by
  rw [employed, nothing]
  split
  · rfl
  · rfl

theorem fontNumber_eraseDups (before : s.fonts = used.eraseDups) (font : Font) :
    (s.fontNumber font).2.fonts = (used ++ [font]).eraseDups := by
  rw [eraseDups_concat, fontNumber]
  have mem : font ∈ s.fonts ↔ font ∈ used := by rw [before, List.mem_eraseDups]
  cases found : s.fonts.findIdx? (· = font) with
  | some index =>
    obtain ⟨bound, same, _⟩ := List.findIdx?_eq_some_iff_getElem.1 found
    have old : font ∈ s.fonts := of_decide_eq_true same ▸ List.getElem_mem bound
    rw [if_pos (mem.1 old)]
    exact before
  | none =>
    have fresh : font ∉ s.fonts := by
      intro old
      simpa using List.findIdx?_eq_none_iff.1 found font old
    rw [if_neg (mt mem.2 fresh)]
    exact congrArg (· ++ [font]) before

theorem Course.fonts_eq (before : s.fonts = used.eraseDups) {what : Drawing}
    {records : List Record} (course : Course s what t records) :
    t.fonts = (used ++ s.employs (.draw what)).eraseDups := by
  cases course with
  | textDrawn some =>
    rw [fonts_drawLines, employs, if_neg some]
    exact fontNumber_eraseDups before s.font
  | nothingDrawn | pageAdded | fontSet | sizeSet | colorSet =>
    refine Eq.trans ?_ (congrArg List.eraseDups (List.append_nil used).symm)
    exact before

theorem fonts_answer (total : encode.Total) (before : s.fonts = used.eraseDups)
    (request : Request) :
    ((backendWith encode).answer s request).2.fonts =
      (used ++ employed encode s request).eraseDups := by
  cases request with
  | draw what =>
    rcases answer_draw encode s what with ⟨records, t, run, answer⟩ | ⟨e, answer⟩
    · rw [employed, answer, if_pos rfl]
      exact (course_of_drawn run).2.fonts_eq before
    · rw [employed, answer, if_neg (by rintro ⟨⟩), List.append_nil]
      exact before
  | finalize runtime =>
    have none : employed encode s (.finalize runtime) = [] := employed_eq_nil rfl
    rw [none, List.append_nil, ← before]
    rcases answer_finalize total s runtime with ⟨result, t, run, answer⟩ | ⟨e, answer⟩
    · obtain ⟨_, _, rfl, _⟩ := of_finalize run
      rw [answer]
    · rw [answer]
  | abandon =>
    have none : employed encode s .abandon = [] := employed_eq_nil rfl
    rw [none, List.append_nil]
    exact before

theorem fonts_after {what : Compositor → Request → List Font} {requests : List Request}
    (step : ∀ request ∈ requests, ∀ {s : Compositor} {used : List Font},
      s.fonts = used.eraseDups → ((backendWith encode).answer s request).2.fonts =
        (used ++ what s request).eraseDups)
    (before : s.fonts = used.eraseDups) :
    ((backendWith encode).after s requests).fonts =
      (used ++ (backendWith encode).collected what s requests).eraseDups := by
  induction requests generalizing s used with
  | nil =>
    rw [Backend.collected, List.append_nil]
    exact before
  | cons request rest ih =>
    obtain ⟨first, others⟩ := List.forall_mem_cons.1 step
    rw [Backend.collected, ← List.append_assoc]
    exact ih others (first before)

def Inked (requests : List Request) : Prop :=
  ∀ text options, Request.draw (.drawText text options) ∈ requests → text ≠ "" → HasInk text

theorem eraseDups_append_replicate (used : List Font) (font : Font) (n : Nat) :
    (used ++ List.replicate (n + 1) font).eraseDups = (used ++ [font]).eraseDups := by
  induction n with
  | zero => rfl
  | succ n ih =>
    rw [List.replicate_succ', ← List.append_assoc, eraseDups_concat, if_pos, ih]
    simp

theorem eraseDups_lettered {requests : List Request} (ink : Inked requests) {request : Request}
    (mem : request ∈ requests) (s : Compositor) (used : List Font) :
    (used ++ (lettered encode s request).map Prod.snd).eraseDups =
      (used ++ employed encode s request).eraseDups := by
  rw [lettered, employed]
  by_cases ok : ((backendWith encode).answer s request).1 = .ok ()
  · rw [if_pos ok, if_pos ok]
    cases request with
    | draw what =>
      cases what with
      | drawText text options =>
        by_cases empty : text = ""
        · subst empty
          rfl
        · obtain ⟨string, more, strings⟩ :=
            List.exists_cons_of_ne_nil (stringsOf_ne_nil_iff.2 (ink text options mem empty))
          have fonts : ((s.stringsOf text options).map (·, s.font)).map Prod.snd =
              List.replicate (more.length + 1) s.font := by
            rw [strings, List.map_map]
            exact List.map_const'
          rw [asked, fonts, employs, if_neg empty]
          exact eraseDups_append_replicate used s.font more.length
      | addPage | setFont | setFontSize | setFillColor => rfl
    | finalize | abandon => rfl
  · rw [if_neg ok, if_neg ok]
    rfl

theorem finalize_of_opened (total : encode.Total) {options : Options}
    (created : create options = .ok s) {requests : List Request}
    (opened : ((backendWith encode).after s requests).stage = .drawing) :
    let t := (backendWith encode).after s requests
    ∃ document records shown,
      ((finalize encode true).run t).1 = .ok (document, records) ∧
      document.fonts = fontDict t.fonts ∧ t.shown? = some shown ∧
      List.Forall₂ (Resolves document.fonts t.fonts.length) shown
        ((backendWith encode).collected (lettered encode) s requests) := by
  intro t
  have blank : s.Legible [] := by
    obtain ⟨font, _, _, _, rfl⟩ := of_create created
    exact ⟨[], .nil, .nil⟩
  obtain ⟨shown, reads, names⟩ := blank.after total requests opened
  obtain ⟨contents, ok⟩ := contents_of_total total t
  refine ⟨t.document contents, [promised contents.length t.fonts.length], shown, ?_, rfl,
    reads.mapM_shown?, names.imp fun _ _ => resolves_of_names⟩
  rw [finalize_of_drawing opened, ok]
  rfl

/-- Whatever is asked of a session: as long as it is open, the document that would be written has
the fonts of the texts with characters that were drawn, numbered in the order of their first use,
and every string on the pages shows in one of them. If no text was of white space only, they are
the fonts that show a string, in the order in which they first do. -/
theorem fonts_numbered_by_first_use (total : encode.Total) {options : Options}
    (created : create options = .ok s) (requests : List Request)
    (opened : ((backendWith encode).after s requests).stage = .drawing) :
    let t := (backendWith encode).after s requests
    let drawn := (backendWith encode).collected (lettered encode) s requests
    ∃ document records shown,
      ((finalize encode true).run t).1 = .ok (document, records) ∧ t.shown? = some shown ∧
      List.Forall₂ (Resolves document.fonts t.fonts.length) shown drawn ∧
      document.fonts =
        fontDict ((backendWith encode).collected (employed encode) s requests).eraseDups ∧
      (Inked requests → document.fonts = fontDict (drawn.map Prod.snd).eraseDups) := by
  intro t drawn
  obtain ⟨document, records, shown, promised, fonts, reads, all⟩ :=
    finalize_of_opened total created opened
  have blank : s.fonts = ([] : List Font).eraseDups := by
    obtain ⟨font, _, _, _, rfl⟩ := of_create created
    rfl
  refine ⟨document, records, shown, promised, reads, all, ?_, ?_⟩
  · have enlisted : t.fonts =
        ([] ++ (backendWith encode).collected (employed encode) s requests).eraseDups := by
      apply fonts_after _ blank
      intro request _ s used before
      exact fonts_answer total before request
    rw [fonts, enlisted, List.nil_append]
  · intro ink
    have enlisted : t.fonts = ([] ++ (backendWith encode).collected
        (fun s request => (lettered encode s request).map Prod.snd) s requests).eraseDups := by
      apply fonts_after _ blank
      intro request mem s used before
      rw [eraseDups_lettered ink mem]
      exact fonts_answer total before request
    rw [fonts, enlisted, Backend.collected_map, List.nil_append]

theorem fonts_numbered_two :
    let encode : Encoder := fun instructions => .ok (Layout.encode instructions)
    let s : Compositor :=
      { page := ⟨612, 792⟩, margin := 72, info := ({} : Options).info, cursor := 72,
        font := .helvetica, fontSize := 12 }
    let requests : List Request :=
      [.draw .addPage, .draw (.setFont "Courier"), .draw (.drawText " \none" {}),
        .draw (.setFont "Helvetica"), .draw (.drawText "" {}), .draw (.setFont "Symbol"),
        .draw (.drawText "two" {}), .draw (.setFont "Courier"), .draw (.drawText "three" {}),
        .finalize false]
    let t := (backendWith encode).after s requests
    encode.Total ∧ create {} = .ok s ∧ Inked requests ∧ t.stage = .drawing ∧
      ∃ document records shown,
        ((finalize encode true).run t).1 = .ok (document, records) ∧ t.shown? = some shown ∧
        List.Forall₂ (Resolves document.fonts t.fonts.length) shown
          [(latin "one", .courier), (latin "two", .symbol), (latin "three", .courier)] ∧
        document.fonts = fontDict [.courier, .symbol] := by
  intro encode s requests t
  have total : encode.Total := fun instructions => ⟨_, rfl⟩
  have created : create {} = .ok s := by decide +kernel
  have opened : t.stage = .drawing := by decide +kernel
  have ink : Inked requests := by
    have one : HasInk " \none" := ⟨'o', by decide, by decide⟩
    have two : HasInk "two" := ⟨'t', by decide, by decide⟩
    have three : HasInk "three" := ⟨'t', by decide, by decide⟩
    intro text options mem some
    simp only [requests, List.mem_cons, Request.draw.injEq, Drawing.drawText.injEq, reduceCtorEq,
      List.not_mem_nil, false_or, or_false] at mem
    rcases mem with ⟨rfl, _⟩ | ⟨rfl, _⟩ | ⟨rfl, _⟩ | ⟨rfl, _⟩
    · exact one
    · exact absurd rfl some
    · exact two
    · exact three
  have drawn : (backendWith encode).collected (lettered encode) s requests =
      [(latin "one", .courier), (latin "two", .symbol), (latin "three", .courier)] := by
    decide +kernel
  obtain ⟨document, records, shown, promised, reads, all, _, fonts⟩ :=
    fonts_numbered_by_first_use total created requests opened
  refine ⟨total, created, ink, opened, document, records, shown, promised, reads, drawn ▸ all, ?_⟩
  rw [fonts ink, drawn]
  rfl

/-- A text of one space shows nothing, and still its font is in the document. -/
theorem blank_text_takes_font :
    let encode : Encoder := fun instructions => .ok (Layout.encode instructions)
    let s : Compositor :=
      { page := ⟨612, 792⟩, margin := 72, info := ({} : Options).info, cursor := 72,
        font := .helvetica, fontSize := 12 }
    let t := (backendWith encode).after s [.draw .addPage, .draw (.drawText " " {})]
    create {} = .ok s ∧ t.shown? = some [] ∧
      ∃ document records, ((finalize encode true).run t).1 = .ok (document, records) ∧
        (Pdf.Object.dict document.fonts).value.baseFont? "F1" = some (ascii "Helvetica") := by
  intro encode s t
  have created : create {} = .ok s := by decide +kernel
  have total : encode.Total := fun instructions => ⟨_, rfl⟩
  have opened : t.stage = .drawing := by decide +kernel
  have pages : t.pages = [{}] := by decide +kernel
  have fonts : t.fonts = [.helvetica] := by decide +kernel
  obtain ⟨contents, ok⟩ := contents_of_total total t
  refine ⟨created, ?_, t.document contents, [promised contents.length t.fonts.length], ?_, ?_⟩
  · rw [shown?, pages]
    rfl
  · rw [finalize_of_drawing opened, ok]
    rfl
  · rw [document, fonts]
    have first : [Font.helvetica][0]? = some .helvetica := rfl
    exact baseFont?_fontDict first

end Compositor

end Folio
