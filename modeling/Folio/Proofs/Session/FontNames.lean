import Folio.Proofs.Layout.TextState
import Folio.Proofs.Pdf.ReadBack
import Folio.Proofs.Pdf.Word
import Folio.Proofs.Session.Flow
import Folio.Proofs.Session.Lifecycle
import Mathlib.Data.List.Nodup

/-! # Names of fonts

A font gets its name when it is first used, and keeps it. A page names a font only where it
changes. Whoever reads the pages with the fonts of the document at hand finds every string in the
font in which it was drawn.
-/

namespace Folio

namespace Pdf

def Value.baseFont? (name : String) : Value → Option Bytes
  | .dict fonts =>
    match fonts.lookup (ascii name) with
    | some (.dict font) =>
      match font.lookup (ascii "BaseFont") with
      | some (.name base) => some base
      | _ => none
    | _ => none
  | _ => none

end Pdf

namespace Layout

theorem ascii_fontName_injective : Function.Injective fun n => ascii (fontName n) := by
  intro m n same
  change ascii ("F" ++ toString m) = ascii ("F" ++ toString n) at same
  rw [ascii_append, ascii_append] at same
  have digits := List.append_cancel_left same
  rw [← (Pdf.numeral_toString m).spelled_eq, digits, (Pdf.numeral_toString n).spelled_eq]

theorem fontName_ne_empty (n : Nat) : fontName n ≠ "" := by
  intro empty
  have letters := congrArg String.toList empty
  simp [fontName] at letters

def Page.shown? (page : Page) : Option (List Shown) :=
  (TextState.run {} page.instructions).map Prod.snd

/-- The reader of pages, the latest of which comes first, sees these strings. No page ends within a
text. -/
inductive Reads : List Page → List Shown → Prop
  | nil : Reads [] []
  | cons {page : Page} {earlier : List Page} {state : TextState} {front behind : List Shown}
      (before : Reads earlier front) (last : Tracks page state behind)
      (outside : state.inText = false) : Reads (page :: earlier) (front ++ behind)

theorem Reads.mapM_shown? {pages : List Page} {shown : List Shown} (reads : Reads pages shown) :
    (pages.reverse.mapM Page.shown?).map List.flatten = some shown := by
  induction reads with
  | nil => rfl
  | @cons page earlier state front behind before last outside ih =>
    obtain ⟨parts, each, rfl⟩ := Option.map_eq_some_iff.1 ih
    have own : page.shown? = some behind := by rw [Page.shown?, last.run]; rfl
    simp [each, own]

structure Names (fonts : List Font) (shown : Shown) (drawn : Bytes × Font) : Prop where
  string : shown.string = drawn.1
  name : ∃ index, fonts[index]? = some drawn.2 ∧ shown.font = fontName (index + 1)

theorem Names.mono {before after : List Font} (more : before <+: after) {shown : Shown}
    {drawn : Bytes × Font} (names : Names before shown drawn) : Names after shown drawn where
  string := names.string
  name := by
    obtain ⟨added, rfl⟩ := more
    obtain ⟨index, used, name⟩ := names.name
    have bound := (List.getElem?_eq_some_iff.1 used).1
    exact ⟨index, (List.getElem?_append_left bound).trans used, name⟩

end Layout

namespace Compositor

open Layout (Line Page Reads Names Shown Tracks latin fontName)

variable {encode : Encoder} {s t : Compositor}

section Dictionary

theorem mem_fontDict {fonts : List Font} {index : Nat} {font : Font}
    (used : fonts[index]? = some font) :
    (ascii (fontName (index + 1)), fontObject font) ∈ fontDict fonts :=
  List.mem_map.2 ⟨(font, index), List.mem_zipIdx_iff_getElem?.2 used, rfl⟩

theorem nodup_fontDict (fonts : List Font) : ((fontDict fonts).map Prod.fst).Nodup := by
  have keys : (fontDict fonts).map Prod.fst =
      (List.range' 0 fonts.length).map fun index => ascii (fontName (index + 1)) := by
    rw [fontDict, List.map_map, ← List.zipIdx_map_snd, List.map_map]
    rfl
  rw [keys]
  refine List.Nodup.map (fun m n same => ?_) List.nodup_range'
  exact Nat.succ.inj (Layout.ascii_fontName_injective same)

theorem baseFont?_fontDict {fonts : List Font} {index : Nat} {font : Font}
    (used : fonts[index]? = some font) :
    (Pdf.Object.dict (fontDict fonts)).value.baseFont? (fontName (index + 1)) =
      some (ascii font.name) := by
  have values :
      (Pdf.entryValues (fontDict fonts)).map Prod.fst = (fontDict fonts).map Prod.fst := by
    rw [Pdf.entryValues_eq_map, List.map_map]
    rfl
  have entry : (ascii (fontName (index + 1)), (fontObject font).value) ∈
      Pdf.entryValues (fontDict fonts) := by
    rw [Pdf.entryValues_eq_map]
    exact List.mem_map.2 ⟨_, mem_fontDict used, rfl⟩
  have found := Ordered.lookup_ofList_of_mem (values ▸ nodup_fontDict fonts) entry
  rw [Pdf.Object.value, Pdf.Value.baseFont?, found]
  cases font <;> rfl

end Dictionary

/-- More fonts are in use than before, and each of them once if it was so before. -/
structure Enlists (before after : List Font) : Prop where
  isPrefix : before <+: after
  nodup : before.Nodup → after.Nodup

namespace Enlists

theorem refl (fonts : List Font) : Enlists fonts fonts := ⟨List.prefix_refl _, id⟩

theorem trans {first middle last : List Font} (one : Enlists first middle)
    (two : Enlists middle last) : Enlists first last :=
  ⟨one.isPrefix.trans two.isPrefix, two.nodup ∘ one.nodup⟩

end Enlists

theorem fontNumber_spec (s : Compositor) (font : Font) :
    ∃ index, (s.fontNumber font).1 = index + 1 ∧
      (s.fontNumber font).2.fonts[index]? = some font ∧
      Enlists s.fonts (s.fontNumber font).2.fonts := by
  rw [fontNumber]
  split
  · rename_i index found
    obtain ⟨bound, same, _⟩ := List.findIdx?_eq_some_iff_getElem.1 found
    refine ⟨index, rfl, ?_, .refl _⟩
    rw [List.getElem?_eq_getElem bound, of_decide_eq_true same]
  · rename_i absent
    have fresh : font ∉ s.fonts := by
      intro mem
      simpa using List.findIdx?_eq_none_iff.1 absent font mem
    refine ⟨s.fonts.length, rfl, by simp, List.prefix_append _ _, fun nodup => ?_⟩
    exact nodup.append (List.nodup_singleton font) (List.disjoint_singleton.2 fresh)

theorem fontNumber_of_isPrefix (more : s.fonts <+: t.fonts) {font : Font} (used : font ∈ s.fonts) :
    (t.fontNumber font).1 = (s.fontNumber font).1 := by
  obtain ⟨added, fonts⟩ := more
  have found : (s.fonts.findIdx? (· = font)).isSome := by
    rw [List.findIdx?_isSome, List.any_eq_true]
    exact ⟨font, used, decide_eq_true rfl⟩
  obtain ⟨index, found⟩ := Option.isSome_iff_exists.1 found
  have later : t.fonts.findIdx? (· = font) = some index := by
    rw [← fonts, List.findIdx?_append, found]
    rfl
  rw [fontNumber, fontNumber, found, later]

theorem fonts_drawLines (s : Compositor) (style : Style) (lines : List Line) :
    (s.drawLines style lines).1.fonts = s.fonts :=
  kept_drawLines fonts (fun _ => rfl) (fun _ _ _ => rfl) s style lines

theorem Course.enlists {what : Drawing} {records : List Record}
    (course : Course s what t records) : Enlists s.fonts t.fonts := by
  cases course with
  | textDrawn =>
    rw [fonts_drawLines]
    obtain ⟨_, _, _, enlists⟩ := s.fontNumber_spec s.font
    exact enlists
  | pageAdded | fontSet | sizeSet | colorSet | nothingDrawn => exact .refl _

theorem enlists_answer (total : encode.Total) (s : Compositor) (request : Request) :
    Enlists s.fonts ((backendWith encode).answer s request).2.fonts := by
  cases request with
  | draw what =>
    rcases answer_draw encode s what with ⟨records, t, run, answer⟩ | ⟨e, answer⟩
    · rw [answer]
      exact (course_of_drawn run).2.enlists
    · rw [answer]
      exact .refl _
  | finalize runtime =>
    rcases answer_finalize total s runtime with ⟨result, t, run, answer⟩ | ⟨e, answer⟩
    · obtain ⟨_, _, rfl, _⟩ := of_finalize run
      rw [answer]
      exact .refl _
    · rw [answer]
      exact .refl _
  | abandon => exact .refl _

theorem enlists_after (total : encode.Total) (s : Compositor) (requests : List Request) :
    Enlists s.fonts ((backendWith encode).after s requests).fonts := by
  induction requests generalizing s with
  | nil => exact .refl _
  | cons request rest ih => exact (enlists_answer total s request).trans (ih _)

structure LineShown (margin : Float32) (style : Style) (shown : Shown) (line : Line) : Prop where
  string : shown.string = latin line.text
  x : shown.x = margin + (placement style.align line style.width).1
  font : shown.font = style.font
  size : style.size.isNaN = false → (shown.size == style.size) = true
  fill : shown.fill = style.color.unit
  wordSpacing : (placement style.align line style.width).2.isNaN = false →
    (shown.wordSpacing == (placement style.align line style.width).2) = true

section Lines

variable {shown : List Shown}

theorem reads_startPage (reads : Reads s.pages shown) : Reads s.startPage.pages shown := by
  have fresh := Reads.cons reads Tracks.start rfl
  rw [List.append_nil] at fresh
  exact fresh

theorem reads_placeLine (reads : Reads s.pages shown) (page : s.pages ≠ []) {style : Style}
    (named : style.font ≠ "") (line : Line) :
    ∃ new, Reads (s.placeLine style line).pages (shown ++ new) ∧
      List.Forall₂ (LineShown s.margin style) new (if line.text = "" then [] else [line]) := by
  obtain ⟨page, earlier, pages⟩ := List.exists_cons_of_ne_nil page
  rw [pages] at reads
  cases reads with
  | @cons _ _ state front behind before last outside =>
    have some : (s.run style line).font ≠ "" := named
    obtain ⟨after, size, wordSpacing, tracks, outside, sized, spaced⟩ :=
      last.draw_named outside some
    have placed : (s.placeLine style line).pages = page.draw (s.run style line) :: earlier := by
      simp only [placeLine, pages]
    have whole := Reads.cons before tracks outside
    rw [← List.append_assoc] at whole
    refine ⟨_, placed ▸ whole, ?_⟩
    by_cases empty : line.text = ""
    · rw [if_pos empty, if_pos (by simp [Compositor.run, empty])]
      exact .nil
    · rw [if_neg empty, if_neg (by simpa [Compositor.run] using empty)]
      exact .cons ⟨rfl, rfl, rfl, sized, rfl, spaced⟩ .nil

theorem reads_drawLines (reads : Reads s.pages shown) (page : s.pages ≠ []) {style : Style}
    (named : style.font ≠ "") (lines : List Line) :
    ∃ new, Reads (s.drawLines style lines).1.pages (shown ++ new) ∧
      List.Forall₂ (LineShown s.margin style) new (lines.filter fun line => line.text ≠ "") := by
  induction lines generalizing s shown with
  | nil => exact ⟨[], (List.append_nil shown).symm ▸ reads, .nil⟩
  | cons line rest ih =>
    have filtered := Layout.map_filter_cons id line rest
    rw [List.map_id, List.map_id] at filtered
    have step {s : Compositor} (reads : Reads s.pages shown) (page : s.pages ≠ []) :
        ∃ new, Reads ((s.placeLine style line).drawLines style rest).1.pages (shown ++ new) ∧
          List.Forall₂ (LineShown s.margin style) new
            ((line :: rest).filter fun line => line.text ≠ "") := by
      obtain ⟨one, placed, first⟩ := reads_placeLine reads page named line
      obtain ⟨others, whole, later⟩ := ih placed (pages_placeLine_ne_nil page style line)
      rw [List.append_assoc] at whole
      rw [filtered]
      exact ⟨one ++ others, whole, List.rel_append first later⟩
    rw [drawLines]
    split
    · exact step (reads_startPage reads) (List.cons_ne_nil _ _)
    · exact step reads page

end Lines

/-- Whoever reads the pages sees what was drawn, each string under the name of its font. -/
def Legible (s : Compositor) (drawn : List (Bytes × Font)) : Prop :=
  ∃ shown, Reads s.pages shown ∧ List.Forall₂ (Names s.fonts) shown drawn

def lettered (encode : Encoder) (s : Compositor) (request : Request) : List (Bytes × Font) :=
  if ((backendWith encode).answer s request).1 = .ok () then (s.asked request).map (·, s.font)
  else []

namespace Legible

variable {drawn : List (Bytes × Font)} {font : Font}

theorem of_pages (legible : s.Legible drawn) (same : t.pages = s.pages)
    (more : s.fonts <+: t.fonts) : t.Legible drawn := by
  obtain ⟨shown, reads, names⟩ := legible
  exact ⟨shown, same ▸ reads, names.imp fun _ _ => Names.mono more⟩

theorem startPage (legible : s.Legible drawn) : s.startPage.Legible drawn := by
  obtain ⟨shown, reads, names⟩ := legible
  exact ⟨shown, reads_startPage reads, names⟩

theorem drawLines (legible : s.Legible drawn) (page : s.pages ≠ []) {style : Style} {index : Nat}
    (used : s.fonts[index]? = some font) (named : style.font = fontName (index + 1))
    (lines : List Line) :
    (s.drawLines style lines).1.Legible
      (drawn ++ (lines.filter fun line => line.text ≠ "").map fun line =>
        (latin line.text, font)) := by
  obtain ⟨shown, reads, names⟩ := legible
  have some : style.font ≠ "" := by
    rw [named]
    exact Layout.fontName_ne_empty _
  obtain ⟨new, whole, shows⟩ := reads_drawLines reads page some lines
  refine ⟨shown ++ new, whole, ?_⟩
  rw [fonts_drawLines]
  refine List.rel_append names (List.forall₂_map_right_iff.2 (shows.imp fun one line shows => ?_))
  exact ⟨shows.string, index, used, shows.font.trans named⟩

theorem drawText (legible : s.Legible drawn) {text : String} {options : TextOptions}
    {records : List Record} (course : Course s (.drawText text options) t records) :
    t.Legible (drawn ++ (s.stringsOf text options).map (·, s.font)) := by
  cases course with
  | nothingDrawn settled =>
    rw [show s.stringsOf "" options = [] from rfl, List.map_nil, List.append_nil]
    exact legible
  | @textDrawn _ _ align width some settled =>
    obtain ⟨index, number, used, enlists⟩ := s.fontNumber_spec s.font
    have numbered := s.pages_fontNumber s.font
    have named : (s.style align width).font = fontName (index + 1) := by
      rw [style, number]
    have lines := (legible.of_pages numbered enlists.isPrefix).drawLines
      (numbered ▸ settled.page) used named (s.linesOf text width)
    rw [stringsOf, settled.width_eq, filter_isBlank, List.map_map]
    exact lines

theorem course (legible : s.Legible drawn) {what : Drawing} {records : List Record}
    (course : Course s what t records) :
    t.Legible (drawn ++ (s.asked (.draw what)).map (·, s.font)) := by
  cases what with
  | drawText text options => exact legible.drawText course
  | addPage =>
    cases course
    rw [show s.asked (.draw .addPage) = [] from rfl, List.map_nil, List.append_nil]
    exact legible.startPage
  | setFont | setFontSize | setFillColor =>
    cases course
    refine Eq.subst (List.append_nil drawn).symm ?_
    exact legible.of_pages rfl (List.prefix_refl _)

theorem answer (total : encode.Total) (legible : s.Legible drawn) {request : Request}
    (opened : ((backendWith encode).answer s request).2.stage = .drawing) :
    ((backendWith encode).answer s request).2.Legible (drawn ++ lettered encode s request) := by
  cases request with
  | draw what =>
    rcases answer_draw encode s what with ⟨records, t, run, answer⟩ | ⟨e, answer⟩
    · rw [lettered, answer, if_pos rfl]
      exact legible.course (course_of_drawn run).2
    · rw [lettered, answer, if_neg (by rintro ⟨⟩), List.append_nil]
      exact legible
  | finalize runtime =>
    rcases answer_finalize total s runtime with ⟨result, t, run, answer⟩ | ⟨e, answer⟩
    · obtain ⟨_, _, rfl, _⟩ := of_finalize run
      rw [answer] at opened
      cases opened
    · rw [lettered, answer, if_neg (by rintro ⟨⟩), List.append_nil]
      exact legible
  | abandon => cases opened

theorem after (total : encode.Total) (legible : s.Legible drawn) (requests : List Request)
    (opened : ((backendWith encode).after s requests).stage = .drawing) :
    ((backendWith encode).after s requests).Legible
      (drawn ++ (backendWith encode).collected (lettered encode) s requests) := by
  induction requests generalizing s drawn with
  | nil =>
    rw [Backend.collected, List.append_nil]
    exact legible
  | cons request rest ih =>
    have whole := ih (legible.answer total (drawing_of_after opened)) opened
    rw [List.append_assoc] at whole
    exact whole

end Legible

def shown? (s : Compositor) : Option (List Shown) :=
  (s.pages.reverse.mapM Page.shown?).map List.flatten

/-- A string shows under the name of one of so many fonts in use, and under that name a reader finds
the font in which the string was drawn. -/
structure Resolves (fonts : Pdf.Dict) (used : Nat) (shown : Shown) (drawn : Bytes × Font) :
    Prop where
  string : shown.string = drawn.1
  name : ∃ k, 1 ≤ k ∧ k ≤ used ∧ shown.font = fontName k
  base : (Pdf.Object.dict fonts).value.baseFont? shown.font = some (ascii drawn.2.name)

theorem resolves_of_names {fonts : List Font} {shown : Shown} {drawn : Bytes × Font}
    (names : Names fonts shown drawn) : Resolves (fontDict fonts) fonts.length shown drawn := by
  obtain ⟨index, used, name⟩ := names.name
  have bound := (List.getElem?_eq_some_iff.1 used).1
  exact
    { string := names.string
      name := ⟨index + 1, Nat.succ_pos index, bound, name⟩
      base := by rw [name, baseFont?_fontDict used] }

/-- Whatever is asked of a session: no font is in use twice, a font in use keeps its number, and as
long as the session is open every string on its pages shows in the font that the session had when
the string was drawn, by the fonts of the document that would be written. -/
theorem shown_fonts_resolve (total : encode.Total) {options : Options}
    (created : create options = .ok s) (front behind : List Request) :
    let before := (backendWith encode).after s front
    let t := (backendWith encode).after s (front ++ behind)
    t.fonts.Nodup ∧
      (∀ font ∈ before.fonts, (t.fontNumber font).1 = (before.fontNumber font).1) ∧
      (t.stage = .drawing → ∃ document records shown,
        ((finalize encode true).run t).1 = .ok (document, records) ∧
        t.contents encode = .ok document.contents ∧ t.shown? = some shown ∧
        List.Forall₂ (Resolves document.fonts t.fonts.length) shown
          ((backendWith encode).collected (lettered encode) s (front ++ behind))) := by
  intro before t
  have fresh : s.fonts = [] ∧ s.pages = [] := by
    obtain ⟨font, _, _, _, rfl⟩ := of_create created
    exact ⟨rfl, rfl⟩
  have later : t = (backendWith encode).after before behind := Backend.after_append _ s front behind
  refine ⟨?_, fun font used => ?_, fun opened => ?_⟩
  · refine (enlists_after total s (front ++ behind)).nodup ?_
    rw [fresh.1]
    exact List.nodup_nil
  · rw [later]
    exact fontNumber_of_isPrefix (enlists_after total before behind).isPrefix used
  · have blank : s.Legible [] := ⟨[], fresh.2 ▸ .nil, .nil⟩
    obtain ⟨shown, reads, names⟩ := blank.after total (front ++ behind) opened
    obtain ⟨contents, ok⟩ := contents_of_total total t
    have promised : ((finalize encode true).run t).1 =
        .ok (t.document contents, [promised contents.length t.fonts.length]) := by
      rw [finalize_of_drawing opened, ok]
      rfl
    exact ⟨_, _, shown, promised, ok, reads.mapM_shown?,
      names.imp fun _ _ => resolves_of_names⟩

theorem shown_fonts_resolve_two :
    let encode : Encoder := fun instructions => .ok (Layout.encode instructions)
    let options : Options := { size := .custom ⟨100, 60⟩, margin := 10 }
    let s : Compositor :=
      { page := ⟨100, 60⟩, margin := 10, info := options.info, cursor := 10, font := .helvetica,
        fontSize := 12 }
    let front : List Request :=
      [.draw .addPage, .draw (.drawText "one\ntwo" {}), .draw (.setFont "Courier"),
        .draw (.drawText "three" {})]
    let behind : List Request :=
      [.draw (.setFont "Gothic"), .draw (.drawText "four" {}), .finalize false,
        .draw (.setFont "Helvetica"), .draw (.drawText "five" {})]
    let t := (backendWith encode).after s (front ++ behind)
    encode.Total ∧ create options = .ok s ∧ t.fonts = [.helvetica, .courier] ∧ t.pageCount = 3 ∧
      ∃ document records shown,
        ((finalize encode true).run t).1 = .ok (document, records) ∧ t.shown? = some shown ∧
        List.Forall₂ (Resolves document.fonts 2) shown
          [(latin "one", .helvetica), (latin "two", .helvetica), (latin "three", .courier),
            (latin "four", .courier), (latin "five", .helvetica)] := by
  intro encode options s front behind t
  have total : encode.Total := fun instructions => ⟨_, rfl⟩
  have created : create options = .ok s := by decide +kernel
  have opened : t.stage = .drawing := by decide +kernel
  have fonts : t.fonts = [.helvetica, .courier] := by decide +kernel
  have drawn : (backendWith encode).collected (lettered encode) s (front ++ behind) =
      [(latin "one", .helvetica), (latin "two", .helvetica), (latin "three", .courier),
        (latin "four", .courier), (latin "five", .helvetica)] := by
    decide +kernel
  obtain ⟨_, _, resolves⟩ := shown_fonts_resolve total created front behind
  obtain ⟨document, records, shown, promised, _, reads, all⟩ := resolves opened
  have two : t.fonts.length = 2 := by rw [fonts]; rfl
  exact ⟨total, created, fonts, by decide +kernel, document, records, shown, promised, reads,
    two ▸ drawn ▸ all⟩

end Compositor

end Folio
