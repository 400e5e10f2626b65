import Folio.Proofs.Number.Comparison
import Folio.Proofs.Session.FontNames
import Folio.Proofs.Session.Recorded
import Folio.Proofs.Tag.Styling

/-! # Texts in their style

What a document sets about the style of its texts is what a recorder records of them and what a
reader sees of them, whatever a page has to set again when it begins.
-/

namespace Folio

open Layout (Line Shown Names Reads latin fontName)

def Entry.piece? : Entry → Option Piece
  | .drawText text font size color options => some ⟨text, ⟨font, size, color⟩, options⟩
  | .addPage | .setFont _ | .setFontSize _ | .setFillColor _ | .finalize | .abandon => none

def Recording.pieces (recording : Recording) : List Piece :=
  recording.entries.filterMap Entry.piece?

namespace Recorder

structure Shows (s : Recorder) (x : Sheet) : Prop where
  face : x.face = ⟨s.font, s.fontSize, s.color⟩
  pieces : s.recording.pieces = x.pieces
  kept : s.recording.entries = s.entries

theorem pieces_record (s : Recorder) (entry : Entry) :
    (s.record entry).recording.pieces = s.recording.pieces ++ entry.piece?.toList := by
  rw [Recording.pieces, Recording.pieces, record, List.filterMap_append]
  cases entry <;> rfl

theorem step_of_course {s t : Recorder} {x : Sheet} {what : Drawing} (shows : s.Shows x)
    (course : Course s what t) : ∃ y, x.Step what y ∧ t.Shows y := by
  obtain ⟨⟨font, size, color⟩, pieces⟩ := x
  obtain ⟨face, recorded, kept⟩ := shows
  cases face
  have noted (entry : Entry) : (s.record entry).recording.entries = (s.record entry).entries :=
    congrArg (· ++ [entry]) kept
  have unwritten (entry : Entry) (none : entry.piece? = none) :
      (s.record entry).recording.pieces = pieces := by
    rw [pieces_record, none, recorded]
    exact List.append_nil _
  cases course with
  | pageAdded => exact ⟨_, .addPage, rfl, unwritten .addPage rfl, noted .addPage⟩
  | @fontSet name _ known =>
    exact ⟨_, .setFont known, rfl, unwritten (.setFont name) rfl, noted (.setFont name)⟩
  | @sizeSet size =>
    exact ⟨_, .setFontSize, rfl, unwritten (.setFontSize size) rfl, noted (.setFontSize size)⟩
  | @colorSet _ color known =>
    exact ⟨_, .setFillColor known, rfl, unwritten (.setFillColor color) rfl,
      noted (.setFillColor color)⟩
  | textDrawn =>
    refine ⟨_, .drawText, rfl, ?_, noted _⟩
    rw [pieces_record, recorded]
    rfl

theorem keeps_sheets : Backend.Keeps backend Shows := by
  intro s x what shows granted
  cases drawn : s.drawn what with
  | error e =>
    simp only [backend, drawn] at granted
    cases granted
  | ok t =>
    simp only [backend, drawn]
    exact step_of_course shows (drawn_eq_ok_iff.1 drawn).2

theorem shows_of_create {document : Options} {s : Recorder} (created : create document = .ok s) :
    ∃ font, Font.ofName? document.font = some font ∧
      s.Shows ⟨⟨font, document.fontSize, .black⟩, []⟩ := by
  rw [create] at created
  cases known : Font.ofName? document.font with
  | none =>
    rw [known] at created
    cases created
  | some font =>
    rw [known] at created
    cases created
    refine ⟨font, rfl, ?_, rfl, rfl⟩
    rw [start, known]
    rfl

end Recorder

/-- The lines of a text that are not blank, where lines may have this width unless the text says
another. -/
def Piece.lines (piece : Piece) (width : Float32) : List Line :=
  (Layout.wrap (piece.face.font.metrics.measure piece.face.size) (piece.options.width.getD width)
    piece.text).filter fun line => ¬ line.IsBlank

/-- A string shows as a line of a text: in the face of the text, and where the text puts lines that
may have this width. `named` says how a string shows in a font. -/
structure Prints (named : Shown → Bytes × Font → Prop) (margin width : Float32) (piece : Piece)
    (shown : Shown) (line : Line) : Prop where
  name : named shown (latin line.text, piece.face.font)
  size : (shown.size == piece.face.size) = true
  fill : shown.fill = piece.face.color.unit
  x : shown.x = margin + (Compositor.placement (piece.options.align.getD .left) line width).1
  wordSpacing :
    let spacing := (Compositor.placement (piece.options.align.getD .left) line width).2
    spacing.isNaN = false → (shown.wordSpacing == spacing) = true

def Sets (named : Shown → Bytes × Font → Prop) (margin width : Float32) (piece : Piece)
    (shown : List Shown) : Prop :=
  List.Forall₂ (Prints named margin (piece.options.width.getD width) piece) shown
    (piece.lines width)

theorem Sets.imp {named named' : Shown → Bytes × Font → Prop} {margin width : Float32}
    {piece : Piece} {shown : List Shown} (sets : Sets named margin width piece shown)
    (names : ∀ {shown drawn}, named shown drawn → named' shown drawn) :
    Sets named' margin width piece shown :=
  List.Forall₂.imp (fun _ _ prints => { prints with name := names prints.name }) sets

namespace Compositor

variable {encode : Encoder} {s t : Compositor} {margin width : Float32} {x : Sheet}

structure Shows (margin width : Float32) (s : Compositor) (x : Sheet) : Prop where
  margin_eq : s.margin = margin
  width_eq : s.contentWidth = width
  face : x.face = ⟨s.font, s.fontSize, s.color⟩
  finite : s.fontSize.isFinite = true
  parts : ∃ parts, Reads s.pages parts.flatten ∧
    List.Forall₂ (Sets (Names s.fonts) margin width) x.pieces parts

theorem Course.kept_drawText {α : Type} (f : Compositor → α)
    (page : ∀ s : Compositor, f s.startPage = f s)
    (placed : ∀ (s : Compositor) (style : Style) (line : Line), f (s.placeLine style line) = f s)
    (enlisted : ∀ (s : Compositor) (fonts : List Font), f { s with fonts := fonts } = f s)
    {text : String} {options : TextOptions} {records : List Record}
    (course : Course s (.drawText text options) t records) : f t = f s := by
  cases course with
  | nothingDrawn => rfl
  | textDrawn =>
    rw [kept_drawLines f page placed, fontNumber_snd]
    exact enlisted s _

theorem sets_drawText {shown : List Shown} (reads : Reads s.pages shown)
    (finite : s.fontSize.isFinite = true) {text : String} {options : TextOptions}
    {records : List Record} (course : Course s (.drawText text options) t records) :
    ∃ new, Reads t.pages (shown ++ new) ∧
      Sets (Names t.fonts) s.margin s.contentWidth
        ⟨text, ⟨s.font, s.fontSize, s.color⟩, options⟩ new := by
  cases course with
  | nothingDrawn => exact ⟨[], (List.append_nil shown).symm ▸ reads, .nil⟩
  | @textDrawn _ _ align width some settled =>
    obtain ⟨index, number, used, _⟩ := s.fontNumber_spec s.font
    have named : (s.style align width).font = fontName (index + 1) := by
      rw [style, number]
    have nameable : (s.style align width).font ≠ "" := by
      rw [named]
      exact Layout.fontName_ne_empty _
    rw [← s.pages_fontNumber s.font] at reads
    have page : (s.fontNumber s.font).2.pages ≠ [] := by
      rw [pages_fontNumber]
      exact settled.page
    obtain ⟨new, whole, lines⟩ := reads_drawLines reads page nameable (s.linesOf text width)
    refine ⟨new, whole, ?_⟩
    obtain rfl := settled.align_eq
    obtain rfl := settled.width_eq
    rw [fonts_drawLines, Sets, Piece.lines]
    rw [← filter_isBlank] at lines
    refine lines.imp fun one line shows => ?_
    rw [fontNumber_snd] at shows
    exact
      { name := ⟨shows.string, index, used, shows.font.trans named⟩
        size := shows.size (Number.isNaN_of_isFinite finite)
        fill := shows.fill
        x := shows.x
        wordSpacing := shows.wordSpacing }

theorem step_of_course {what : Drawing} {records : List Record} (shows : s.Shows margin width x)
    (course : Course s what t records) : ∃ y, x.Step what y ∧ t.Shows margin width y := by
  have more := course.enlists.isPrefix
  obtain ⟨⟨font, size, color⟩, pieces⟩ := x
  obtain ⟨rfl, rfl, face, finite, parts, reads, sets⟩ := shows
  cases face
  cases what with
  | addPage =>
    cases course
    exact ⟨_, .addPage, rfl, rfl, rfl, finite, parts, reads_startPage reads, sets⟩
  | setFont name =>
    cases course with
    | fontSet known => exact ⟨_, .setFont known, rfl, rfl, rfl, finite, parts, reads, sets⟩
  | setFontSize size =>
    cases course with
    | sizeSet positive =>
      exact ⟨_, .setFontSize, rfl, rfl, rfl, isFinite_of_checkPositive positive, parts, reads, sets⟩
  | setFillColor value =>
    cases course with
    | colorSet known => exact ⟨_, .setFillColor known, rfl, rfl, rfl, finite, parts, reads, sets⟩
  | drawText text options =>
    obtain ⟨new, whole, set⟩ := sets_drawText reads finite course
    have kept := course.kept_drawText
      (fun s => (s.margin, s.contentWidth, s.font, s.fontSize, s.color)) (fun _ => rfl)
      (fun _ _ _ => rfl) fun _ _ => rfl
    simp only [Prod.mk.injEq] at kept
    obtain ⟨margin, width, font, size, color⟩ := kept
    have earlier := sets.imp fun _ _ set => set.imp (Names.mono more)
    refine ⟨_, .drawText, margin, width, ?_, size ▸ finite, parts ++ [new], ?_, ?_⟩
    · rw [font, size, color]
    · rw [List.flatten_append, List.flatten_singleton]
      exact whole
    · exact List.rel_append earlier (.cons set .nil)

theorem keeps_sheets (encode : Encoder) (margin width : Float32) :
    (backendWith encode).Keeps (Shows margin width) := by
  intro s x what shows granted
  rcases run : (drawn what).run s with ⟨e | records, t⟩
  · simp only [backendWith, run] at granted
    cases granted
  · simp only [backendWith, run]
    exact step_of_course shows (course_of_drawn run).2

theorem shows_of_create {document : Options} (created : create document = .ok s) :
    ∃ font, Font.ofName? document.font = some font ∧
      s.Shows document.margin s.contentWidth ⟨⟨font, document.fontSize, .black⟩, []⟩ := by
  obtain ⟨font, known, positive, _, rfl⟩ := of_create created
  have finite := isFinite_of_checkPositive positive
  exact ⟨font, known, rfl, rfl, rfl, finite, [], .nil, .nil⟩

end Compositor

open Compositor (Resolves fontDict backendWith)

/-- A pass of the two standard tags that succeeds draws the texts below the root, one for one and in
the order of the markup, each in its style: a recorder records them so, and a reader of all pages of
a session that draws sees them so, by the fonts of its document. -/
theorem texts_drawn_in_style (document : Options) (root : Markup.Element) :
    let texts := textsOf (Markup.fieldsTags root.children)
    (∀ s summary, Recorder.create document = .ok s →
      let reply := (Registry.standard.pass root.children).run Recorder.backend s
      reply.result = .ok summary →
        Typeset document texts reply.session.recording.pieces ∧
          reply.session.recording.entries = reply.session.entries) ∧
    ∀ encode s summary, Compositor.create document = .ok s →
      let reply := (Registry.standard.pass root.children).run (backendWith encode) s
      reply.result = .ok summary →
        ∃ pieces parts, Typeset document texts pieces ∧
          reply.session.shown? = some parts.flatten ∧
          List.Forall₂ (Sets (Resolves (fontDict reply.session.fonts) reply.session.fonts.length)
            document.margin s.contentWidth) pieces parts := by
  intro texts
  constructor
  · intro s summary created reply ok
    obtain ⟨font, known, start⟩ := Recorder.shows_of_create created
    obtain ⟨sheet, shows, written⟩ :=
      written_of_pass Recorder.keeps_sheets start (Sheet.written_nil known) ok
    exact ⟨shows.pieces.symm ▸ written.typeset, shows.kept⟩
  · intro encode s summary created reply ok
    obtain ⟨font, known, start⟩ := Compositor.shows_of_create created
    obtain ⟨sheet, shows, written⟩ :=
      written_of_pass (Compositor.keeps_sheets encode _ _) start (Sheet.written_nil known) ok
    obtain ⟨parts, reads, sets⟩ := shows.parts
    refine ⟨sheet.pieces, parts, written.typeset, reads.mapM_shown?, sets.imp fun _ _ set => ?_⟩
    exact set.imp Compositor.resolves_of_names

theorem texts_drawn_in_style_of_three :
    let document : Options := { size := .custom ⟨200, 60⟩, margin := 10 }
    let text (content : String) (attributes : List (String × String)) : Markup.Element :=
      .mk "text" content (.ofList attributes) []
    let root := (((((Markup.Element.named "document").withChild (.named "page")).withChild
      (text "one" [("font", "Courier"), ("fontSize", "20"), ("color", "red")])).withChild
      (text "two" [("width", "100"), ("align", "center")])).withChild (.named "page")).withChild
      (text "three" [("fontSize", "10")])
    let s : Compositor :=
      { page := ⟨200, 60⟩, margin := 10, info := document.info, cursor := 10, font := .helvetica,
        fontSize := 12 }
    let encode : Compositor.Encoder := fun instructions => .ok (Layout.encode instructions)
    let recorded := (Registry.standard.pass root.children).run Recorder.backend (.start document)
    let drawn := (Registry.standard.pass root.children).run (backendWith encode) s
    let face (size : Float32) : Face := ⟨.courier, size, ⟨255, 0, 0⟩⟩
    Recorder.create document = .ok (.start document) ∧ Compositor.create document = .ok s ∧
      recorded.result = .ok ⟨5, 0⟩ ∧ drawn.result = .ok ⟨5, 0⟩ ∧ drawn.session.pageCount = 3 ∧
      recorded.session.recording.pieces =
        [⟨"one", face 20, {}⟩, ⟨"two", face 20, { width := some 100, align := some .center }⟩,
          ⟨"three", face 10, {}⟩] ∧
      Typeset document (textsOf (Markup.fieldsTags root.children))
        recorded.session.recording.pieces ∧
      ∃ pieces parts, Typeset document (textsOf (Markup.fieldsTags root.children)) pieces ∧
        drawn.session.shown? = some parts.flatten ∧
        List.Forall₂ (Sets (Resolves (fontDict drawn.session.fonts) drawn.session.fonts.length) 10
          s.contentWidth) pieces parts := by
  intro document text root s encode recorded drawn face
  have recorder : Recorder.create document = .ok (.start document) := by decide +kernel
  have compositor : Compositor.create document = .ok s := by decide +kernel
  have noted : recorded.result = .ok ⟨5, 0⟩ := by decide +kernel
  have shown : drawn.result = .ok ⟨5, 0⟩ := by decide +kernel
  obtain ⟨records, draws⟩ := texts_drawn_in_style document root
  exact ⟨recorder, compositor, noted, shown, by decide +kernel, by decide +kernel,
    (records _ _ recorder noted).1, draws encode s _ compositor shown⟩

end Folio
