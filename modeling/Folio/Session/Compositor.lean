import Folio.Layout.Line
import Folio.Layout.Page
import Folio.Pdf.File
import Folio.Session.Backend

/-! # The compositor

The session that draws. Text flows down from the top of the page, each draw on a line of its own,
and goes on on a new page when a line would cross the bottom margin. A line that is taller than
the page is drawn all the same, at the top of a page.
-/

namespace Folio

inductive Stage where
  | drawing
  | finalized
  /-- It was told to give up, before or after it promised its output. -/
  | abandoned
  deriving Repr, DecidableEq

structure Compositor where
  page : Dimensions
  margin : Float32
  info : Info
  /-- The pages, the latest first. -/
  pages : List Layout.Page := []
  /-- How far the top of the next line is below the top of the page. -/
  cursor : Float32
  font : Font
  fontSize : Float32
  color : Color := .black
  /-- The fonts in the order of their first use. -/
  fonts : List Font := []
  stage : Stage := .drawing
  deriving DecidableEq

namespace Compositor

open Layout (Line TextRun Page)

/-- The distance from line to line in font sizes. -/
def lineHeightFactor : Float32 := 1.156

/-- The distance from the top of a line to its baseline in font sizes. -/
def ascentFactor : Float32 := 0.8

def checkPositive (what : Quantity) (value : Float32) : Except SessionError Float32 :=
  if value.isFinite && value > 0 then .ok value else .error (.invalidValue what value)

def create (options : Options) : Except SessionError Compositor := do
  let some font := Font.ofName? options.font | throw (.fontNotFound options.font)
  let fontSize ← checkPositive .fontSize options.fontSize
  if options.margin ≥ 0 && options.margin * 2 < options.page.shortest then
    return {
      page := options.page
      margin := options.margin
      info := options.info
      cursor := options.margin
      font := font
      fontSize := fontSize }
  else throw (.invalidValue .margin options.margin)

def pageCount (s : Compositor) : Nat := s.pages.length

def contentWidth (s : Compositor) : Float32 := s.page.width - 2 * s.margin

def startPage (s : Compositor) : Compositor :=
  { s with pages := {} :: s.pages, cursor := s.margin }

/-- The number of a font among the fonts in use, counted from one. A new font comes last. -/
def fontNumber (s : Compositor) (font : Font) : Nat × Compositor :=
  match s.fonts.findIdx? (· = font) with
  | some index => (index + 1, s)
  | none => (s.fonts.length + 1, { s with fonts := s.fonts ++ [font] })

/-- How far a line is moved to the right, and by how much each of its spaces is widened. -/
def placement (align : Align) (line : Line) (width : Float32) : Float32 × Float32 :=
  let slack := Number.greater (width - line.width) 0
  match align with
  | .center => (slack / 2, 0)
  | .right => (slack, 0)
  | .justify =>
    if !line.endsParagraph && 0 < line.gaps then (0, slack / Float32.ofNat line.gaps) else (0, 0)
  | _ => (0, 0)

structure Style where
  align : Align
  width : Float32
  font : String
  size : Float32
  color : Color

def Style.lineHeight (style : Style) : Float32 := style.size * lineHeightFactor

/-- Whether the next line needs a new page. The first line of a page never does. -/
def overflows (s : Compositor) (lineHeight : Float32) : Bool :=
  s.cursor > s.margin && s.cursor + lineHeight > s.page.height - s.margin

def overflowed (page : Nat) : Record :=
  .debug ("Text overflowed page " ++ toString page ++ ", continuing on a new page")

def run (s : Compositor) (style : Style) (line : Line) : TextRun :=
  let (offset, wordSpacing) := placement style.align line style.width
  { text := line.text
    x := s.margin + offset
    baseline := s.page.height - (s.cursor + style.size * ascentFactor)
    font := style.font
    size := style.size
    color := style.color
    wordSpacing := wordSpacing }

def placeLine (s : Compositor) (style : Style) (line : Line) : Compositor :=
  let pages :=
    match s.pages with
    | [] => []
    | page :: rest => page.draw (s.run style line) :: rest
  { s with pages := pages, cursor := s.cursor + style.lineHeight }

def drawLines (s : Compositor) (style : Style) : List Line → Compositor × List Record
  | [] => (s, [])
  | line :: rest =>
    if s.overflows style.lineHeight then
      let (t, records) := ((s.startPage).placeLine style line).drawLines style rest
      (t, overflowed s.pageCount :: records)
    else (s.placeLine style line).drawLines style rest

def linesOf (s : Compositor) (text : String) (width : Float32) : List Line :=
  Layout.wrap (s.font.metrics.measure s.fontSize) width text

/-- A request as it is carried out. What it has changed before it is refused stays changed. -/
abbrev Work := ExceptT SessionError (StateM Compositor)

def ensureOpen : Work Unit := do
  if (← get).stage = .drawing then return () else throw .finalized

def ensurePage : Work Unit := do
  if (← get).pages.isEmpty then throw .noActivePage else return ()

def alignmentOf (options : TextOptions) : Work Align :=
  match options.align.getD .left with
  | .other raw => throw (.unsupportedAlignment raw)
  | align => return align

/-- The width that lines may have: what is asked for, or what the margins leave. -/
def widthOf (options : TextOptions) : Work Float32 :=
  match options.width with
  | some width => checkPositive .textWidth width
  | none => do return (← get).contentWidth

def useFont (font : Font) : Work Nat := modifyGet fun s => s.fontNumber font

def drawText (text : String) (options : TextOptions) : Work (List Record) := do
  ensurePage
  let align ← alignmentOf options
  let width ← widthOf options
  if text.isEmpty then return []
  else
    let s ← get
    let number ← useFont s.font
    let style : Style :=
      { align := align, width := width, font := Layout.fontName number, size := s.fontSize,
        color := s.color }
    modifyGet fun t => (t.drawLines style (s.linesOf text width)).swap

def change (f : Compositor → Compositor) : Work (List Record) := modifyGet fun s => ([], f s)

def drawn (what : Drawing) : Work (List Record) := do
  ensureOpen
  match what with
  | .addPage => change startPage
  | .setFont name =>
    match Font.ofName? name with
    | some font => change fun s => { s with font := font }
    | none => throw (.fontNotFound name)
  | .setFontSize size =>
    let size ← checkPositive .fontSize size
    change fun s => { s with fontSize := size }
  | .setFillColor value =>
    match Color.parse value with
    | .ok color => change fun s => { s with color := color }
    | .error why => throw (.unsupportedColor value why.message)
  | .drawText text options => drawText text options

def fontObject (font : Font) : Pdf.Object :=
  .dict
    ([(ascii "Type", .keyword "Font"), (ascii "Subtype", .keyword "Type1"),
      (ascii "BaseFont", .keyword font.name)] ++
     if font.isLatin then [(ascii "Encoding", .keyword "WinAnsiEncoding")] else [])

def fontDict (fonts : List Font) : Pdf.Dict :=
  fonts.zipIdx.map fun (font, index) => (ascii (Layout.fontName (index + 1)), fontObject font)

def infoDict (info : Info) : Option Pdf.Dict :=
  if info.isEmpty then none
  else some (info.entries.map fun (key, value) => (ascii key, .literal (Layout.latin value)))

def document (s : Compositor) (contents : List Bytes) : Pdf.Document where
  contents := contents
  page := s.page
  fonts := fontDict s.fonts
  info := infoDict s.info

def promised (pages fonts : Nat) : Record :=
  .debug ("Finalizing document: " ++ toString pages ++ " page(s), " ++ toString fonts ++
    " font(s)")

/-- Turns the instructions of a page into its bytes, or says why it cannot. -/
abbrev Encoder := List Layout.Instruction → Except String Bytes

def ensureUnpromised : Work Unit := do
  match (← get).stage with
  | .abandoned => throw .finalized
  | .finalized => throw .alreadyFinalized
  | .drawing => return ()

def ensureRuntime (runtime : Bool) : Work Unit := if runtime then return () else throw .noRuntime

def encoded (encode : Encoder) (page : Page) : Work Bytes :=
  ((encode page.instructions).mapError .pdf : Except SessionError Bytes)

/-- Promises the document. The session is closed and its pages are gone before they are turned
into bytes. -/
def finalize (encode : Encoder) (runtime : Bool) : Work (Pdf.Document × List Record) := do
  ensureUnpromised
  ensureRuntime runtime
  modify fun s => { s with stage := .finalized }
  let pages ← modifyGet fun s => (s.pages.reverse, { s with pages := [] })
  let contents ← pages.mapM (encoded encode)
  let s ← get
  return (s.document contents, [promised contents.length s.fonts.length])

def givenUp (pages : Nat) : Record :=
  .debug ("Abandoning session with " ++ toString pages ++ " page(s)")

def abandon (s : Compositor) : Compositor := { s with stage := .abandoned, pages := [] }

def backendWith (encode : Encoder) : Backend Compositor where
  create := create
  draw what s :=
    match (drawn what).run s with
    | (.ok records, t) => { result := .ok (), session := t, records := records }
    | (.error e, t) => { result := .error e, session := t }
  finalize runtime s :=
    match (finalize encode runtime).run s with
    | (.ok (document, records), t) =>
      { result := .ok document.production, session := t, records := records }
    | (.error e, t) => { result := .error e, session := t }
  abandon s :=
    { result := (), session := s.abandon,
      records := if s.stage = .drawing then [givenUp s.pageCount] else [] }

def backend : Backend Compositor := backendWith fun instructions => .ok (Layout.encode instructions)

end Compositor

end Folio
