import Folio.Json
import Folio.Session.Backend
import Folio.Style.Color
import Folio.Style.Font

/-! # The recorder

A session that draws nothing and records what it was asked. It refuses what cannot be drawn, as a
session that draws would, but it does not look at widths and alignments. Its output is the record
as JSON, in one chunk.
-/

namespace Folio

/-- A recorded request. A draw carries the text state that it found. -/
inductive Entry where
  | addPage
  | setFont (name : String)
  | setFontSize (size : Float32)
  | setFillColor (color : Color)
  | drawText (text : String) (font : Font) (size : Float32) (color : Color) (options : TextOptions)
  | finalize
  | abandon
  deriving DecidableEq

structure Recording where
  options : Options
  entries : List Entry := []
  deriving DecidableEq

namespace Align

def toJson : Align → Json
  | left => .text "Left"
  | center => .text "Center"
  | right => .text "Right"
  | justify => .text "Justify"
  | other raw => .object [("Other", .text raw)]

end Align

def TextOptions.toJson (options : TextOptions) : Json :=
  .object
    [("width", .ofOption .number options.width), ("align", .ofOption Align.toJson options.align)]

def Color.toJson (color : Color) : Json :=
  .object [("r", .int color.r.toNat), ("g", .int color.g.toNat), ("b", .int color.b.toNat)]

namespace Entry

def toJson : Entry → Json
  | addPage => .object [("op", .text "add_page")]
  | setFont name => .object [("op", .text "set_font"), ("name", .text name)]
  | setFontSize size => .object [("op", .text "set_font_size"), ("size", .number size)]
  | setFillColor color => .object [("op", .text "set_fill_color"), ("color", color.toJson)]
  | drawText text font size color options =>
    .object
      [("op", .text "draw_text"), ("text", .text text), ("font", .text font.name),
       ("font_size", .number size), ("color", color.toJson), ("options", options.toJson)]
  | finalize => .object [("op", .text "finalize")]
  | abandon => .object [("op", .text "abandon")]

end Entry

namespace Recording

def pageCount (recording : Recording) : Nat := recording.entries.count .addPage

def drawnText (recording : Recording) : List String :=
  recording.entries.filterMap fun
    | .drawText text .. => some text
    | _ => none

end Recording

structure Recorder where
  /-- The session's own list of what it was asked. -/
  entries : List Entry := []
  /-- The recording that whoever made the session keeps. -/
  recording : Recording
  font : Font
  fontSize : Float32
  color : Color := .black
  hasPage : Bool := false
  closed : Bool := false
  deriving DecidableEq

namespace Recorder

/-- A session for any options. A font that does not exist is replaced by the first one. -/
def start (options : Options) : Recorder where
  recording := { options := options }
  font := (Font.ofName? options.font).getD .helvetica
  fontSize := options.fontSize

def create (options : Options) : Except SessionError Recorder :=
  if (Font.ofName? options.font).isSome then .ok (start options)
  else .error (.fontNotFound options.font)

def record (s : Recorder) (entry : Entry) : Recorder :=
  { s with
    entries := s.entries ++ [entry]
    recording.entries := s.recording.entries ++ [entry] }

def drawn (s : Recorder) (what : Drawing) : Except SessionError Recorder :=
  if s.closed then .error .finalized
  else
    match what with
    | .addPage => .ok ({ s with hasPage := true }.record .addPage)
    | .setFont name =>
      match Font.ofName? name with
      | some font => .ok ({ s with font := font }.record (.setFont name))
      | none => .error (.fontNotFound name)
    | .setFontSize size =>
      if size.isFinite && size > 0 then
        .ok ({ s with fontSize := size }.record (.setFontSize size))
      else .error (.invalidValue .fontSize size)
    | .setFillColor value =>
      match Color.parse value with
      | .ok color => .ok ({ s with color := color }.record (.setFillColor color))
      | .error why => .error (.unsupportedColor value why.message)
    | .drawText text options =>
      if s.hasPage then .ok (s.record (.drawText text s.font s.fontSize s.color options))
      else .error .noActivePage

def output (s : Recorder) : Json := .list (s.entries.map Entry.toJson)

/-- Closes the session and promises what it recorded, the closing included. -/
def finalize (runtime : Bool) (s : Recorder) :
    Except SessionError (Delivery.Production × Recorder) :=
  if s.closed then .error .alreadyFinalized
  else if !runtime then .error .noRuntime
  else
    let s := { s with closed := true }.record .finalize
    .ok ({ tasks := [.send (utf8 s.output.compact), .finish] }, s)

def abandon (s : Recorder) : Recorder :=
  if s.closed then s else { s with closed := true }.record .abandon

def backend : Backend Recorder where
  create := create
  draw what s :=
    match s.drawn what with
    | .ok s => { result := .ok (), session := s }
    | .error e => { result := .error e, session := s }
  finalize runtime s :=
    match s.finalize runtime with
    | .ok (production, s) => { result := .ok production, session := s }
    | .error e => { result := .error e, session := s }
  abandon s := { result := (), session := s.abandon }

end Recorder

end Folio
