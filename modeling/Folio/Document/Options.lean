import Folio.Document.Size
import Folio.Json

/-! # Document options

What is settled for a whole document before its first page is drawn, with what the document says
about itself. Absent entries are left out of the file.
-/

namespace Folio

structure Info where
  title : Option String := none
  author : Option String := none
  subject : Option String := none
  keywords : Option String := none
  creator : Option String := none
  producer : Option String := none
  deriving Repr, DecidableEq, Inhabited

namespace Info

def entries (info : Info) : List (String × String) :=
  [("Author", info.author), ("Creator", info.creator), ("Keywords", info.keywords),
   ("Producer", info.producer), ("Subject", info.subject), ("Title", info.title)].filterMap
    fun (key, value) => value.map fun v => (key, v)

def isEmpty (info : Info) : Bool := info.entries.isEmpty

def toJson (info : Info) : Json :=
  .object
    [("title", .ofOption .text info.title), ("author", .ofOption .text info.author),
     ("subject", .ofOption .text info.subject), ("keywords", .ofOption .text info.keywords),
     ("creator", .ofOption .text info.creator), ("producer", .ofOption .text info.producer)]

end Info

/-- The options of a document. Lengths are in points and the margin is the same on all sides. -/
structure Options where
  size : PageSize := .letter
  orientation : Orientation := .portrait
  margin : Float32 := 72
  font : String := "Helvetica"
  fontSize : Float32 := 12
  info : Info := { producer := some "xmlpdf" }
  deriving DecidableEq

namespace Orientation

def name : Orientation → String
  | .portrait => "Portrait"
  | .landscape => "Landscape"

end Orientation

namespace PageSize

def name? : PageSize → Option String
  | .a3 => some "A3"
  | .a4 => some "A4"
  | .a5 => some "A5"
  | .letter => some "Letter"
  | .legal => some "Legal"
  | .tabloid => some "Tabloid"
  | .executive => some "Executive"
  | .custom _ => none

def toJson (size : PageSize) : Json :=
  match size.name? with
  | some name => .text name
  | none =>
    let sides := size.dimensions
    .object [("Custom", .object [("width", .number sides.width), ("height", .number sides.height)])]

end PageSize

namespace Options

def page (options : Options) : Dimensions := options.size.oriented options.orientation

def toJson (options : Options) : Json :=
  .object
    [("size", options.size.toJson), ("orientation", .text options.orientation.name),
     ("margin", .number options.margin), ("font", .text options.font),
     ("font_size", .number options.fontSize), ("info", options.info.toJson)]

end Options

end Folio
