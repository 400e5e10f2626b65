import Folio.Bytes
import Folio.Number.Form
import Folio.Style.Color

/-! # Pages

A page is drawn by instructions. Between the begin and the end of a text come the font, the colour
and the word spacing, then the place and the string. A page remembers what was last set on it and
sets only what changes. A text that has no characters leaves no trace.
-/

namespace Folio.Layout

/-- An instruction of a page. Fonts go by the name of their entry among the resources. -/
inductive Instruction where
  | beginText
  | font (name : String) (size : Float32)
  | fill (red green blue : Float32)
  | wordSpacing (width : Float32)
  | moveTo (x y : Float32)
  | showText (string : Bytes)
  | endText
  deriving DecidableEq

/-- One byte to a character; characters that have none are question marks. -/
def latin (text : String) : Bytes :=
  text.toList.map fun c => if c.toNat ≤ 255 then byteOf c else byteOf '?'

/-- The bytes of a string between parentheses, with the count of closing parentheses that have no
partner in it. `depth` counts the open parentheses before it. A parenthesis without a partner
follows a backslash, like a backslash itself; a carriage return is written as a letter. -/
def balanced (depth : Nat) : Bytes → Bytes × Nat
  | [] => ([], 0)
  | b :: rest =>
    if b = byteOf '(' then
      let (out, closing) := balanced (depth + 1) rest
      if closing = 0 then (byteOf '\\' :: b :: out, 0) else (b :: out, closing - 1)
    else if b = byteOf ')' then
      let (out, closing) := balanced (depth - 1) rest
      (if depth = 0 then byteOf '\\' :: b :: out else b :: out, closing + 1)
    else
      let (out, closing) := balanced depth rest
      if b = byteOf '\\' then (byteOf '\\' :: b :: out, closing)
      else if b = byteOf '\r' then (byteOf '\\' :: byteOf 'r' :: out, closing)
      else (b :: out, closing)

def contentString (string : Bytes) : Bytes := ascii "(" ++ (balanced 0 string).1 ++ ascii ")"

def fontName (number : Nat) : String := "F" ++ toString number

def operands (numbers : List Float32) : String :=
  String.join (numbers.map fun x => Number.plain x ++ " ")

namespace Instruction

def bytes : Instruction → Bytes
  | beginText => ascii "BT"
  | font name size => ascii "/" ++ utf8 name ++ ascii (" " ++ operands [size] ++ "Tf")
  | fill red green blue => ascii (operands [red, green, blue] ++ "rg")
  | wordSpacing width => ascii (operands [width] ++ "Tw")
  | moveTo x y => ascii (operands [x, y] ++ "Td")
  | showText string => contentString string ++ ascii " Tj"
  | endText => ascii "ET"

end Instruction

def encode (instructions : List Instruction) : Bytes :=
  (ascii "\n").intercalate (instructions.map Instruction.bytes)

/-- A line of text with everything settled. The baseline counts from the bottom of the page. -/
structure TextRun where
  text : String
  x : Float32
  baseline : Float32
  font : String
  size : Float32
  color : Color
  wordSpacing : Float32
  deriving DecidableEq

structure Page where
  /-- What was drawn, the latest first. -/
  drawn : List Instruction := []
  /-- The font that is set, with no name as long as none is. -/
  font : String := ""
  size : Float32 := 0
  color : Option Color := none
  wordSpacing : Float32 := 0
  deriving DecidableEq, Inhabited

namespace Page

def instructions (page : Page) : List Instruction := page.drawn.reverse

def push (page : Page) (instruction : Instruction) : Page :=
  { page with drawn := instruction :: page.drawn }

def setFont (page : Page) (name : String) (size : Float32) : Page :=
  if page.font = name && page.size == size then page
  else { page with font := name, size := size }.push (.font name size)

def setColor (page : Page) (color : Color) : Page :=
  if page.color = some color then page
  else
    let (red, green, blue) := color.unit
    { page with color := some color }.push (.fill red green blue)

def setWordSpacing (page : Page) (width : Float32) : Page :=
  if page.wordSpacing == width then page
  else { page with wordSpacing := width }.push (.wordSpacing width)

def draw (page : Page) (run : TextRun) : Page :=
  if run.text.isEmpty then page
  else
    let page := page.push .beginText
    let page := (page.setFont run.font run.size).setColor run.color
    let page := page.setWordSpacing run.wordSpacing
    ((page.push (.moveTo run.x run.baseline)).push (.showText (latin run.text))).push .endText

end Page

end Folio.Layout
