import Folio.Style.Font

/-! # Lines

A text is broken into lines at its line feeds, and within a paragraph wherever the next word would
not fit. White space between words becomes one space. A word that fits on no line has one of its
own, and a paragraph without words is an empty line. Widths are in thousandths of the font size:
faces of one family share them, and characters outside printable ASCII share one.
-/

namespace Folio

def helveticaWidths : Array UInt32 :=
  #[278, 278, 355, 556, 556, 889, 667, 191, 333, 333, 389, 584, 278, 333, 278, 278,
    556, 556, 556, 556, 556, 556, 556, 556, 556, 556, 278, 278, 584, 584, 584, 556,
    1015, 667, 667, 722, 722, 667, 611, 778, 722, 278, 500, 667, 556, 833, 722, 778,
    667, 778, 722, 667, 611, 722, 667, 944, 667, 667, 611, 278, 278, 278, 469, 556,
    333, 556, 556, 500, 556, 556, 278, 556, 556, 222, 222, 500, 222, 833, 556, 556,
    556, 556, 333, 500, 278, 556, 500, 722, 500, 500, 500, 334, 260, 334, 584]

def timesWidths : Array UInt32 :=
  #[250, 333, 408, 500, 500, 833, 778, 180, 333, 333, 500, 564, 250, 333, 250, 278,
    500, 500, 500, 500, 500, 500, 500, 500, 500, 500, 278, 278, 564, 564, 564, 444,
    921, 722, 667, 667, 722, 611, 556, 722, 722, 333, 389, 722, 611, 889, 722, 722,
    556, 722, 667, 556, 611, 722, 722, 944, 722, 722, 611, 333, 278, 333, 469, 500,
    333, 444, 500, 444, 500, 444, 333, 500, 500, 278, 278, 500, 278, 778, 500, 500,
    500, 500, 333, 389, 278, 500, 500, 722, 500, 500, 444, 480, 200, 480, 541]

inductive Metrics where
  /-- Widths for printable ASCII, and one for everything else. -/
  | proportional (widths : Array UInt32) (fallback : UInt32)
  | fixed (width : UInt32)
  deriving Repr, DecidableEq

namespace Metrics

def charWidth (m : Metrics) (c : Char) : UInt32 :=
  match m with
  | fixed width => width
  | proportional widths fallback =>
    if 32 ≤ c.toNat ∧ c.toNat ≤ 126 then widths.getD (c.toNat - 32) fallback else fallback

/-- The width of a text in thousandths of the font size, counted in 32 bits. -/
def units (m : Metrics) (text : String) : UInt32 :=
  text.toList.foldl (fun sum c => sum + m.charWidth c) 0

def measure (m : Metrics) (size : Float32) (text : String) : Float32 :=
  (m.units text).toFloat32 * size / 1000

end Metrics

/-- The metrics of a font. What is no Helvetica and no Times has one width. -/
def Font.metrics : Font → Metrics
  | .helvetica | .helveticaBold | .helveticaOblique | .helveticaBoldOblique =>
    .proportional helveticaWidths 556
  | .timesRoman | .timesBold | .timesItalic | .timesBoldItalic => .proportional timesWidths 500
  | _ => .fixed 600

end Folio

namespace Folio.Layout

structure Line where
  text : String
  width : Float32
  gaps : Nat
  endsParagraph : Bool
  deriving DecidableEq

section

variable (measure : String → Float32) (limit : Float32)

/-- Lines of a paragraph that begins with `current`, in which `gaps` spaces are. -/
def fill (current : String) (gaps : Nat) : List String → List Line
  | [] => [⟨current, measure current, gaps, true⟩]
  | word :: rest =>
    let candidate := current ++ " " ++ word
    if measure candidate ≤ limit then fill candidate (gaps + 1) rest
    else ⟨current, measure current, gaps, false⟩ :: fill word 0 rest

def wrapWords : List String → List Line
  | [] => [⟨"", measure "", 0, true⟩]
  | word :: rest => fill measure limit word 0 rest

def wordsOf (paragraph : List Char) : List String := (Text.words paragraph).map String.ofList

/-- Lines of a text that are no wider than a limit where that can be. -/
def wrap (text : String) : List Line :=
  (Text.lines text.toList).flatMap fun paragraph => wrapWords measure limit (wordsOf paragraph)

end

end Folio.Layout
