import Folio.Text.Blank

/-! # Standard fonts

The fourteen fonts that every reader of a document has. A document names a font and never carries
one.
-/

namespace Folio

inductive Font where
  | helvetica
  | helveticaBold
  | helveticaOblique
  | helveticaBoldOblique
  | timesRoman
  | timesBold
  | timesItalic
  | timesBoldItalic
  | courier
  | courierBold
  | courierOblique
  | courierBoldOblique
  | symbol
  | zapfDingbats
  deriving Repr, DecidableEq, Inhabited

namespace Font

def all : List Font :=
  [.helvetica, .helveticaBold, .helveticaOblique, .helveticaBoldOblique, .timesRoman, .timesBold,
   .timesItalic, .timesBoldItalic, .courier, .courierBold, .courierOblique, .courierBoldOblique,
   .symbol, .zapfDingbats]

def name : Font → String
  | .helvetica => "Helvetica"
  | .helveticaBold => "Helvetica-Bold"
  | .helveticaOblique => "Helvetica-Oblique"
  | .helveticaBoldOblique => "Helvetica-BoldOblique"
  | .timesRoman => "Times-Roman"
  | .timesBold => "Times-Bold"
  | .timesItalic => "Times-Italic"
  | .timesBoldItalic => "Times-BoldItalic"
  | .courier => "Courier"
  | .courierBold => "Courier-Bold"
  | .courierOblique => "Courier-Oblique"
  | .courierBoldOblique => "Courier-BoldOblique"
  | .symbol => "Symbol"
  | .zapfDingbats => "ZapfDingbats"

/-- The font of a name, in any case and with any white space around it. `Times` alone is the
upright face. -/
def ofName? (s : String) : Option Font :=
  let wanted := Text.lower (Text.trim s)
  if wanted = "times" then some .timesRoman
  else all.find? fun f => Text.lower f.name = wanted

/-- Whether the bytes of a text select glyphs of the Latin alphabet. The two picture fonts have an
encoding of their own. -/
def isLatin : Font → Bool
  | .symbol | .zapfDingbats => false
  | _ => true

end Font

end Folio
