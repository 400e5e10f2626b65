import Folio.Text.Blank

/-! # Alignment

How a line stands between the margins. A word that names no alignment is kept as it was written,
so that whoever draws the text can refuse it by name.
-/

namespace Folio

inductive Align where
  | left
  | center
  | right
  | justify
  | other (raw : String)
  deriving Repr, DecidableEq

namespace Align

/-- Reads an alignment, in any case and with any white space around it. -/
def parse (s : String) : Align :=
  match Text.lower (Text.trim s) with
  | "left" => .left
  | "center" => .center
  | "right" => .right
  | "justify" => .justify
  | _ => .other s

def text : Align → String
  | .left => "left"
  | .center => "center"
  | .right => "right"
  | .justify => "justify"
  | .other raw => raw

end Align

/-- What a single draw asks for. What is absent is left to the page. -/
structure TextOptions where
  width : Option Float32 := none
  align : Option Align := none
  deriving DecidableEq

end Folio
