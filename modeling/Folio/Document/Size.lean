import Folio.Number.Numeral
import Folio.Text.Blank

/-! # Page sizes

A page size is one of seven named ones or a width and a height. All lengths are in points.
-/

namespace Folio

structure Dimensions where
  width : Float32
  height : Float32
  deriving DecidableEq

def Dimensions.shortest (d : Dimensions) : Float32 := Number.lesser d.width d.height

inductive Orientation where
  | portrait
  | landscape
  deriving Repr, DecidableEq, Inhabited

namespace Orientation

/-- Reads an orientation. The error is the word that was found in its place. -/
def parse (s : String) : Except String Orientation :=
  match Text.lower (Text.trim s) with
  | "portrait" => .ok .portrait
  | "landscape" => .ok .landscape
  | found => .error found

def complaint (found : String) : String :=
  "expected 'portrait' or 'landscape', got '" ++ found ++ "'"

end Orientation

inductive PageSize where
  | a3
  | a4
  | a5
  | letter
  | legal
  | tabloid
  | executive
  | custom (dimensions : Dimensions)
  deriving DecidableEq

namespace PageSize

def named : List (String × PageSize) :=
  [("A3", .a3), ("A4", .a4), ("A5", .a5), ("LETTER", .letter), ("LEGAL", .legal),
   ("TABLOID", .tabloid), ("EXECUTIVE", .executive)]

inductive Unreadable where
  | unknown (text : String)
  | side (text : String)
  | notPositive (value : Float32)
  deriving DecidableEq

def Unreadable.message : Unreadable → String
  | .unknown text => "unknown page size '" ++ text ++ "'"
  | .side text => "invalid page dimension '" ++ text ++ "'"
  | .notPositive value => "page dimension must be positive, got " ++ Number.plain value

def side (s : String) : Except Unreadable Float32 :=
  let text := Text.trim s
  match Number.single? text with
  | none => .error (.side text)
  | some value =>
    if value.isFinite && value > 0 then .ok value else .error (.notPositive value)

/-- Reads a page size: a name in any case, or two lengths with an `x` between them. -/
def parse (s : String) : Except Unreadable PageSize := do
  let text := Text.trim s
  match named.lookup (Text.upper text) with
  | some size => return size
  | none =>
    let isCross := fun c => c = 'x' || c = 'X'
    match text.toList.span (fun c => !isCross c) with
    | (_, []) => throw (.unknown text)
    | (width, _ :: height) =>
      let width ← side (String.ofList width)
      let height ← side (String.ofList height)
      return .custom ⟨width, height⟩

def dimensions : PageSize → Dimensions
  | .a3 => ⟨841.89, 1190.55⟩
  | .a4 => ⟨595.28, 841.89⟩
  | .a5 => ⟨419.53, 595.28⟩
  | .letter => ⟨612, 792⟩
  | .legal => ⟨612, 1008⟩
  | .tabloid => ⟨792, 1224⟩
  | .executive => ⟨521.86, 756⟩
  | .custom dimensions => dimensions

def oriented (size : PageSize) : Orientation → Dimensions
  | .portrait => size.dimensions
  | .landscape => ⟨size.dimensions.height, size.dimensions.width⟩

end PageSize

end Folio
