import Folio.Text.Blank

/-! # Colours

A colour has three components of one byte each. It is written `#rgb`, `#rrggbb` or as one of the
names of the table, in any case and with any white space around it.
-/

namespace Folio

structure Color where
  r : UInt8
  g : UInt8
  b : UInt8
  deriving Repr, DecidableEq, Inhabited

namespace Color

def black : Color := ⟨0, 0, 0⟩

def named : List (String × Color) :=
  [("black", ⟨0, 0, 0⟩), ("white", ⟨255, 255, 255⟩), ("red", ⟨255, 0, 0⟩), ("lime", ⟨0, 255, 0⟩),
   ("green", ⟨0, 128, 0⟩), ("blue", ⟨0, 0, 255⟩), ("yellow", ⟨255, 255, 0⟩),
   ("cyan", ⟨0, 255, 255⟩), ("aqua", ⟨0, 255, 255⟩), ("magenta", ⟨255, 0, 255⟩),
   ("fuchsia", ⟨255, 0, 255⟩), ("silver", ⟨192, 192, 192⟩), ("gray", ⟨128, 128, 128⟩),
   ("grey", ⟨128, 128, 128⟩), ("darkgray", ⟨169, 169, 169⟩), ("darkgrey", ⟨169, 169, 169⟩),
   ("lightgray", ⟨211, 211, 211⟩), ("lightgrey", ⟨211, 211, 211⟩), ("dimgray", ⟨105, 105, 105⟩),
   ("maroon", ⟨128, 0, 0⟩), ("darkred", ⟨139, 0, 0⟩), ("olive", ⟨128, 128, 0⟩),
   ("purple", ⟨128, 0, 128⟩), ("teal", ⟨0, 128, 128⟩), ("navy", ⟨0, 0, 128⟩),
   ("darkblue", ⟨0, 0, 139⟩), ("darkgreen", ⟨0, 100, 0⟩), ("orange", ⟨255, 165, 0⟩),
   ("darkorange", ⟨255, 140, 0⟩), ("orangered", ⟨255, 69, 0⟩), ("gold", ⟨255, 215, 0⟩),
   ("pink", ⟨255, 192, 203⟩), ("hotpink", ⟨255, 105, 180⟩), ("crimson", ⟨220, 20, 60⟩),
   ("brown", ⟨165, 42, 42⟩), ("chocolate", ⟨210, 105, 30⟩), ("tomato", ⟨255, 99, 71⟩),
   ("coral", ⟨255, 127, 80⟩), ("salmon", ⟨250, 128, 114⟩), ("indigo", ⟨75, 0, 130⟩),
   ("violet", ⟨238, 130, 238⟩), ("orchid", ⟨218, 112, 214⟩), ("lavender", ⟨230, 230, 250⟩),
   ("beige", ⟨245, 245, 220⟩), ("ivory", ⟨255, 255, 240⟩), ("khaki", ⟨240, 230, 140⟩),
   ("tan", ⟨210, 180, 140⟩), ("steelblue", ⟨70, 130, 180⟩), ("royalblue", ⟨65, 105, 225⟩),
   ("skyblue", ⟨135, 206, 235⟩), ("slategray", ⟨112, 128, 144⟩), ("turquoise", ⟨64, 224, 208⟩),
   ("seagreen", ⟨46, 139, 87⟩), ("forestgreen", ⟨34, 139, 34⟩)]

inductive Component where
  | red
  | green
  | blue
  deriving Repr, DecidableEq

def Component.name : Component → String
  | .red => "red"
  | .green => "green"
  | .blue => "blue"

inductive Unreadable where
  | notAscii (text : String)
  | length (count : Nat)
  | component (which : Component)
  | unknownName (name : String)
  deriving Repr, DecidableEq

def Unreadable.message : Unreadable → String
  | .notAscii text => "Invalid hex color: " ++ text
  | .length count => "Invalid hex color length: expected 3 or 6, got " ++ toString count
  | .component which =>
    "Invalid " ++ which.name ++ " component: invalid digit found in string"
  | .unknownName name => "Unknown color name: " ++ name

def hexDigit? (c : Char) : Option Nat :=
  if '0' ≤ c ∧ c ≤ '9' then some (c.toNat - 48)
  else if 'a' ≤ c ∧ c ≤ 'f' then some (c.toNat - 87)
  else if 'A' ≤ c ∧ c ≤ 'F' then some (c.toNat - 55)
  else none

/-- A component out of two characters. The first may be a plus sign instead of a digit. -/
def component (which : Component) (c d : Char) : Except Unreadable UInt8 :=
  match (if c = '+' then some 0 else hexDigit? c), hexDigit? d with
  | some high, some low => .ok (UInt8.ofNat (16 * high + low))
  | _, _ => .error (.component which)

def ofHex (text : String) (digits : List Char) : Except Unreadable Color := do
  if digits.any (128 ≤ ·.toNat) then throw (.notAscii text)
  match digits with
  | [r, g, b] =>
    return ⟨← component .red r r, ← component .green g g, ← component .blue b b⟩
  | [r, r', g, g', b, b'] =>
    return ⟨← component .red r r', ← component .green g g', ← component .blue b b'⟩
  | _ => throw (.length digits.length)

def parse (s : String) : Except Unreadable Color :=
  let text := Text.trim s
  match text.toList with
  | '#' :: digits => ofHex text digits
  | _ =>
    match named.lookup (Text.lower text) with
    | some color => .ok color
    | none => .error (.unknownName text)

def hexPair (n : UInt8) : List Char :=
  [Nat.digitChar (n.toNat / 16), Nat.digitChar (n.toNat % 16)]

/-- The long hexadecimal form, in small letters. -/
def text (color : Color) : String :=
  String.ofList ('#' :: (hexPair color.r ++ hexPair color.g ++ hexPair color.b))

/-- The components as fractions of 255, the scale of colour operators on a page. -/
def unit (color : Color) : Float32 × Float32 × Float32 :=
  (color.r.toFloat32 / 255, color.g.toFloat32 / 255, color.b.toFloat32 / 255)

end Color

end Folio
