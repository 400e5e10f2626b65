import Folio.Number.Shortest

/-! # Number texts

A form says how the shortest decimal of a number is laid out as text. Two forms are in use: plain
text, which never has an exponent, and the numbers of JSON, which have one outside a middle range.
Apart from these, numbers in a file body have a fixed count of decimal places.
-/

namespace Folio.Number

structure Form where
  tie : Tie
  /-- The exponents of the first digit that are written without an exponent; all of them when
  absent. -/
  positional : Option (Int × Int)
  /-- Whole numbers end in `.0`. -/
  wholePoint : Bool
  infinite : Bool → String
  notANumber : String

/-- Plain text: `12`, `0.1`, `-0`, `NaN`, `inf`. -/
def Form.plain : Form where
  tie := .upward
  positional := none
  wholePoint := false
  infinite := fun negative => if negative then "-inf" else "inf"
  notANumber := "NaN"

/-- Numbers of JSON: `12.0`, `1e-7`, `1.5e+13`, and `null` for what has no numeral. -/
def Form.json : Form where
  tie := .toEven
  positional := some (-6, 12)
  wholePoint := true
  infinite := fun _ => "null"
  notANumber := "null"

def zeros (count : Nat) : String := String.ofList (List.replicate count '0')

def Decimal.positional (wholePoint : Bool) (d : Decimal) : String :=
  let digits := Nat.toDigits 10 d.digits
  if 0 ≤ d.exponent then
    String.ofList digits ++ zeros d.exponent.toNat ++ (if wholePoint then ".0" else "")
  else
    let places := (-d.exponent).toNat
    if places < digits.length then
      String.ofList (digits.take (digits.length - places)) ++ "." ++
        String.ofList (digits.drop (digits.length - places))
    else "0." ++ zeros (places - digits.length) ++ String.ofList digits

def Decimal.scientific (d : Decimal) : String :=
  let digits := Nat.toDigits 10 d.digits
  let power := d.exponent + digits.length - 1
  String.ofList (digits.take 1) ++
    (if digits.length ≤ 1 then "" else "." ++ String.ofList (digits.drop 1)) ++
    (if power < 0 then "e-" else "e+") ++ toString power.natAbs

def Form.decimal (form : Form) (d : Decimal) : String :=
  match form.positional with
  | none => d.positional form.wholePoint
  | some (low, high) =>
    let power := d.exponent + (Nat.toDigits 10 d.digits).length - 1
    if d.digits = 0 ∨ (low ≤ power ∧ power ≤ high) then d.positional form.wholePoint
    else d.scientific

def Form.text (form : Form) : Decoded → String
  | .finite negative m =>
    (if negative then "-" else "") ++ form.decimal (m.shortest form.tie)
  | .infinite negative => form.infinite negative
  | .notANumber => form.notANumber

def roundHalfEven (num den : Nat) : Nat :=
  let q := num / den
  match compare (2 * (num % den)) den with
  | .lt => q
  | .gt => q + 1
  | .eq => if q % 2 = 0 then q else q + 1

/-- The text of a number with a fixed count of decimal places. The sign of what rounds to zero is
kept. -/
def fixed (places : Nat) : Decoded → String
  | .finite negative m =>
    let (num, den) := m.quotient
    let scaled := roundHalfEven (num * 10 ^ places) den
    let fraction := Nat.toDigits 10 (scaled % 10 ^ places)
    (if negative then "-" else "") ++ toString (scaled / 10 ^ places) ++ "." ++
      zeros (places - fraction.length) ++ String.ofList fraction
  | .infinite negative => Form.plain.infinite negative
  | .notANumber => Form.plain.notANumber

def plain (x : Float32) : String := Form.plain.text (ofSingle x)

end Folio.Number
