import Folio.Number.Form

/-! # Numerals

Reading the text of a number. A numeral is an optional sign followed by decimal digits with an
optional point and an optional power of ten, or by one of the words `inf`, `infinity` and `nan` in
any case. Nothing may stand around it, white space included. The value is rounded once, to the
precision it is read in.
-/

namespace Folio.Number

/-- What a numeral stands for: `digits * 10 ^ exponent`, or no real number. -/
inductive Numeral where
  | decimal (negative : Bool) (digits : Nat) (exponent : Int)
  | infinite (negative : Bool)
  | notANumber
  deriving Repr, DecidableEq

def ofDigits (cs : List Char) : Nat := cs.foldl (fun n c => 10 * n + (c.toNat - 48)) 0

/-- The power of ten behind the digits: nothing at all, or `e` with an optional sign and at least
one digit. -/
def power? : List Char → Option Int
  | [] => some 0
  | c :: cs =>
    if c ≠ 'e' ∧ c ≠ 'E' then none
    else
      let (negative, digits) :=
        match cs with
        | '-' :: ds => (true, ds)
        | '+' :: ds => (false, ds)
        | ds => (false, ds)
      if digits.isEmpty || !digits.all Char.isDigit then none
      else some (if negative then -(ofDigits digits : Int) else ofDigits digits)

def Numeral.unsigned? (negative : Bool) (cs : List Char) : Option Numeral :=
  let word := String.ofList (cs.map Char.toLower)
  if word == "inf" || word == "infinity" then some (.infinite negative)
  else if word == "nan" then some .notANumber
  else
    let whole := cs.takeWhile Char.isDigit
    let rest := cs.dropWhile Char.isDigit
    let (fraction, rest) :=
      match rest with
      | '.' :: ds => (ds.takeWhile Char.isDigit, ds.dropWhile Char.isDigit)
      | ds => ([], ds)
    if whole.isEmpty && fraction.isEmpty then none
    else
      (power? rest).map fun power =>
        .decimal negative (ofDigits (whole ++ fraction)) (power - fraction.length)

def Numeral.ofString? (s : String) : Option Numeral :=
  match s.toList with
  | '-' :: cs => unsigned? true cs
  | '+' :: cs => unsigned? false cs
  | cs => unsigned? false cs

/-- A numeral with a nearer exponent where its own is far beyond what any precision in use can tell
apart: the value is then beyond all numbers, or rounds to zero. -/
def nearer (digits : Nat) (exponent : Int) : Int :=
  let length : Int := (Nat.toDigits 10 digits).length
  if exponent + length < -400 then -400 - length
  else if 400 < exponent + length then 400
  else exponent

/-- The nearest single-precision number; of two, the one with the even mantissa. -/
def Numeral.toSingle : Numeral → Float32
  | .decimal negative digits exponent =>
    let exponent := nearer digits exponent
    let x := Float32.ofScientific digits (exponent < 0) exponent.natAbs
    if negative then -x else x
  | .infinite negative => Float32.ofBits (if negative then 0xff800000 else 0x7f800000)
  | .notANumber => Float32.ofBits 0x7fc00000

def Numeral.toDouble : Numeral → Float
  | .decimal negative digits exponent =>
    let exponent := nearer digits exponent
    let x := Float.ofScientific digits (exponent < 0) exponent.natAbs
    if negative then -x else x
  | .infinite negative => Float.ofBits (if negative then 0xfff0000000000000 else 0x7ff0000000000000)
  | .notANumber => Float.ofBits 0x7ff8000000000000

def single? (s : String) : Option Float32 := (Numeral.ofString? s).map Numeral.toSingle

def double? (s : String) : Option Float := (Numeral.ofString? s).map Numeral.toDouble

end Folio.Number
