import Folio.Bytes

/-! # Binary numbers

A finite floating-point number is a whole number times a power of two. Decoding goes through the
bits of the interchange format, so nothing is rounded on the way. Of two numbers, the smaller and
the larger are as usual, but what is no number loses against a number.
-/

namespace Folio.Number

/-- The magnitude `mantissa * 2 ^ exponent` of a finite number. -/
structure Magnitude where
  mantissa : Nat
  exponent : Int
  /-- The next smaller number of the format is only half as far away as the next larger one. -/
  bottom : Bool
  deriving Repr, DecidableEq

inductive Decoded where
  | finite (negative : Bool) (magnitude : Magnitude)
  | infinite (negative : Bool)
  | notANumber
  deriving Repr, DecidableEq

/-- Reads a bit pattern with `fractionBits` stored fraction bits below `exponentBits` exponent
bits below the sign. -/
def decode (fractionBits exponentBits : Nat) (bits : Nat) : Decoded :=
  let fraction := bits % 2 ^ fractionBits
  let field := bits / 2 ^ fractionBits % 2 ^ exponentBits
  let negative := bits / 2 ^ (fractionBits + exponentBits) % 2 == 1
  let lowest : Int := 2 - 2 ^ (exponentBits - 1) - fractionBits
  if field == 2 ^ exponentBits - 1 then
    if fraction == 0 then .infinite negative else .notANumber
  else if field == 0 then .finite negative ⟨fraction, lowest, false⟩
  else
    .finite negative
      ⟨2 ^ fractionBits + fraction, lowest + (field - 1 : Nat), fraction == 0 && field != 1⟩

def ofSingle (x : Float32) : Decoded := decode 23 8 x.toBits.toNat

def ofDouble (x : Float) : Decoded := decode 52 11 x.toBits.toNat

def Magnitude.quotient (m : Magnitude) : Nat × Nat :=
  match m.exponent with
  | .ofNat k => (m.mantissa * 2 ^ k, 1)
  | .negSucc k => (m.mantissa, 2 ^ (k + 1))

def lesser (x y : Float32) : Float32 :=
  if x.isNaN then y else if y.isNaN then x else if x < y then x else y

def greater (x y : Float32) : Float32 :=
  if x.isNaN then y else if y.isNaN then x else if x < y then y else x

end Folio.Number
