import Folio.Number.Numeral

/-! # Durations

A duration is a whole number of nanoseconds. It is made from seconds in double precision by
rounding to the nearest nanosecond, and shown in the largest unit that leaves a whole part.
-/

namespace Folio.Number

structure Duration where
  nanoseconds : Nat
  deriving Repr, DecidableEq

namespace Duration

/-- Durations count whole seconds in 64 bits. -/
def limit : Nat := 2 ^ 64 * 10 ^ 9

def ofMilliseconds (n : Nat) : Duration := ⟨n * 10 ^ 6⟩

inductive Rejection where
  | negative
  | tooLarge
  deriving Repr, DecidableEq

def Rejection.message : Rejection → String
  | .negative => "cannot convert float seconds to Duration: value is negative"
  | .tooLarge => "cannot convert float seconds to Duration: value is either too big or NaN"

/-- The duration of a count of seconds. Both zeros are the empty duration. -/
def ofSeconds (x : Float) : Except Rejection Duration :=
  match ofDouble x with
  | .finite negative m =>
    if negative ∧ m.mantissa ≠ 0 then .error .negative
    else
      let (num, den) := m.quotient
      let n := roundHalfEven (num * 10 ^ 9) den
      if n < limit then .ok ⟨n⟩ else .error .tooLarge
  | .infinite true => .error .negative
  | .infinite false => .error .tooLarge
  | .notANumber => .error .tooLarge

def inUnit (nanoseconds places : Nat) (unit : String) : String :=
  let fraction := nanoseconds % 10 ^ places
  let whole := toString (nanoseconds / 10 ^ places)
  if fraction = 0 then whole ++ unit
  else
    let digits := Nat.toDigits 10 fraction
    let padded := List.replicate (places - digits.length) '0' ++ digits
    whole ++ "." ++ String.ofList (padded.reverse.dropWhile (· == '0')).reverse ++ unit

/-- The text of a duration: `1.5s`, `15ms`, `2µs`, `7ns`. -/
def text (d : Duration) : String :=
  if 10 ^ 9 ≤ d.nanoseconds then inUnit d.nanoseconds 9 "s"
  else if 10 ^ 6 ≤ d.nanoseconds then inUnit d.nanoseconds 6 "ms"
  else if 10 ^ 3 ≤ d.nanoseconds then inUnit d.nanoseconds 3 "µs"
  else inUnit d.nanoseconds 0 "ns"

end Duration

end Folio.Number
