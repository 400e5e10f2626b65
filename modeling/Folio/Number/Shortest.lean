import Folio.Number.Binary

/-! # Shortest decimals

Among the decimals that round to a given binary number, the shortest is the one on the coarsest
grid of powers of ten, and of two on that grid the nearer one. All comparisons are exact.
-/

namespace Folio.Number

structure Decimal where
  digits : Nat
  exponent : Int
  deriving Repr, DecidableEq

inductive Tie where
  | upward
  | toEven
  deriving Repr, DecidableEq

def compareScaled (c : Nat) (g : Int) (b : Nat) (e : Int) : Ordering :=
  compare (c * 10 ^ g.toNat * 2 ^ (-e).toNat) (b * 2 ^ e.toNat * 10 ^ (-g).toNat)

namespace Magnitude

/-- Whether the decimal `c * 10 ^ g` rounds to the number. The interval reaches half way to both
neighbours, and its ends belong to it when the mantissa is even. -/
def holds (m : Magnitude) (c : Nat) (g : Int) : Bool :=
  let low := 4 * m.mantissa - (if m.bottom then 1 else 2)
  let high := 4 * m.mantissa + 2
  let closed := m.mantissa % 2 == 0
  let above := compareScaled c g low (m.exponent - 2)
  let below := compareScaled c g high (m.exponent - 2)
  (above == .gt || (closed && above == .eq)) && (below == .lt || (closed && below == .eq))

def floorAt (m : Magnitude) (g : Int) : Nat :=
  m.mantissa * 2 ^ m.exponent.toNat * 10 ^ (-g).toNat /
    (2 ^ (-m.exponent).toNat * 10 ^ g.toNat)

def onGrid? (tie : Tie) (m : Magnitude) (g : Int) : Option Decimal :=
  let c := m.floorAt g
  match c != 0 && m.holds c g, m.holds (c + 1) g with
  | false, false => none
  | true, false => some ⟨c, g⟩
  | false, true => some ⟨c + 1, g⟩
  | true, true =>
    match compareScaled (2 * c + 1) g (2 * m.mantissa) m.exponent with
    | .gt => some ⟨c, g⟩
    | .lt => some ⟨c + 1, g⟩
    | .eq =>
      match tie with
      | .upward => some ⟨c + 1, g⟩
      | .toEven => some ⟨if c % 2 == 0 then c else c + 1, g⟩

/-- A power of ten that is at least the number: `2 ^ 3 < 10` and `10 ^ 3 < 2 ^ 10`. -/
def ceiling (m : Magnitude) : Int :=
  let bits : Int := m.mantissa.log2 + 1 + m.exponent
  if 0 < bits then bits / 3 + 1 else -(-bits * 3 / 10)

def search (tie : Tie) (m : Magnitude) (g : Int) : Nat → Decimal
  | 0 => ⟨m.floorAt g, g⟩
  | n + 1 => (m.onGrid? tie g).getD (search tie m (g - 1) n)

end Magnitude

def Decimal.stripped (d : Decimal) : Decimal :=
  if h : d.digits ≠ 0 ∧ d.digits % 10 = 0 then
    stripped ⟨d.digits / 10, d.exponent + 1⟩
  else d
termination_by d.digits
decreasing_by exact Nat.div_lt_self (Nat.pos_of_ne_zero h.1) (by decide)

/-- The shortest decimal that rounds to the number. The search ends at the latest on the grid of
`2 ^ exponent` seen as a decimal fraction, on which the number itself lies. -/
def Magnitude.shortest (tie : Tie) (m : Magnitude) : Decimal :=
  if m.mantissa = 0 then ⟨0, 0⟩
  else
    let top := m.ceiling
    (m.search tie top (top - min m.exponent 0).toNat).stripped

end Folio.Number
