import Folio.Bytes

/-! # Output

Bytes go to a target that may take fewer than it is offered. The position counts the bytes taken,
so it is the place in the file where the next byte will stand.
-/

namespace Folio.Pdf

structure Target where
  /-- How many bytes are taken out of those offered at a position; never more than are offered. -/
  takes : (position offered : Nat) → Nat
  flush : Except WriteError Unit := .ok ()

def Target.memory : Target where
  takes _ offered := offered

structure Output where
  target : Target
  position : Nat := 0
  /-- The pieces in which the bytes came, the latest first. -/
  pieces : List Bytes := []

namespace Output

def bytes (out : Output) : Bytes := out.pieces.reverse.flatten

def offer (out : Output) (bytes : Bytes) : Nat × Output :=
  let count := min (out.target.takes out.position bytes.length) bytes.length
  (count, { out with position := out.position + count, pieces := bytes.take count :: out.pieces })

end Output

/-- Work that writes. Bytes taken before a failure stay taken. -/
abbrev Writing := ExceptT WriteError (StateM Output)

/-- Offers bytes until all are taken. A target that takes none is full. -/
def Output.writeAll (bytes : Bytes) (out : Output) : Except WriteError Unit × Output :=
  if bytes.isEmpty then (.ok (), out)
  else
    let (count, next) := out.offer bytes
    if _h : 0 < count ∧ 0 < bytes.length then next.writeAll (bytes.drop count)
    else (.error ⟨.writeZero, "failed to write whole buffer"⟩, next)
  termination_by bytes.length
  decreasing_by
    simp only [List.length_drop]
    omega

namespace Writing

def write (bytes : Bytes) : Writing Unit := ExceptT.mk (Output.writeAll bytes)

def position : Writing Nat := ExceptT.mk fun out => (.ok out.position, out)

def flush : Writing Unit := ExceptT.mk fun out => (out.target.flush, out)

def runOn {α : Type} (work : Writing α) (target : Target) : Except WriteError α × Output :=
  work.run { target := target }

end Writing

end Folio.Pdf
