/-! # Byte strings

Everything that is stored or sent is a list of bytes. Text becomes bytes in one of two ways: as
UTF-8, or one byte to a character for the characters below 256. Why bytes could not be written is
a kind that programs tell apart and a text for people.
-/

namespace Folio

/-- `n ^ k` is the core library's power, also beside a library that has a power of its own for all
monoids. -/
@[default_instance high]
instance powNat {α : Type} [NatPow α] : Pow α Nat := instPowNat

abbrev Bytes := List UInt8

def utf8 (text : String) : Bytes := text.toList.flatMap String.utf8EncodeChar

/-- The code of a character below 256. Larger codes are reduced modulo 256, so callers keep to
texts whose characters are all below 256. -/
def byteOf (c : Char) : UInt8 := UInt8.ofNat c.toNat

def ascii (text : String) : Bytes := text.toList.map byteOf

theorem forall_byte {P : UInt8 → Prop} (h : ∀ n : Fin 256, P (UInt8.ofNat n)) (b : UInt8) :
    P b := by
  have tested := h ⟨b.toNat, b.toNat_lt⟩
  rwa [UInt8.ofNat_toNat] at tested

theorem ascii_append (a b : String) : ascii (a ++ b) = ascii a ++ ascii b := by
  simp [ascii]

inductive WriteErrorKind where
  | writeZero
  | brokenPipe
  | connectionAborted
  | other
  deriving Repr, DecidableEq

structure WriteError where
  kind : WriteErrorKind
  text : String
  deriving Repr, DecidableEq

end Folio
