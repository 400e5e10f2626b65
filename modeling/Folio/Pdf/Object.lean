import Folio.Bytes
import Folio.Number.Form
import Folio.Ordered

/-! # Objects

The values a file is made of, and their bytes. The entries of a dictionary are written in the
order of their keys, so the bytes do not depend on the order in which entries were made.
-/

namespace Folio.Pdf

structure ObjectId where
  number : Nat
  generation : Nat := 0
  deriving Repr, DecidableEq, Inhabited

instance : LT ObjectId where
  lt a b := a.number < b.number ∨ (a.number = b.number ∧ a.generation < b.generation)

instance : DecidableLT ObjectId := fun a b =>
  inferInstanceAs
    (Decidable (a.number < b.number ∨ (a.number = b.number ∧ a.generation < b.generation)))

inductive Object where
  | null
  | bool (b : Bool)
  | int (n : Int)
  | real (x : Float32)
  | name (n : Bytes)
  | literal (s : Bytes)
  | hex (s : Bytes)
  | array (items : List Object)
  /-- Entries in the order in which they were made. An entry replaces earlier ones of its key. -/
  | dict (entries : List (Bytes × Object))
  /-- Raw bytes behind a dictionary. -/
  | stream (entries : List (Bytes × Object)) (content : Bytes)
  | ref (id : ObjectId)

abbrev Dict := List (Bytes × Object)

instance : Inhabited Object := ⟨.null⟩

def Object.keyword (word : String) : Object := .name (ascii word)

def hexPair (b : UInt8) : Bytes :=
  [b.toNat / 16, b.toNat % 16].map fun n => byteOf (Nat.digitChar n).toUpper

/-- A byte between parentheses: the three that have a meaning there follow a backslash. -/
def literalByte (b : UInt8) : Bytes :=
  if b = byteOf '(' ∨ b = byteOf ')' ∨ b = byteOf '\\' then [byteOf '\\', b] else [b]

def enclosed (entries : List (Bytes × Bytes)) : Bytes :=
  ascii "<<" ++
    (Ordered.ofList entries).flatMap (fun (key, value) =>
      ascii "/" ++ key ++ ascii " " ++ value ++ ascii " ") ++
    ascii ">>"

mutual

/-- The bytes of a value. The length of a stream is written whatever its dictionary says of it. -/
def Object.bytes : Object → Bytes
  | .null => ascii "null"
  | .bool true => ascii "true"
  | .bool false => ascii "false"
  | .int n => ascii (toString n)
  | .real x => ascii (Number.fixed 3 (Number.ofSingle x))
  | .name n => ascii "/" ++ n
  | .literal s => ascii "(" ++ s.flatMap literalByte ++ ascii ")"
  | .hex s => ascii "<" ++ s.flatMap hexPair ++ ascii ">"
  | .array items => ascii "[" ++ itemBytes items ++ ascii "]"
  | .dict entries => enclosed (entryBytes entries)
  | .stream entries content =>
    enclosed (entryBytes entries ++ [(ascii "Length", ascii (toString content.length))]) ++
      ascii "\nstream\n" ++ content ++ ascii "\nendstream"
  | .ref id => ascii (toString id.number ++ " " ++ toString id.generation ++ " R")

def itemBytes : List Object → Bytes
  | [] => []
  | [item] => item.bytes
  | item :: rest => item.bytes ++ ascii " " ++ itemBytes rest

def entryBytes : List (Bytes × Object) → List (Bytes × Bytes)
  | [] => []
  | (key, value) :: rest => (key, value.bytes) :: entryBytes rest

end

end Folio.Pdf
