import Folio.Ordered
import Folio.Proofs.Pdf.Value

/-! # Navigation

How a reader finds its way through a file. It begins at the end, where the place of the table
stands, takes the places of all objects and the trailer from there, and follows references: to the
catalog, to the list of pages, to each page and to what is drawn on it.
-/

namespace Folio.Pdf

def behind? (text bytes : Bytes) : Option Bytes :=
  if text <+: bytes then some (bytes.drop text.length) else none

/-- The number behind the last keyword of a file, which is read from the end. -/
def startOf? (bytes : Bytes) : Option Nat := do
  let tail ← behind? (ascii "\n%%EOF").reverse bytes.reverse
  let _ ← behind? (ascii "\nstartxref\n").reverse (tail.dropWhile isDigit)
  natural? (tail.takeWhile isDigit).reverse

inductive Slot where
  | free
  | used (place generation : Nat)
  deriving Repr, DecidableEq

def slot? (row : Bytes) : Option Slot := do
  let place ← natural? (row.take 10)
  let row ← behind? (ascii " ") (row.drop 10)
  let generation ← natural? (row.take 5)
  if row.drop 5 = ascii " n \n" then some (.used place generation)
  else if row.drop 5 = ascii " f \n" then some .free
  else none

def slots? : Nat → Bytes → Option (List Slot × Bytes)
  | 0, bytes => some ([], bytes)
  | count + 1, bytes => do
    let slot ← slot? (bytes.take 20)
    let (slots, rest) ← slots? count (bytes.drop 20)
    return (slot :: slots, rest)

def table? (bytes : Bytes) : Option (List Slot × Bytes) := do
  let bytes ← behind? (ascii "xref\n0 ") bytes
  let count ← natural? (word bytes).1
  let bytes ← behind? (ascii "\n") (word bytes).2
  slots? count bytes

def dictOf? (bytes : Bytes) : Option (List (Bytes × Value) × Bytes) :=
  match Value.read bytes with
  | some (.dict entries, rest) => some (entries, rest)
  | _ => none

def intAt? (key : String) (entries : List (Bytes × Value)) : Option Int :=
  match entries.lookup (ascii key) with
  | some (.int n) => some n
  | _ => none

def refOf? : Value → Option ObjectId
  | .ref id => some id
  | _ => none

def refAt? (key : String) (entries : List (Bytes × Value)) : Option ObjectId :=
  entries.lookup (ascii key) >>= refOf?

def refsAt? (key : String) (entries : List (Bytes × Value)) : Option (List ObjectId) :=
  match entries.lookup (ascii key) with
  | some (.array items) => items.mapM refOf?
  | _ => none

def objectHead (id : ObjectId) : Bytes :=
  ascii (toString id.number ++ " " ++ toString id.generation ++ " obj\n")

structure Opened where
  bytes : Bytes
  slots : List Slot
  trailer : List (Bytes × Value)

structure Leaf where
  id : ObjectId
  parent : ObjectId
  resources : ObjectId
  contentId : ObjectId
  content : Bytes

structure Tour where
  pagesId : ObjectId
  count : Int
  leaves : List Leaf

namespace Opened

def read? (bytes : Bytes) : Option Opened := do
  let start ← startOf? bytes
  let (slots, rest) ← table? (bytes.drop start)
  let rest ← behind? (ascii "trailer\n") rest
  let (trailer, _) ← dictOf? rest
  return ⟨bytes, slots, trailer⟩

/-- What stands behind the head of an object at its place in the table. -/
def body? (f : Opened) (id : ObjectId) : Option Bytes :=
  match f.slots[id.number]? with
  | some (.used place generation) =>
    if generation = id.generation then behind? (objectHead id) (f.bytes.drop place) else none
  | _ => none

def dict? (f : Opened) (id : ObjectId) : Option (List (Bytes × Value) × Bytes) :=
  f.body? id >>= dictOf?

/-- The content of a stream: as many bytes as its dictionary says, whatever they are. -/
def stream? (f : Opened) (id : ObjectId) : Option Bytes := do
  let (entries, rest) ← f.dict? id
  let length ← intAt? "Length" entries
  let rest ← behind? (ascii "\nstream\n") rest
  let _ ← behind? (ascii "\nendstream") (rest.drop length.toNat)
  return rest.take length.toNat

def leaf? (f : Opened) (id : ObjectId) : Option Leaf := do
  let (entries, _) ← f.dict? id
  let parent ← refAt? "Parent" entries
  let resources ← refAt? "Resources" entries
  let contentId ← refAt? "Contents" entries
  let content ← f.stream? contentId
  return ⟨id, parent, resources, contentId, content⟩

def tour? (f : Opened) : Option Tour := do
  let (catalog, _) ← f.dict? (← refAt? "Root" f.trailer)
  let pagesId ← refAt? "Pages" catalog
  let (tree, _) ← f.dict? pagesId
  let count ← intAt? "Count" tree
  let leaves ← (← refsAt? "Kids" tree).mapM f.leaf?
  return ⟨pagesId, count, leaves⟩

end Opened

end Folio.Pdf
