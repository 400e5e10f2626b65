import Folio.Delivery.Transfer
import Folio.Document.Size
import Folio.Pdf.Object
import Folio.Pdf.Output

/-! # Files

A file is a set of objects by number, a table of their places, and a trailer that says where to
begin. Objects are gathered first and written in the order of their numbers. Three numbers are
taken from the start: the resources, the list of pages and the catalog.

A document is what a session leaves behind: the contents of its pages, all of one size, and what
they share. It is written to a file, and a file can be sent as it is written.
-/

namespace Folio.Pdf

structure File where
  objects : List (ObjectId × Object)
  highest : Nat := 3
  pageIds : List ObjectId := []
  infoId : Option ObjectId := none

namespace File

def resourcesId : ObjectId := ⟨1, 0⟩

def pagesId : ObjectId := ⟨2, 0⟩

/-- The object where readers begin. -/
def catalogId : ObjectId := ⟨3, 0⟩

def ofFonts (fonts : Dict) : File where
  objects := [(resourcesId, .dict [(ascii "Font", .dict fonts)])]

instance : Inhabited File := ⟨ofFonts []⟩

/-- The number behind the highest one. Numbers have 32 bits, so behind the last of them comes
zero. -/
def next (f : File) : Nat := (f.highest + 1) % 2 ^ 32

def newId (f : File) : ObjectId × File := (⟨f.next, 0⟩, { f with highest := f.next })

def add (f : File) (object : Object) : ObjectId × File :=
  let (id, f) := f.newId
  (id, { f with objects := Ordered.place id object f.objects })

def put (f : File) (id : ObjectId) (object : Object) : File :=
  { f with
    highest := max f.highest id.number
    objects := Ordered.place id object f.objects }

def addContent (f : File) (content : Bytes) : ObjectId × File := f.add (.stream [] content)

def setPageIds (f : File) (ids : List ObjectId) : File := { f with pageIds := ids }

def setInfo (f : File) (info : Dict) : File :=
  let (id, f) := f.add (.dict info)
  { f with infoId := some id }

def pageTree (f : File) : Object :=
  .dict
    [(ascii "Type", .keyword "Pages"), (ascii "Kids", .array (f.pageIds.map .ref)),
     (ascii "Count", .int f.pageIds.length)]

def catalog : Object := .dict [(ascii "Type", .keyword "Catalog"), (ascii "Pages", .ref pagesId)]

/-- The file with the list of pages and the catalog in it. -/
def closed (f : File) : File := (f.put pagesId f.pageTree).put catalogId catalog

/-- How many entries the table of places has: one for each number up to the highest, and one for
zero. -/
def size (f : File) : Nat := f.next

def trailer (f : File) : Object :=
  .dict
    ([(ascii "Size", .int f.size), (ascii "Root", .ref catalogId)] ++
      f.infoId.toList.map fun id => (ascii "Info", .ref id))

end File

/-- The first bytes of a file: the version, and a line that shows that the file is not text. -/
def header (version : String) : Bytes := utf8 ("%PDF-" ++ version ++ "\n%âãÏÓ\n")

def padded (width n : Nat) : String :=
  let digits := toString n
  Number.zeros (width - digits.length) ++ digits

/-- An entry of the table of places: twenty bytes, for a place or for a number not in use. -/
def placeEntry : Option Nat → Bytes
  | some place => ascii (padded 10 place ++ " 00000 n \n")
  | none => ascii "0000000000 65535 f \n"

/-- Writes an object and says where it begins. -/
def writeObject (id : ObjectId) (object : Object) : Writing Nat := do
  let place ← Writing.position
  Writing.write (ascii (toString id.number ++ " " ++ toString id.generation ++ " obj\n"))
  Writing.write object.bytes
  Writing.write (ascii "\nendobj\n")
  return place

/-- Writes objects and says where those of each number begin, the latest first. -/
def writeObjects (places : List (Nat × Nat)) : List (ObjectId × Object) → Writing (List (Nat × Nat))
  | [] => return places
  | (id, object) :: rest => do
    let place ← writeObject id object
    writeObjects ((id.number, place) :: places) rest

/-- Writes the table of places. The entry of zero is there whatever the size. Of several objects
with one number the last counts. -/
def writePlaces (size : Nat) (places : List (Nat × Nat)) : Writing Unit := do
  Writing.write (ascii ("xref\n0 " ++ toString size ++ "\n"))
  Writing.write (placeEntry none)
  (List.range' 1 (size - 1)).forM fun number => Writing.write (placeEntry (places.lookup number))

namespace File

def writeBody (f : File) : Writing Unit := do
  let f := f.closed
  let places ← writeObjects [] f.objects
  let start ← Writing.position
  writePlaces f.size places
  Writing.write (ascii "trailer\n")
  Writing.write f.trailer.bytes
  Writing.write (ascii ("\nstartxref\n" ++ toString start ++ "\n%%EOF"))
  Writing.flush

def write (version : String) (f : File) : Writing Unit := do
  Writing.write (header version)
  f.writeBody

def pieces (version : String) (f : File) : List Bytes :=
  ((f.write version).runOn Target.memory).2.pieces.reverse

def bytes (version : String) (f : File) : Bytes := (f.pieces version).flatten

end File

structure Document where
  contents : List Bytes
  page : Dimensions
  fonts : Dict
  info : Option Dict

namespace Document

def pageObject (page : Dimensions) (content : ObjectId) : Object :=
  .dict
    [(ascii "Type", .keyword "Page"), (ascii "Parent", .ref File.pagesId),
     (ascii "MediaBox", .array [.int 0, .int 0, .real page.width, .real page.height]),
     (ascii "Contents", .ref content), (ascii "Resources", .ref File.resourcesId)]

def addPage (page : Dimensions) (f : File) (content : Bytes) : File :=
  let (contentId, f) := f.addContent content
  let (pageId, f) := f.add (pageObject page contentId)
  { f with pageIds := f.pageIds ++ [pageId] }

def file (d : Document) : File :=
  let f := d.contents.foldl (addPage d.page) (File.ofFonts d.fonts)
  match d.info with
  | some info => f.setInfo info
  | none => f

def version : String := "1.7"

def bytes (d : Document) : Bytes := d.file.bytes version

def chunkSize : Nat := 16 * 1024

def production (d : Document) : Delivery.Production :=
  .ofPieces chunkSize (d.file.pieces version)

end Document

end Folio.Pdf
