import Folio.Bytes
import Folio.Table

/-! # Folders

The files around a program by their paths. Paths are read from the folder in which the program
runs, and may lead out of it. Folders come into being with the files in them; the ones above exist
in any case.
-/

namespace Folio

/-- Where a file is, or a folder: the names on the way down to it. A way that leads out of the
folder begins with steps upwards, and one from the top with an empty name. -/
abbrev Place := List String

namespace Place

/-- The folder that holds a place. Nothing is above the top. -/
def above (place : Place) : Place :=
  match place.getLast? with
  | none | some ".." => place ++ [".."]
  | some "" => place
  | some _ => place.dropLast

def isOutside (place : Place) : Bool := place.all fun name => name = ".." || name = ""

def path (place : Place) : String := "/".intercalate place

end Place

structure Folder where
  files : Table Bytes := .empty

inductive FileError where
  | missing
  | notFolder
  | isFolder
  | nameTooLong
  | zeroInName
  deriving Repr, DecidableEq

def FileError.message : FileError → String
  | missing => "No such file or directory (os error 2)"
  | notFolder => "Not a directory (os error 20)"
  | isFolder => "Is a directory (os error 21)"
  | nameTooLong => "File name too long (os error 36)"
  | zeroInName => "file name contained an unexpected NUL byte"

namespace Folder

/-- The longest name that a file can have, in bytes. -/
def nameLimit : Nat := 255

/-- The longest path that can be followed, in bytes. -/
def pathLimit : Nat := 4095

def hasFolder (f : Folder) (place : Place) : Bool :=
  place.isOutside || f.files.names.any fun file => (place.path ++ "/").toList.isPrefixOf file.toList

def hasFile (f : Folder) (place : Place) : Bool := f.files.contains place.path

/-- Follows names down from a folder. Whatever the last name is, it is not looked up. -/
def follow (f : Folder) (place : Place) : List String → Except FileError Place
  | [] => .ok place
  | name :: rest =>
    let next := place ++ [name]
    if name = "" ∨ name = "." then f.follow place rest
    else if name = ".." then f.follow place.above rest
    else if rest.all (· = "") then .ok next
    else if nameLimit < name.utf8ByteSize then .error .nameTooLong
    else if f.hasFolder next then f.follow next rest
    else if f.hasFile next then .error .notFolder
    else .error .missing

def checkName (place : Place) : Except FileError Unit :=
  if place.any (nameLimit < ·.utf8ByteSize) then .error .nameTooLong else .ok ()

/-- The place of a path. A path that begins with a slash leads down from the top. -/
def locate (f : Folder) (path : String) : Except FileError Place :=
  if path.toList.contains '\x00' then .error .zeroInName
  else if path.isEmpty then .error .missing
  else if pathLimit < path.utf8ByteSize then .error .nameTooLong
  else f.follow (if path.startsWith "/" then [""] else []) (path.splitOn "/")

/-- The content of a file. A slash at the end of a path asks for a folder. -/
def read (f : Folder) (path : String) : Except FileError Bytes := do
  let place ← f.locate path
  checkName place
  if f.hasFolder place then throw .isFolder
  match f.files.get? place.path with
  | some content => if path.endsWith "/" then throw .notFolder else return content
  | none => throw .missing

/-- Makes a file, or replaces its content. A slash at the end of a path asks for a folder, whether
there could be one or not. -/
def write (f : Folder) (path : String) (content : Bytes) : Except FileError Folder := do
  let place ← f.locate path
  if path.endsWith "/" then throw .isFolder
  checkName place
  if f.hasFolder place then throw .isFolder
  return { files := f.files.insert place.path content }

end Folder

end Folio
