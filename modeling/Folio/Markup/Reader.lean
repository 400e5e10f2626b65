import Folio.Bytes
import Folio.Markup.Fault

/-! # Reading

A reader takes characters off the front of a text and knows where it stands. Its type says that it
never goes back, so a loop that takes a character before it calls a reader always ends.

Markup distinguishes space, what may stand in a text at all, and what may begin and continue a name.
A name may be qualified by another one in front of it with a colon between them. The qualifier may
be empty, the name behind it may not.
-/

namespace Folio.Markup

def isSpace (c : Char) : Bool := c == ' ' || c == '\t' || c == '\r' || c == '\n'

/-- What may stand in a document. Of the control characters only three may, and the two
noncharacters at the end of the basic plane may not. -/
def isAllowed (c : Char) : Bool :=
  if c.toNat < 0x20 then c == '\t' || c == '\n' || c == '\r'
  else c.toNat != 0xFFFE && c.toNat != 0xFFFF

def nameStartRanges : List (Nat × Nat) :=
  [(0xC0, 0xD6), (0xD8, 0xF6), (0xF8, 0x2FF), (0x370, 0x37D), (0x37F, 0x1FFF), (0x200C, 0x200D),
   (0x2070, 0x218F), (0x2C00, 0x2FEF), (0x3001, 0xD7FF), (0xF900, 0xFDCF), (0xFDF0, 0xFFFD),
   (0x10000, 0xEFFFF)]

/-- Ranges beyond ASCII that may continue a name without beginning one. -/
def nameOnlyRanges : List (Nat × Nat) := [(0xB7, 0xB7), (0x300, 0x36F), (0x203F, 0x2040)]

def inRanges (ranges : List (Nat × Nat)) (c : Char) : Bool :=
  ranges.any fun (low, high) => low ≤ c.toNat && c.toNat ≤ high

def isNameStart (c : Char) : Bool :=
  if c.toNat < 128 then c.isAlpha || c == ':' || c == '_' else inRanges nameStartRanges c

def isNameChar (c : Char) : Bool :=
  if c.toNat < 128 then c.isAlphanum || c == ':' || c == '_' || c == '-' || c == '.'
  else inRanges nameStartRanges c || inRanges nameOnlyRanges c

/-- The first byte of the UTF-8 form of a character, shown as the character with that code. -/
def leadByte (c : Char) : Char :=
  match String.utf8EncodeChar c with
  | [] => c
  | b :: _ => Char.ofNat b.toNat

structure QName where
  qualifier : String
  name : String
  deriving Repr, DecidableEq, Inhabited

namespace QName

def text (q : QName) : String :=
  if q.qualifier = "" then q.name else q.qualifier ++ ":" ++ q.name

def ofChars? (cs : List Char) : Option QName :=
  let front := cs.takeWhile (· != ':')
  let (qualifier, name) :=
    match cs.dropWhile (· != ':') with
    | [] => ([], front)
    | _ :: behind => (front, behind)
  if name.contains ':' then none
  else if !qualifier.head?.all isNameStart then none
  else if !name.head?.any isNameStart then none
  else some ⟨String.ofList qualifier, String.ofList name⟩

end QName

/-- What is left of a text, and where that begins. -/
structure Cursor where
  rest : List Char
  position : Position

namespace Cursor

def ofString (s : String) : Cursor := ⟨s.toList, .start⟩

abbrev Onward (c : Cursor) := { d : Cursor // d.rest.length ≤ c.rest.length }

def stay (c : Cursor) : c.Onward := ⟨c, Nat.le_refl _⟩

def skip (c : Cursor) (n : Nat) : c.Onward :=
  ⟨⟨c.rest.drop n, c.position.advance (c.rest.take n)⟩, by simp⟩

def startsWith (c : Cursor) (s : String) : Bool := s.toList.isPrefixOf c.rest

end Cursor

def Reader (α : Type) : Type := (c : Cursor) → Except Fault (α × c.Onward)

namespace Reader

variable {α β : Type}

instance : Monad Reader where
  pure a := fun c => .ok (a, c.stay)
  bind r f := fun c =>
    match r c with
    | .error e => .error e
    | .ok (a, ⟨d, hd⟩) =>
      match f a d with
      | .error e => .error e
      | .ok (b, ⟨e, he⟩) => .ok (b, ⟨e, Nat.le_trans he hd⟩)

def fail (f : Fault) : Reader α := fun _ => .error f

def failHere (cause : Cause) : Reader α := fun c => .error ⟨cause, c.position⟩

def position : Reader Position := fun c => .ok (c.position, c.stay)

def peek? : Reader (Option Char) := fun c => .ok (c.rest.head?, c.stay)

/-- Whether the text goes on with the given one, which is not taken. -/
def startsWith (s : String) : Reader Bool := fun c => .ok (c.startsWith s, c.stay)

def holds (p : Char → Bool) : Reader Bool := fun c => .ok (c.rest.any p, c.stay)

def skip (n : Nat) : Reader Unit := fun c => .ok ((), c.skip n)

def takeWhile (p : Char → Bool) : Reader (List Char) := fun c =>
  let taken := c.rest.takeWhile p
  .ok (taken, c.skip taken.length)

def spaces : Reader Unit := do
  let _ ← takeWhile isSpace

def literal (s : String) : Reader Unit := do
  if ← startsWith s then skip s.length else failHere (.literal s)

def character (wanted : Char) : Reader Unit := do
  match ← peek? with
  | none => fail (.whole .endOfText)
  | some c => if c = wanted then skip 1 else failHere (.character wanted (leadByte c))

/-- The characters up to the first place where the rest of the text satisfies `stop`, each of them
allowed in a document. -/
def allowedUntil (stop : List Char → Bool) :
    (rest : List Char) → (p : Position) → Except Fault (List Char × Cursor.Onward ⟨rest, p⟩)
  | [], p => .ok ([], Cursor.stay ⟨[], p⟩)
  | c :: cs, p =>
    if !isAllowed c then .error ⟨.forbidden c, p⟩
    else if stop (c :: cs) then .ok ([], Cursor.stay ⟨c :: cs, p⟩)
    else
      match allowedUntil stop cs (p.next c) with
      | .error e => .error e
      | .ok (taken, ⟨d, hd⟩) => .ok (c :: taken, ⟨d, Nat.le_succ_of_le hd⟩)

def upTo (s : String) : Reader (List Char) := fun c =>
  allowedUntil s.toList.isPrefixOf c.rest c.position

def upToClass (p : Char → Bool) : Reader (List Char) := fun c =>
  allowedUntil (fun rest => rest.head?.any p) c.rest c.position

/-- Takes a qualified name whose first characters have been taken already, at the given place. -/
def qnameFrom (first : List Char) (place : Position) : Reader QName := do
  let more ← takeWhile isNameChar
  match QName.ofChars? (first ++ more) with
  | some name => return name
  | none => fail ⟨.name, place⟩

def qname : Reader QName := do
  qnameFrom [] (← position)

def plainName : Reader String := do
  let place ← position
  let name ← takeWhile isNameChar
  if name.head?.any isNameStart then return String.ofList name else fail ⟨.name, place⟩

end Reader

end Folio.Markup
