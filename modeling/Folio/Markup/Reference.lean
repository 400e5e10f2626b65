import Folio.Markup.Reader

/-! # References and line ends

Text and attribute values are written with references to characters, and with the line ends of any
system. Here both are replaced by the characters that they stand for.
-/

namespace Folio.Markup

inductive Reference where
  | char (c : Char)
  | named (name : String)
  deriving Repr, DecidableEq

namespace Reference

def known : List (String × Char) :=
  [("quot", '\x22'), ("amp", '&'), ("apos", '\x27'), ("lt", '<'), ("gt", '>')]

/-- The character of a code. A code that is no character stands for the replacement character, and
a character that no document may hold is refused. -/
def ofCode? (n : Nat) : Option Char :=
  if 2 ^ 32 ≤ n then none
  else
    let c := if n.isValidChar then Char.ofNat n else '\uFFFD'
    if isAllowed c then some c else none

def digitValue (c : Char) : Nat :=
  if c.isDigit then c.toNat - 48 else if c.isLower then c.toNat - 87 else c.toNat - 55

def ofDigits? (base : Nat) (digits : List Char) : Option Char :=
  if digits.isEmpty then none
  else ofCode? (digits.foldl (fun n c => base * n + digitValue c) 0)

def isHexDigit (c : Char) : Bool :=
  c.isDigit || ('a' ≤ c && c ≤ 'f') || ('A' ≤ c && c ≤ 'F')

/-- The meaning of what stands between the ampersand and the semicolon, and how many characters
that is. -/
def body? (cs : List Char) : Option (Reference × Nat) :=
  match cs with
  | '#' :: 'x' :: rest =>
    let digits := rest.takeWhile isHexDigit
    (ofDigits? 16 digits).map fun c => (.char c, 2 + digits.length)
  | '#' :: rest =>
    let digits := rest.takeWhile Char.isDigit
    (ofDigits? 10 digits).map fun c => (.char c, 1 + digits.length)
  | rest =>
    let name := rest.takeWhile isNameChar
    if !name.head?.any isNameStart then none
    else
      let name := String.ofList name
      match known.lookup name with
      | some c => some (.char c, name.length)
      | none => some (.named name, name.length)

/-- Takes a reference behind its ampersand. The answer tells how many characters belong to it, the
semicolon included. -/
def ofChars? (cs : List Char) : Option (Reference × Nat) :=
  match body? cs with
  | none => none
  | some (reference, n) =>
    match cs.drop n with
    | ';' :: _ => some (reference, n + 1)
    | _ => none

end Reference

/-- Reads a reference behind its ampersand as a character, or reports it at the given place. -/
def resolve (cs : List Char) (place : Position) : Except Fault (Char × Nat) :=
  match Reference.ofChars? cs with
  | none => .error ⟨.reference, place⟩
  | some (.named name, _) => .error ⟨.unknownReference name, place⟩
  | some (.char c, n) => .ok (c, n)

/-- Adds a character that stands in a text itself to what has been read, last character first. A
carriage return is held back until it is known whether a line feed follows. -/
def addPlain (read : List Char) (c : Char) (atEnd : Bool) : List Char :=
  let last := if atEnd && c == '\r' then '\n' else c
  match read with
  | '\r' :: before => if c = '\n' then '\n' :: before else last :: '\n' :: before
  | _ => last :: read

/-- The characters that a text stands for. A character out of a reference is taken as it is, and
so is the one behind the reference. -/
def textFrom (read : List Char) (exact : Bool) (place : Position) (cs : List Char) :
    Except Fault (List Char) :=
  match cs with
  | [] => .ok read.reverse
  | '&' :: rest =>
    match resolve rest place with
    | .error fault => .error fault
    | .ok (c, n) =>
      textFrom (c :: read) true ((place.next '&').advance (rest.take n)) (rest.drop n)
  | c :: rest =>
    if exact then textFrom (c :: read) false (place.next c) rest
    else textFrom (addPlain read c rest.isEmpty) false (place.next c) rest
termination_by cs.length
decreasing_by all_goals simp; try omega

def textValue (place : Position) (raw : List Char) : Except Fault (List Char) :=
  if raw.contains '&' || raw.contains '\r' then textFrom [] false place raw else .ok raw

/-- The characters that an attribute value stands for: a line end is one space, and so is a tab. -/
def attributeValue (place : Position) (cs : List Char) : Except Fault (List Char) :=
  match cs with
  | [] => .ok []
  | '&' :: rest =>
    match resolve rest place with
    | .error fault => .error fault
    | .ok (c, n) =>
      (attributeValue ((place.next '&').advance (rest.take n)) (rest.drop n)).map (c :: ·)
  | c :: rest =>
    let value := attributeValue (place.next c) rest
    if c = '\r' ∧ rest.head? = some '\n' then value
    else value.map ((if c = '\r' ∨ c = '\n' ∨ c = '\t' then ' ' else c) :: ·)
termination_by cs.length
decreasing_by all_goals simp; try omega

def literalValue : List Char → List Char
  | [] => []
  | c :: rest =>
    if c = '\r' then
      if rest.head? = some '\n' then literalValue rest else '\n' :: literalValue rest
    else c :: literalValue rest

end Folio.Markup
