import Folio.Markup.Reader

/-! # Tokens

A document is cut into tokens from front to back. What a character means depends on where it
stands: outside the root, inside a tag, or in the content of elements. Every step takes at least
one character, and cutting stops at the first fault.
-/

namespace Folio.Markup

/-- A piece of a document, with the place where it begins. -/
inductive Token where
  | tag (name : QName) (place : Position)
  /-- An attribute with its value as it is written, and the place where that begins. -/
  | attribute (name : QName) (place : Position) (value : List Char) (valuePlace : Position)
  | opened
  | emptied
  | endTag (name : QName) (place : Position)
  | text (raw : List Char) (place : Position)
  | literal (raw : List Char)
  | comment (text : List Char)
  | instruction (target : String) (text : List Char)
  deriving Repr

inductive Region where
  /-- Outside the root, before or behind it. -/
  | outside (behind : Bool)
  /-- In a tag of an element at a depth; whether space has just been passed. -/
  | tag (depth : Nat) (spaced : Bool)
  | content (depth : Nat)
  deriving Repr, DecidableEq

structure Step where
  token? : Option Token
  region : Region

namespace Reader

/-- Takes an equals sign with any space around it, and the quotation mark of a value. -/
def quote : Reader Char := do
  spaces
  character '='
  spaces
  match ← peek? with
  | none => fail (.whole .endOfText)
  | some mark =>
    if mark ≠ '\x27' ∧ mark ≠ '\x22' then failHere (.oneOf "a quote" (leadByte mark))
    else
      skip 1
      return mark

def endsValue (mark c : Char) : Bool := c == mark || c == '<'

/-- Takes the value of an attribute. That nothing ends it is noticed before anything that is wrong
in it. -/
def value : Reader (List Char × Position) := do
  let mark ← quote
  let place ← position
  if !(← holds (endsValue mark)) then fail (.whole .endOfText)
  let value ← upToClass (endsValue mark)
  character mark
  return (value, place)

def comment (place : Position) : Reader Token := do
  skip 3
  let text ← upTo "-->"
  literal "-->"
  let doubled := (text.zip (text.drop 1)).any fun (a, b) => a == '-' && b == '-'
  if doubled || text.getLast? == some '-' then fail ⟨.comment, place⟩
  return .comment text

def instruction (place : Position) : Reader Token := do
  if ← startsWith "?xml " then fail ⟨.declaration, place⟩
  skip 1
  let target ← plainName
  spaces
  let text ← upTo "?>"
  literal "?>"
  return .instruction target text

def literalSection : Reader Token := do
  skip 8
  let text ← upTo "]]>"
  literal "]]>"
  return .literal text

def endTag (place : Position) : Reader Token := do
  skip 1
  let name ← qname
  spaces
  character '>'
  return .endTag name place

def text (first : Char) (place : Position) : Reader Token := do
  if !isAllowed first then fail ⟨.forbidden first, place⟩
  let more ← upToClass (· == '<')
  let raw := first :: more
  let closes := (raw.zip (raw.drop 1)).zip (raw.drop 2) |>.any
    fun ((a, b), c) => a == ']' && b == ']' && c == '>'
  if closes then failHere .sectionEnd
  return .text raw place

def outside (behind : Bool) (c : Char) (place : Position) : Reader Step := do
  if isSpace c then return ⟨none, .outside behind⟩
  else if c ≠ '<' then fail ⟨.token, place⟩
  else if ← startsWith "!--" then return ⟨some (← comment place), .outside behind⟩
  else if ← startsWith "?" then return ⟨some (← instruction place), .outside behind⟩
  else if behind then fail ⟨.token, place⟩
  else if ← startsWith "!DOCTYPE" then fail (.whole .documentType)
  else return ⟨some (.tag (← qname) place), .tag 0 false⟩

def inTag (depth : Nat) (spaced : Bool) (c : Char) (place : Position) : Reader Step := do
  if isSpace c then return ⟨none, .tag depth true⟩
  else if c = '/' then
    character '>'
    return ⟨some .emptied, if depth = 0 then .outside true else .content depth⟩
  else if c = '>' then return ⟨some .opened, .content (depth + 1)⟩
  else if !spaced then fail ⟨.oneOf "a whitespace" (leadByte c), place⟩
  else if !isNameChar c then fail ⟨.name, place⟩
  else
    let name ← qnameFrom [c] place
    let (value, valuePlace) ← value
    return ⟨some (.attribute name place value valuePlace), .tag depth false⟩

def inContent (depth : Nat) (c : Char) (place : Position) : Reader Step := do
  if c ≠ '<' then return ⟨some (← text c place), .content depth⟩
  else
    match ← peek? with
    | none => fail ⟨.token, place⟩
    | some '!' =>
      if ← startsWith "!--" then return ⟨some (← comment place), .content depth⟩
      else if ← startsWith "![CDATA[" then return ⟨some (← literalSection), .content depth⟩
      else fail ⟨.token, place⟩
    | some '?' => return ⟨some (← instruction place), .content depth⟩
    | some '/' =>
      return ⟨some (← endTag place), if depth ≤ 1 then .outside true else .content (depth - 1)⟩
    | some _ => return ⟨some (.tag (← qname) place), .tag depth false⟩

/-- Takes what begins with a character that has been taken already. -/
def step (region : Region) (c : Char) (place : Position) : Reader Step :=
  match region with
  | .outside behind => outside behind c place
  | .tag depth spaced => inTag depth spaced c place
  | .content depth => inContent depth c place

/-- Space before the next part of a declaration, unless the declaration or the text ends here. -/
def partSpace : Reader Unit := do
  match ← peek? with
  | none => return ()
  | some c =>
    if isSpace c then spaces
    else if ← startsWith "?>" then return ()
    else failHere (.oneOf "a whitespace" (leadByte c))

def part : Reader Unit := do
  let _ ← qname
  let mark ← quote
  let _ ← upToClass (endsValue mark)
  character mark

/-- Takes what may stand before everything else: a byte order mark and a declaration. -/
def prologue : Reader Unit := do
  if ← startsWith "\uFEFF" then skip 1
  if ← startsWith "<?xml " then
    skip 5
    partSpace
    if !(← startsWith "version") then failHere (.literal "version")
    part
    partSpace
    if ← startsWith "encoding" then
      part
      partSpace
    if ← startsWith "standalone" then part
    spaces
    literal "?>"

end Reader

/-- The tokens of a document as far as they could be cut, and the fault where that ended early. -/
structure Scan where
  tokens : List Token
  fault? : Option Fault

namespace Scan

def cons (token? : Option Token) (s : Scan) : Scan :=
  match token? with
  | some t => { s with tokens := t :: s.tokens }
  | none => s

/-- Cuts the rest of a document. A tag may be left open at the end of the text, unless space
follows what it holds. -/
def ofCursor (region : Region) (c : Cursor) : Scan :=
  match c with
  | ⟨[], _⟩ =>
    match region with
    | .tag _ true => ⟨[], some (.whole .endOfText)⟩
    | _ => ⟨[], none⟩
  | ⟨first :: rest, place⟩ =>
    match Reader.step region first place ⟨rest, place.next first⟩ with
    | .error fault => ⟨[], some fault⟩
    | .ok (step, ⟨next, _⟩) => cons step.token? (ofCursor step.region next)
termination_by c.rest.length
decreasing_by
  rename_i onward
  exact Nat.lt_succ_of_le onward

def ofString (s : String) : Scan :=
  match Reader.prologue (.ofString s) with
  | .error fault => ⟨[], some fault⟩
  | .ok (_, c) => ofCursor (.outside false) c

end Scan

end Folio.Markup
