/-! # Faults

What can be wrong with a document, where, and in which words this is reported. A place is counted
in lines and characters from one. Only a line feed starts a line; a carriage return and a byte order
mark count as characters.
-/

namespace Folio.Markup

structure Position where
  line : Nat
  column : Nat
  deriving Repr, DecidableEq, Inhabited

namespace Position

def start : Position := ⟨1, 1⟩

def next (p : Position) (c : Char) : Position :=
  if c = '\n' then ⟨p.line + 1, 1⟩ else ⟨p.line, p.column + 1⟩

def advance (p : Position) (cs : List Char) : Position := cs.foldl next p

def text (p : Position) : String :=
  "line " ++ toString p.line ++ ", column " ++ toString p.column

def short (p : Position) : String := toString p.line ++ ":" ++ toString p.column

end Position

inductive Cause where
  | forbidden (c : Char)
  | character (wanted found : Char)
  | oneOf (wanted : String) (found : Char)
  | literal (wanted : String)
  | endOfText
  | name
  | token
  | declaration
  | documentType
  | comment
  | sectionEnd
  | reference
  | unknownReference (name : String)
  | endTag (wanted found : String)
  | noRoot
  | unclosedRoot
  | declarationSpace
  | declarationQualifier
  /-- The qualifier that markup reserves for itself is bound to another namespace. -/
  | reservedQualifier
  /-- The namespace that markup reserves for itself is bound to another qualifier. -/
  | reservedSpace
  | duplicateSpace (name : String)
  | unknownSpace (name : String)
  | duplicateAttribute (name : String)
  deriving Repr, DecidableEq

structure Fault where
  cause : Cause
  position : Position
  deriving Repr, DecidableEq

/-- A forbidden character by its code in quotes; such a character is never shown itself. -/
def codeOf (c : Char) : String :=
  if c.toNat = 0 then "'\\0'"
  else "'\\u\x7b" ++ String.ofList (Nat.toDigits 16 c.toNat) ++ "\x7d'"

namespace Fault

def whole (cause : Cause) : Fault := ⟨cause, .start⟩

def message (f : Fault) : String :=
  let place := " at " ++ f.position.short
  match f.cause with
  | .forbidden c => "a non-XML character " ++ codeOf c ++ " found" ++ place
  | .character wanted found =>
    "expected '" ++ wanted.toString ++ "' not '" ++ found.toString ++ "'" ++ place
  | .oneOf wanted found => "expected " ++ wanted ++ " not '" ++ found.toString ++ "'" ++ place
  | .literal wanted => "expected '" ++ wanted ++ "'" ++ place
  | .endOfText => "unexpected end of stream"
  | .name => "invalid name token" ++ place
  | .token => "unknown token" ++ place
  | .declaration => "unexpected XML declaration" ++ place
  | .documentType => "XML with DTD detected"
  | .comment => "comment" ++ place ++ " contains '--'"
  | .sectionEnd => "']]>'" ++ place ++ " is not allowed inside a character data"
  | .reference => "malformed entity reference" ++ place
  | .unknownReference name => "unknown entity reference '" ++ name ++ "'" ++ place
  | .endTag wanted found => "expected '" ++ wanted ++ "' tag, not '" ++ found ++ "'" ++ place
  | .noRoot => "the document does not have a root node"
  | .unclosedRoot => "the root node was opened but never closed"
  | .declarationSpace => "the 'xmlns' URI is used" ++ place ++ ", but it must not be declared"
  | .declarationQualifier => "the 'xmlns' prefix is used" ++ place ++ ", but it must not be"
  | .reservedQualifier => "'xml' namespace prefix mapped to wrong URI" ++ place
  | .reservedSpace => "the 'xml' namespace URI is used for not 'xml' prefix" ++ place
  | .duplicateSpace name => "namespace '" ++ name ++ "'" ++ place ++ " is already defined"
  | .unknownSpace name => "an unknown namespace prefix '" ++ name ++ "'" ++ place
  | .duplicateAttribute name => "attribute '" ++ name ++ "'" ++ place ++ " is already defined"

end Fault

end Folio.Markup
