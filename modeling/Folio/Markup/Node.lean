import Folio.Markup.Reference
import Folio.Markup.Token

/-! # Nodes

A document as a tree. Elements and attributes go by the name behind their qualifier; qualifiers
only have to be declared, and to keep attributes of one name apart. The tree is built from tokens,
and a fault in a token is found before anything behind it.
-/

namespace Folio.Markup

/-- A node of a document. Attributes stand in the order of the tag. -/
inductive Node where
  | element (name : String) (attributes : List (String × String)) (place : Position)
      (children : List Node)
  | text (content : String)
  | comment (text : String)
  | instruction (target text : String)
  deriving Repr

/-- The namespace of the qualifier `xml`, which needs no declaration. -/
def reservedSpace : String := "http://www.w3.org/XML/1998/namespace"

/-- The namespace of declarations, which may not be declared. -/
def declarationSpace : String := "http://www.w3.org/2000/xmlns/"

abbrev Spaces := List (String × String)

structure OpenTag where
  name : QName
  place : Position
  attributes : List (QName × String × Position) := []
  spaces : Spaces := []

/-- An element whose end tag is missing. Its children stand last first. -/
structure OpenElement where
  name : QName
  place : Position
  attributes : List (String × String)
  spaces : Spaces
  children : List Node := []

structure Builder where
  tag? : Option OpenTag := none
  /-- The open elements, innermost first. -/
  elements : List OpenElement := []
  root? : Option Node := none

namespace Builder

def declare (tag : OpenTag) (name : QName) (value : String) (place : Position) :
    Except Fault OpenTag :=
  if name.qualifier = "xmlns" then
    if value = declarationSpace then .error ⟨.declarationSpace, place⟩
    else if name.name = "xml" ∧ value ≠ reservedSpace then .error ⟨.reservedQualifier, place⟩
    else if name.name ≠ "xml" ∧ value = reservedSpace then .error ⟨.reservedSpace, place⟩
    else if (tag.spaces.lookup name.name).isSome then
      .error ⟨.duplicateSpace name.name, place⟩
    else if value = reservedSpace then .ok tag
    else .ok { tag with spaces := tag.spaces ++ [(name.name, value)] }
  else if value = reservedSpace then .error ⟨.reservedSpace, place⟩
  else if value = declarationSpace then .error ⟨.declarationSpace, place⟩
  else .ok { tag with spaces := tag.spaces ++ [("", value)] }

def addAttribute (tag : OpenTag) (name : QName) (value : String) (place : Position) :
    Except Fault OpenTag :=
  if name.qualifier = "xmlns" ∨ name.name = "xmlns" then declare tag name value place
  else .ok { tag with attributes := tag.attributes ++ [(name, value, place)] }

/-- The namespace of a qualifier. No qualifier is no namespace, whatever is declared for it. -/
def space (spaces : Spaces) (qualifier : String) (place : Position) :
    Except Fault (Option String) :=
  if qualifier = "" then .ok none
  else
    match spaces.lookup qualifier with
    | some value => .ok (some value)
    | none => .error ⟨.unknownSpace qualifier, place⟩

/-- The attributes of a tag by the name behind the qualifier. No two may agree in namespace and
name. The qualifier `xml` is known to attributes alone: a declaration of it adds nothing to the
namespaces of a tag. -/
def attributes (spaces : Spaces) (seen : List (Option String × String)) :
    List (QName × String × Position) → Except Fault (List (String × String))
  | [] => .ok []
  | (name, value, place) :: rest => do
    let key := (← space (("xml", reservedSpace) :: spaces) name.qualifier place, name.name)
    if seen.contains key then throw ⟨.duplicateAttribute name.name, place⟩
    return (name.name, value) :: (← attributes spaces (key :: seen) rest)

def enter (b : Builder) (tag : OpenTag) : Except Fault OpenElement := do
  let outer := (b.elements.head?.map (·.spaces)).getD []
  let spaces := tag.spaces ++ outer
  let attributes ← attributes spaces [] tag.attributes
  let _ ← space spaces tag.name.qualifier (tag.place.next '<')
  return { name := tag.name, place := tag.place, attributes := attributes, spaces := spaces }

def node (e : OpenElement) : Node :=
  .element e.name.name e.attributes e.place e.children.reverse

/-- Adds a node to the innermost open element, or makes it the root when there is none. -/
def add (b : Builder) (n : Node) : Builder :=
  match b.elements with
  | [] =>
    match n with
    | .element .. => { b with root? := some n }
    | _ => b
  | e :: outer => { b with elements := { e with children := n :: e.children } :: outer }

def take (b : Builder) : Token → Except Fault Builder
  | .tag name place =>
    if name.qualifier = "xmlns" then .error ⟨.declarationQualifier, place.next '<'⟩
    else .ok { b with tag? := some { name := name, place := place } }
  | .attribute name place raw valuePlace => do
    let value ← attributeValue valuePlace raw
    match b.tag? with
    | none => return b
    | some tag => return { b with tag? := some (← addAttribute tag name (.ofList value) place) }
  | .opened => do
    match b.tag? with
    | none => return b
    | some tag =>
      let e ← enter b tag
      return { b with tag? := none, elements := e :: b.elements }
  | .emptied => do
    match b.tag? with
    | none => return b
    | some tag =>
      let e ← enter b tag
      return add { b with tag? := none } (node e)
  | .endTag name place =>
    match b.elements with
    | [] => .ok b
    | e :: outer =>
      if name = e.name then .ok (add { b with elements := outer } (node e))
      else .error ⟨.endTag e.name.text name.text, place⟩
  | .text raw place => do return add b (.text (.ofList (← textValue place raw)))
  | .literal raw => .ok (add b (.text (.ofList (literalValue raw))))
  | .comment text => .ok (add b (.comment (.ofList text)))
  | .instruction target text => .ok (add b (.instruction target (.ofList text)))

def finish (b : Builder) : Except Fault Node :=
  match b.elements, b.root? with
  | _ :: _, _ => .error (.whole .unclosedRoot)
  | [], none => .error (.whole .noRoot)
  | [], some root => .ok root

end Builder

namespace Node

def ofScan (scan : Scan) : Except Fault Node := do
  let b ← scan.tokens.foldlM Builder.take {}
  match scan.fault? with
  | some fault => throw fault
  | none => b.finish

def ofString (s : String) : Except Fault Node := ofScan (.ofString s)

end Node

end Folio.Markup
