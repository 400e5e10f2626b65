import Folio.Json
import Folio.Table

/-! # Elements

The tree that is interpreted. Children are grouped into fields, one name to a field: either every
run of neighbours with one name shares a field, or all siblings of a name do.
-/

namespace Folio.Markup

/-- Which siblings of one name share a field. -/
inductive SiblingOrder where
  /-- Neighbours only, so that the fields keep the order of the document. -/
  | document
  /-- All of them, in a field where the name first stands. -/
  | grouped
  deriving Repr, DecidableEq, Inhabited

abbrev Attributes := Table String

mutual

inductive Element where
  | mk (name : String) (text : String) (attributes : Attributes) (children : List Field)

inductive Field where
  | mk (name : String) (value : Child)

inductive Child where
  | single (element : Element)
  | repeated (elements : List Element)

end

abbrev Children := List Field

/-- The key of the attributes in a serialized tree, where no child may have that name. -/
def attributesKey : String := "attrs"

def textKey : String := "textNode"

def isReserved (name : String) : Bool := name == attributesKey || name == textKey

namespace Element

def name : Element → String
  | mk name _ _ _ => name

def text : Element → String
  | mk _ text _ _ => text

def attributes : Element → Attributes
  | mk _ _ attributes _ => attributes

def children : Element → Children
  | mk _ _ _ children => children

def named (name : String) : Element := mk name "" .empty []

instance : Inhabited Element := ⟨named ""⟩

@[simp] theorem name_mk (n t a c) : (mk n t a c).name = n := rfl
@[simp] theorem text_mk (n t a c) : (mk n t a c).text = t := rfl
@[simp] theorem attributes_mk (n t a c) : (mk n t a c).attributes = a := rfl
@[simp] theorem children_mk (n t a c) : (mk n t a c).children = c := rfl

end Element

namespace Child

def elements : Child → List Element
  | single e => [e]
  | repeated es => es

def append (c : Child) (e : Element) : Child := repeated (c.elements ++ [e])

@[simp] theorem elements_append (c : Child) (e : Element) :
    (c.append e).elements = c.elements ++ [e] := rfl

end Child

namespace Field

def name : Field → String
  | mk name _ => name

def value : Field → Child
  | mk _ value => value

def elements (f : Field) : List Element := f.value.elements

def ofElement (e : Element) : Field := mk e.name (.single e)

def append (f : Field) (e : Element) : Field := mk f.name (f.value.append e)

@[simp] theorem name_mk (n : String) (c : Child) : (mk n c).name = n := rfl
@[simp] theorem value_mk (n : String) (c : Child) : (mk n c).value = c := rfl
@[simp] theorem name_append (f : Field) (e : Element) : (f.append e).name = f.name := rfl
@[simp] theorem elements_append (f : Field) (e : Element) :
    (f.append e).elements = f.elements ++ [e] := rfl

end Field

namespace Children

/-- Adds an element to the last field if that has its name, else in a field of its own. -/
def pushLast (e : Element) : Children → Children
  | [] => [.ofElement e]
  | [f] => if f.name = e.name then [f.append e] else [f, .ofElement e]
  | f :: g :: rest => f :: pushLast e (g :: rest)

def pushFirst (e : Element) : Children → Children
  | [] => [.ofElement e]
  | f :: rest => if f.name = e.name then f.append e :: rest else f :: pushFirst e rest

def push (c : Children) (e : Element) : SiblingOrder → Children
  | .document => pushLast e c
  | .grouped => pushFirst e c

def field? (c : Children) (name : String) : Option Field := c.find? (·.name == name)

def elementsNamed (c : Children) (name : String) : List Element :=
  (c.filter (·.name == name)).flatMap Field.elements

def elements (c : Children) : List Element := c.flatMap Field.elements

end Children

namespace Element

def withText (e : Element) (text : String) : Element := mk e.name text e.attributes e.children

def withAttribute (e : Element) (name value : String) : Element :=
  mk e.name e.text (e.attributes.insert name value) e.children

def withChild (e : Element) (child : Element) : Element :=
  mk e.name e.text e.attributes (e.children.push child .document)

end Element

mutual

/-- A serialized element. The name is left to the field that holds it. -/
def Element.toJson : Element → Json
  | .mk _ text attributes children =>
    .object
      ((textKey, .text text) ::
        ((if attributes.isEmpty then []
          else [(attributesKey, .object (attributes.entries.map fun (k, v) => (k, .text v)))]) ++
        (match children with
          | [] => []
          | f :: rest => [("children", .list (f.toJson :: fieldsToJson rest))])))

def Field.toJson : Field → Json
  | .mk name value => .object [(name, value.toJson)]

def Child.toJson : Child → Json
  | .single e => e.toJson
  | .repeated es => .list (elementsToJson es)

def fieldsToJson : List Field → List Json
  | [] => []
  | f :: rest => f.toJson :: fieldsToJson rest

def elementsToJson : List Element → List Json
  | [] => []
  | e :: rest => e.toJson :: elementsToJson rest

end

end Folio.Markup
