import Folio.Markup.Element
import Folio.Markup.Node
import Folio.Record
import Folio.Text.Blank

/-! # Documents

From the tree of a document to the elements that are interpreted. Comments and instructions say
nothing, all text of an element is one text wherever it stands among the children, and children
under a reserved name are left out with everything in them.
-/

namespace Folio.Markup

structure ParseOptions where
  rootTag : String := "document"
  order : SiblingOrder := .document
  trim : Bool := true
  deriving Repr, DecidableEq

inductive MarkupError where
  | fault (fault : Fault)
  | root (expected found : String) (place : Position)
  deriving Repr, DecidableEq

namespace MarkupError

def place : MarkupError → Position
  | fault f => f.position
  | root _ _ place => place

def message : MarkupError → String
  | fault f => "XML parsing error at " ++ f.position.text ++ ": " ++ f.message
  | root expected found place =>
    "Expected root element <" ++ expected ++ "> but found <" ++ found ++ "> at " ++ place.text

end MarkupError

/-- The text of an element: the texts among its nodes one after the other. Without trimming, a
text of nothing but white space still counts as empty. -/
def settledText (options : ParseOptions) (nodes : List Node) : String :=
  let all := String.join (nodes.filterMap fun
    | .text content => some content
    | _ => none)
  let trimmed := Text.trim all
  if options.trim then trimmed else if trimmed = "" then "" else all

def skipped (name : String) (place : Position) : Record :=
  .warn ("Skipping <" ++ name ++ "> at " ++ place.text ++ ": the name is reserved")

mutual

def grow (options : ParseOptions) (children : Children) : Node → Children × List Record
  | .element name attributes place nodes =>
    if isReserved name then (children, [skipped name place])
    else
      let (inner, records) := growAll options [] nodes
      (children.push (.mk name (settledText options nodes) (.ofList attributes) inner)
        options.order, records)
  | .text _ | .comment _ | .instruction _ _ => (children, [])

def growAll (options : ParseOptions) (children : Children) : List Node → Children × List Record
  | [] => (children, [])
  | node :: rest =>
    let (children, records) := grow options children node
    let (children, more) := growAll options children rest
    (children, records ++ more)

end

/-- Turns markup into its tree of nodes, or says where it is not well formed. -/
abbrev NodeReader := String → Except Fault Node

/-- Reads a document. The records tell what was left out. -/
def parse (options : ParseOptions) (markup : String) (reader : NodeReader := Node.ofString) :
    Except MarkupError (Element × List Record) :=
  match reader markup with
  | .error fault => .error (.fault fault)
  | .ok (.element name attributes place nodes) =>
    if name ≠ options.rootTag then .error (.root options.rootTag name place)
    else
      let (children, records) := growAll options [] nodes
      .ok (.mk name (settledText options nodes) (.ofList attributes) children, records)
  | .ok _ => .error (.fault (.whole .noRoot))

end Folio.Markup
