import Folio.Markup.Element
import Folio.Record
import Folio.Tag.Attribute

/-! # The root

The attributes of the root settle the options of the document. They are read in the order of
their names and the first that is not taken decides. Then the margins must leave room on the page.
-/

namespace Folio

inductive Setting where
  | size
  | layout
  | margin
  | font
  | fontSize
  | title
  | author
  | subject
  | keywords
  | creator
  | producer
  deriving Repr, DecidableEq

namespace Setting

def name : Setting → String
  | size => "size"
  | layout => "layout"
  | margin => "margin"
  | font => "font"
  | fontSize => "fontSize"
  | title => "title"
  | author => "author"
  | subject => "subject"
  | keywords => "keywords"
  | creator => "creator"
  | producer => "producer"

def all : List Setting :=
  [size, layout, margin, font, fontSize, title, author, subject, keywords, creator, producer]

def ofName? (name : String) : Option Setting := all.find? (·.name = name)

def assign (setting : Setting) (value : String) (options : Options) : Except Reason Options :=
  match setting with
  | size =>
    match PageSize.parse value with
    | .ok page => .ok { options with size := page }
    | .error why => .error (.pageSize why)
  | layout =>
    match Orientation.parse value with
    | .ok side => .ok { options with orientation := side }
    | .error found => .error (.orientation found)
  | margin => return { options with margin := ← Attribute.nonNegative value }
  | font => .ok { options with font := value }
  | fontSize => return { options with fontSize := ← Attribute.positive value }
  | title => .ok { options with info.title := some value }
  | author => .ok { options with info.author := some value }
  | subject => .ok { options with info.subject := some value }
  | keywords => .ok { options with info.keywords := some value }
  | creator => .ok { options with info.creator := some value }
  | producer => .ok { options with info.producer := some value }

end Setting

namespace Options

def ignored (name : String) : Record :=
  .debug ("Ignoring unknown document attribute '" ++ name ++ "'")

/-- Applies attributes in order. What is reported before an error stays reported. -/
def assignAll (tag : String) (options : Options) :
    List (String × String) → Except InterpretError Options × List Record
  | [] => (.ok options, [])
  | (name, value) :: rest =>
    match Setting.ofName? name with
    | none =>
      let (result, records) := assignAll tag options rest
      (result, ignored name :: records)
    | some setting =>
      match Attribute.blame tag name value (setting.assign value options) with
      | .error e => (.error e, [])
      | .ok options => assignAll tag options rest

/-- The attribute that is to blame for margins that fill the page: the margin if it is set, else
the size if that is set. -/
def blamed (options : Options) (attributes : Markup.Attributes) : String × String :=
  match attributes.get? "margin", attributes.get? "size" with
  | some value, _ => ("margin", value)
  | none, some value => ("size", value)
  | none, none => ("margin", Number.plain options.margin)

def checkRoom (tag : String) (attributes : Markup.Attributes) (options : Options) :
    Except InterpretError Options :=
  if options.margin * 2 ≥ options.page.shortest then
    let (key, value) := options.blamed attributes
    .error (.invalidAttribute tag key value (.noRoom options.margin options.page))
  else .ok options

def ofRoot (root : Markup.Element) : Except InterpretError Options × List Record :=
  let (result, records) := assignAll root.name {} root.attributes.entries
  (result.bind (checkRoom root.name root.attributes), records)

end Options

end Folio
