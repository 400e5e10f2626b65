import Folio.Session.Script
import Folio.Table
import Folio.Tag.Attribute
import Folio.Text.Quoted

/-! # Handlers

A handler says what a tag does to a session. It sees the tag without its children, which are
visited after it whatever it does. Two tags have a meaning from the start: `page` begins a page
and `text` draws its text.
-/

namespace Folio

structure Tag where
  name : String
  attributes : Table String := .empty
  text : String := ""

abbrev Handling := ExceptT InterpretError Script

abbrev Handler := Tag → Handling Unit

namespace Handling

def draw (what : Drawing) : Handling Unit :=
  ExceptT.mk (.draw what fun
    | .ok () => .done (.ok ())
    | .error e => .done (.error (.session e)))

def say (record : Record) : Handling Unit := ExceptT.mk (.say record (.done (.ok ())))

def finalize (runtime : Bool) : Handling Unit :=
  ExceptT.mk (.finalize runtime fun
    | .ok () => .done (.ok ())
    | .error e => .done (.error (.session e)))

def abandon : Handling Unit := ExceptT.mk (.abandon (.done (.ok ())))

end Handling

namespace Tag

def attribute? (tag : Tag) (name : String) : Option String := tag.attributes.get? name

def positive? (tag : Tag) (name : String) : Except InterpretError (Option Float32) :=
  match tag.attribute? name with
  | none => .ok none
  | some value => (Attribute.blame tag.name name value (Attribute.positive value)).map some

/-- What a text tag asks of its own draw: all of it is read before anything is drawn. -/
def textOptions (tag : Tag) : Except InterpretError (Option Float32 × TextOptions) := do
  let size ← tag.positive? "fontSize"
  let width ← tag.positive? "width"
  return (size, { width := width, align := (tag.attribute? "align").map Align.parse })

end Tag

namespace Handler

def page : Handler := fun _ => Handling.draw .addPage

/-- Sets what the tag sets, font first, and draws its text. What is set stays set for the texts
that follow. -/
def text : Handler := fun tag => do
  let (size, options) ← liftM tag.textOptions
  if let some font := tag.attribute? "font" then Handling.draw (.setFont font)
  if let some size := size then Handling.draw (.setFontSize size)
  if let some color := tag.attribute? "color" then Handling.draw (.setFillColor color)
  Handling.draw (.drawText tag.text options)

end Handler

abbrev Registry := Table Handler

namespace Registry

/-- A registry with the two tags that have a meaning from the start, in place of any handlers of
those names. -/
def withStandard (registry : Registry) : Registry :=
  (registry.insert "page" Handler.page).insert "text" Handler.text

def standard : Registry := withStandard .empty

def text (registry : Registry) : String :=
  "HandlerRegistry \x7b tags: " ++ Text.quotedList registry.names ++ " \x7d"

end Registry

end Folio
