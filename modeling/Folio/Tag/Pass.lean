import Folio.Markup.Element
import Folio.Tag.Handler

/-! # The pass

A document is interpreted in one pass: each element before its children, the children in order.
An element without a handler is a container and nothing else. The first error ends the pass.
-/

namespace Folio

structure Summary where
  dispatched : Nat := 0
  unhandled : Nat := 0
  deriving Repr, DecidableEq, Inhabited

namespace Registry

open Markup (Element Field Child isReserved)

def container (name : String) : Record :=
  .debug ("No handler for <" ++ name ++ ">, treating it as a container")

def dispatch (registry : Registry) (tag : Tag) (summary : Summary) : Handling Summary :=
  match registry.get? tag.name with
  | some handler => do
    handler tag
    return { summary with dispatched := summary.dispatched + 1 }
  | none => do
    Handling.say (container tag.name)
    return { summary with unhandled := summary.unhandled + 1 }

mutual

def visit (registry : Registry) (summary : Summary) : Element → Handling Summary
  | .mk name text attributes children => do
    let summary ← registry.dispatch ⟨name, attributes, text⟩ summary
    walk registry summary children

def walk (registry : Registry) (summary : Summary) : List Field → Handling Summary
  | [] => return summary
  | field :: rest => do
    let summary ← visitField registry summary field
    walk registry summary rest

/-- Visits what is under a name that is not reserved. -/
def visitField (registry : Registry) (summary : Summary) : Field → Handling Summary
  | .mk name value => if isReserved name then return summary else visitChild registry summary value

def visitChild (registry : Registry) (summary : Summary) : Child → Handling Summary
  | .single element => visit registry summary element
  | .repeated elements => visitAll registry summary elements

def visitAll (registry : Registry) (summary : Summary) : List Element → Handling Summary
  | [] => return summary
  | element :: rest => do
    let summary ← visit registry summary element
    visitAll registry summary rest

end

def pass (registry : Registry) (children : Markup.Children) :
    Script (Except InterpretError Summary) :=
  (registry.walk {} children).run

end Registry

end Folio
