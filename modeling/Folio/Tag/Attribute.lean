import Folio.Document.Options
import Folio.Session.Script

/-! # Attributes

Attribute values become numbers here. A value that does not is an error that names the tag, the
attribute and the value as it was written.
-/

namespace Folio

inductive Reason where
  | notANumber
  | notPositive
  | negative
  | pageSize (why : PageSize.Unreadable)
  | orientation (found : String)
  | noRoom (margin : Float32) (page : Dimensions)
  | other (text : String)
  deriving DecidableEq

def Reason.text : Reason → String
  | notANumber => "expected a number"
  | notPositive => "must be greater than zero"
  | negative => "must not be negative"
  | pageSize why => why.message
  | orientation found => Orientation.complaint found
  | noRoom margin page =>
    "margins of " ++ Number.plain margin ++ "pt leave no room on a " ++
      Number.plain page.width ++ "x" ++ Number.plain page.height ++ "pt page"
  | other text => text

inductive InterpretError where
  | invalidAttribute (tag key value : String) (reason : Reason)
  | session (error : SessionError)
  deriving DecidableEq

def InterpretError.message : InterpretError → String
  | invalidAttribute tag key value reason =>
    "Invalid value '" ++ value ++ "' for attribute '" ++ key ++ "' on <" ++ tag ++ ">: " ++
      reason.text
  | session error => error.message

namespace Attribute

def number (value : String) : Except Reason Float32 :=
  match Number.single? (Text.trim value) with
  | some x => if x.isFinite then .ok x else .error .notANumber
  | none => .error .notANumber

def positive (value : String) : Except Reason Float32 := do
  let x ← number value
  if x > 0 then return x else throw .notPositive

def nonNegative (value : String) : Except Reason Float32 := do
  let x ← number value
  if x ≥ 0 then return x else throw .negative

def blame {α : Type} (tag key value : String) : Except Reason α → Except InterpretError α
  | .ok a => .ok a
  | .error reason => .error (.invalidAttribute tag key value reason)

end Attribute

end Folio
