import Folio.Number.Form
import Folio.Record
import Folio.Style.Align

/-! # Scripts

A script is a course of action towards a session that is not fixed yet: it asks for drawings one
after the other, and each answer decides how it goes on. Which session answers, and how, is left
open until the script is run. A session may refuse a drawing, and something may go wrong when its
document is turned into bytes; both are errors of the session.
-/

namespace Folio

inductive Quantity where
  | fontSize
  | margin
  | textWidth
  deriving Repr, DecidableEq

def Quantity.text : Quantity → String
  | fontSize => "font size"
  | margin => "margin"
  | textWidth => "text width"

inductive SessionError where
  | fontNotFound (name : String)
  | unsupportedColor (value : String) (complaint : String)
  | unsupportedAlignment (raw : String)
  | invalidValue (what : Quantity) (value : Float32)
  | noActivePage
  | finalized
  | alreadyFinalized
  | noRuntime
  | output (text : String)
  | pdf (text : String)
  deriving DecidableEq

def SessionError.message : SessionError → String
  | fontNotFound name => "Font '" ++ name ++ "' is not available"
  | unsupportedColor value complaint => "Unsupported color '" ++ value ++ "': " ++ complaint
  | unsupportedAlignment raw => "Unsupported text alignment '" ++ raw ++ "'"
  | invalidValue what value => "Invalid " ++ what.text ++ ": " ++ Number.plain value
  | noActivePage => "Cannot draw before a page has been added"
  | finalized => "Session has been finalized and accepts no more content"
  | alreadyFinalized => "Session was already finalized"
  | noRuntime => "Finalizing requires a running tokio runtime"
  | output text => "Output sink error: " ++ text
  | pdf text => "PDF generation error: " ++ text

inductive Drawing where
  | addPage
  | setFont (name : String)
  | setFontSize (size : Float32)
  | setFillColor (value : String)
  | drawText (text : String) (options : TextOptions)
  deriving DecidableEq

abbrev Answer := Except SessionError Unit

inductive Script (α : Type) where
  | done (result : α)
  | say (record : Record) (next : Script α)
  | draw (what : Drawing) (next : Answer → Script α)
  /-- Has the output promised, though nobody waits for it. `runtime` says whether there is something
  that can carry it. -/
  | finalize (runtime : Bool) (next : Answer → Script α)
  | abandon (next : Script α)

namespace Script

variable {α β : Type}

def bind : Script α → (α → Script β) → Script β
  | done a, f => f a
  | say record next, f => say record (next.bind f)
  | draw what next, f => draw what fun answer => (next answer).bind f
  | finalize runtime next, f => finalize runtime fun answer => (next answer).bind f
  | abandon next, f => abandon (next.bind f)

instance : Monad Script where
  pure := done
  bind := bind

@[simp] theorem pure_eq (a : α) : (pure a : Script α) = done a := rfl
@[simp] theorem done_bind (a : α) (f : α → Script β) : (done a >>= f) = f a := rfl
@[simp] theorem say_bind (r : Record) (next : Script α) (f : α → Script β) :
    (say r next >>= f) = say r (next >>= f) := rfl
@[simp] theorem draw_bind (d : Drawing) (next : Answer → Script α) (f : α → Script β) :
    (draw d next >>= f) = draw d fun answer => next answer >>= f := rfl
@[simp] theorem finalize_bind (runtime : Bool) (next : Answer → Script α) (f : α → Script β) :
    (finalize runtime next >>= f) = finalize runtime fun answer => next answer >>= f := rfl
@[simp] theorem abandon_bind (next : Script α) (f : α → Script β) :
    (abandon next >>= f) = abandon (next >>= f) := rfl

theorem bind_done (s : Script α) : (s >>= done) = s := by
  induction s with
  | done a => rfl
  | say r next ih => simp [ih]
  | draw d next ih => simp [ih]
  | finalize runtime next ih => simp [ih]
  | abandon next ih => simp [ih]

theorem bind_assoc {γ : Type} (s : Script α) (f : α → Script β) (g : β → Script γ) :
    (s >>= f >>= g) = (s >>= fun a => f a >>= g) := by
  induction s with
  | done a => rfl
  | say r next ih => simp [ih]
  | draw d next ih => simp [ih]
  | finalize runtime next ih => simp [ih]
  | abandon next ih => simp [ih]

end Script

end Folio
