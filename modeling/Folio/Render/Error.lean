import Folio.Delivery.Channel
import Folio.Markup.Document
import Folio.Number.Duration
import Folio.Tag.Attribute
import Folio.Text.Quoted

/-! # Render errors

Everything that can keep a document from being rendered.
-/

namespace Folio

inductive ConfigError where
  /-- Handlers came after a registry that is complete. -/
  | rejectedHandlers (names : List String)
  | noCapacity
  | noTime
  | insideRuntime
  | timeout (seconds : Float) (why : Number.Duration.Rejection)

def ConfigError.message : ConfigError → String
  | rejectedHandlers names =>
    "Handlers " ++ Text.quotedList names ++
      " cannot be added to a prebuilt registry; register them before building it"
  | noCapacity => "Channel capacity must be at least 1"
  | noTime => "Completion timeout must be greater than zero"
  | insideRuntime =>
    "render_blocking called from within an async runtime; await render instead"
  | timeout seconds why =>
    "Invalid timeout '" ++ Number.Form.plain.text (Number.ofDouble seconds) ++ "': " ++
      why.message

inductive RenderError where
  | markup (error : Markup.MarkupError)
  | interpret (error : InterpretError)
  | session (error : SessionError)
  | completion (error : Delivery.DeliveryError)
  | timeout (limit : Number.Duration)
  | file (complaint : String)
  | config (error : ConfigError)

namespace RenderError

def message : RenderError → String
  | markup error => "Malformed markup: " ++ error.message
  | interpret error => error.message
  | session error => error.message
  | completion error => "Output was not completed: " ++ error.message
  | timeout limit => "Output did not complete within " ++ limit.text
  | file complaint => "I/O error: " ++ complaint
  | config error => "Configuration error: " ++ error.message

/-- The error of a render whose interpretation failed. What the session refuses is an error of the
session, whoever asked. -/
def ofInterpret : InterpretError → RenderError
  | .session error => session error
  | error => interpret error

end RenderError

end Folio
