import Folio.Render.Builder
import Folio.Session.Backend
import Folio.Tag.Pass
import Folio.Tag.Root

/-! # Rendering

A render reads the markup, interprets it on a new session, lets the session promise its output and
waits for it. Output counts only when its end was seen. A session that was made and does not
deliver is told to give up, once, and nothing is asked of it afterwards.
-/

namespace Folio

/-- There is no result when the output never ends and nothing limits the wait, and no session when
none was made. -/
abbrev Report (σ : Type) := Reply (Option σ) (Option (Except RenderError Bytes))

def Report.failed {σ : Type} (error : RenderError) (records : List Record := []) : Report σ :=
  { result := some (.error error), session := none, records := records }

namespace Renderer

variable {σ : Type}

def building : Record := .debug "Render phase: Building"

def finalizing (s : Summary) : Record :=
  .debug ("Render phase: Finalizing (" ++ toString s.dispatched ++ " element(s) handled, " ++
    toString s.unhandled ++ " without a handler)")

def complete (bytes : Bytes) : Record :=
  .debug ("Render phase: Complete (" ++ toString bytes.length ++ " bytes)")

def late (limit : Number.Duration) : Record :=
  .warn ("Output did not complete within " ++ limit.text ++ "; abandoning the session")

def giveUp (backend : Backend σ) (error : RenderError) (s : σ) : Report σ :=
  let reply := backend.abandon s
  { result := some (.error error), session := some reply.session, records := reply.records }

/-- What comes of the output, seen from the side that waits for it. -/
def await (r : Renderer) (backend : Backend σ) (outcome : Delivery.Completion) (s : σ) : Report σ :=
  match outcome with
  | .complete bytes _ =>
    { result := some (.ok bytes), session := some s,
      records := outcome.records ++ [complete bytes] }
  | .abandoned => giveUp backend (.completion .abandoned) s
  | .collecting .. | .dropped =>
    match r.config.timeout with
    | some limit => (giveUp backend (.timeout limit) s).after [late limit]
    | none => { result := none, session := some s }

def finish (r : Renderer) (backend : Backend σ) (deliver : Delivery.Transfer → Delivery.Transfer)
    (s : σ) : Report σ :=
  let reply := backend.finalize true s
  match reply.result with
  | .error e => (giveUp backend (.session e) reply.session).after reply.records
  | .ok production =>
    let transfer := deliver (.ofProduction production r.config.capacity)
    (r.await backend transfer.consumer reply.session).after reply.records

def interpret (r : Renderer) (backend : Backend σ)
    (deliver : Delivery.Transfer → Delivery.Transfer) (root : Markup.Element) (s : σ) : Report σ :=
  let reply := (r.registry.pass root.children).run backend s
  match reply.result with
  | .error e =>
    (giveUp backend (.ofInterpret e) reply.session).after (building :: reply.records)
  | .ok summary =>
    (r.finish backend deliver reply.session).after
      (building :: reply.records ++ [finalizing summary])

/-- Renders a tree. `deliver` says how far a transfer gets while it is waited for; by itself, a
transfer goes on until neither side can move. -/
def renderElement (r : Renderer) (backend : Backend σ) (root : Markup.Element)
    (deliver : Delivery.Transfer → Delivery.Transfer := Delivery.Transfer.settled) : Report σ :=
  let (options, records) := Options.ofRoot root
  match options with
  | .error e => .failed (.ofInterpret e) records
  | .ok options =>
    match backend.create options with
    | .error e => .failed (.session e) records
    | .ok s => (r.interpret backend deliver root s).after records

def parse (r : Renderer) (markup : String)
    (reader : Markup.NodeReader := Markup.Node.ofString) :
    Except RenderError (Markup.Element × List Record) :=
  (Markup.parse r.config.parse markup reader).mapError .markup

def render (r : Renderer) (backend : Backend σ) (markup : String)
    (deliver : Delivery.Transfer → Delivery.Transfer := Delivery.Transfer.settled)
    (reader : Markup.NodeReader := Markup.Node.ofString) : Report σ :=
  match r.parse markup reader with
  | .error e => .failed e
  | .ok (root, records) => (r.renderElement backend root deliver).after records

/-- Renders markup for a caller who does nothing else meanwhile, so the caller must not be
something that the render waits for. -/
def renderBlocking (r : Renderer) (backend : Backend σ) (insideRuntime : Bool) (markup : String) :
    Report σ :=
  if insideRuntime then .failed (.config .insideRuntime) else r.render backend markup

end Renderer

end Folio
