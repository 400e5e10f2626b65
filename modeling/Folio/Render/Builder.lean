import Folio.Record
import Folio.Render.Error
import Folio.Tag.Handler

/-! # Builders

A renderer is put together by choices, one after the other, and checked at the end. A registry
that is handed over is complete: it takes the place of the handlers chosen before it, and handlers
chosen after it are an error.
-/

namespace Folio

structure Config where
  parse : Markup.ParseOptions := {}
  /-- How long the output may take, once it is promised. -/
  timeout : Option Number.Duration := none
  /-- How many chunks of output may wait to be taken. -/
  capacity : Nat := 8
  deriving DecidableEq

structure Renderer where
  registry : Registry := .standard
  config : Config := {}

inductive Choice where
  | registry (registry : Registry)
  | handler (name : String) (handler : Handler)
  /-- Sessions of another make. They come with the render, and a builder keeps nothing of them. -/
  | sessions
  | parse (options : Markup.ParseOptions)
  | order (order : Markup.SiblingOrder)
  | timeout (limit : Number.Duration)
  | capacity (count : Nat)
  | config (config : Config)

structure Builder where
  registry : Registry := .standard
  complete : Bool := false
  config : Config := {}
  /-- Names of handlers that came too late, in order. -/
  rejected : List String := []

namespace Builder

def choose (b : Builder) : Choice → Builder
  | .registry registry => { b with registry := registry, complete := true }
  | .handler name handler =>
    if b.complete then { b with rejected := b.rejected ++ [name] }
    else { b with registry := b.registry.insert name handler }
  | .sessions => b
  | .parse options => { b with config.parse := options }
  | .order order => { b with config.parse.order := order }
  | .timeout limit => { b with config.timeout := some limit }
  | .capacity count => { b with config.capacity := count }
  | .config config => { b with config := config }

def ofChoices (choices : List Choice) : Builder := choices.foldl choose {}

/-- The first of the things that are wrong, if any is. -/
def check (b : Builder) : Except ConfigError Unit :=
  if !b.rejected.isEmpty then .error (.rejectedHandlers b.rejected)
  else if b.config.capacity = 0 then .error .noCapacity
  else if b.config.timeout = some ⟨0⟩ then .error .noTime
  else .ok ()

def built (registry : Registry) : Record :=
  .debug ("Building renderer with handlers for " ++ Text.quotedList registry.names)

def build (b : Builder) : Except ConfigError (Renderer × List Record) :=
  (b.check).map fun _ =>
    ({ registry := b.registry, config := b.config }, [built b.registry])

end Builder

end Folio
