/-! # Log records

Work that is worth reporting is returned as records beside the result, in the order in which it
happened, so that a run and its log are one value.
-/

namespace Folio

inductive Level where
  | warn
  | info
  | debug
  | trace
  deriving Repr, DecidableEq

/-- Who made a record: the library, or a tag handler supplied by its user. -/
inductive Origin where
  | library
  | handler
  deriving Repr, DecidableEq

structure Record where
  level : Level
  text : String
  origin : Origin := .library
  deriving Repr, DecidableEq

namespace Record

def warn (text : String) : Record := { level := .warn, text := text }
def info (text : String) : Record := { level := .info, text := text }
def debug (text : String) : Record := { level := .debug, text := text }
def trace (text : String) : Record := { level := .trace, text := text }

def note (text : String) : Record := { level := .info, text := text, origin := .handler }

end Record

end Folio
