import Folio.Delivery.Transfer
import Folio.Document.Options
import Folio.Session.Script

/-! # Sessions

A session is whatever answers drawings, promises its output once, and can be told to give up. Any
type of states with these operations will do, and the operations may answer as they like.
-/

namespace Folio

/-- What comes of a request: the result, the session afterwards, and what was reported. -/
structure Reply (σ : Type) (α : Type) where
  result : α
  session : σ
  records : List Record := []

namespace Reply

variable {σ α : Type}

def after (reply : Reply σ α) (records : List Record) : Reply σ α :=
  { reply with records := records ++ reply.records }

@[simp] theorem result_after (r : Reply σ α) (l : List Record) :
    (r.after l).result = r.result := rfl
@[simp] theorem session_after (r : Reply σ α) (l : List Record) :
    (r.after l).session = r.session := rfl

theorem after_after (r : Reply σ α) (front behind : List Record) :
    (r.after behind).after front = r.after (front ++ behind) := by
  simp [after]

end Reply

structure Backend (σ : Type) where
  create : Options → Except SessionError σ
  draw : Drawing → σ → Reply σ Answer
  /-- Promises the output. `runtime` says whether there is something that can carry it. -/
  finalize : (runtime : Bool) → σ → Reply σ (Except SessionError Delivery.Production)
  abandon : σ → Reply σ Unit

def Script.run {σ α : Type} (backend : Backend σ) : Script α → σ → Reply σ α
  | done a, s => { result := a, session := s }
  | say record next, s => (next.run backend s).after [record]
  | draw what next, s =>
    let reply := backend.draw what s
    ((next reply.result).run backend reply.session).after reply.records
  | finalize runtime next, s =>
    let reply := backend.finalize runtime s
    ((next (reply.result.map fun _ => ())).run backend reply.session).after reply.records
  | abandon next, s =>
    let reply := backend.abandon s
    (next.run backend reply.session).after reply.records

inductive Call where
  | draw (what : Drawing)
  | finalize
  | abandon
  deriving DecidableEq

/-- The same kind of session, whose states remember what was asked, the oldest first. -/
def Backend.traced {σ : Type} (backend : Backend σ) : Backend (σ × List Call) where
  create options := (backend.create options).map (·, [])
  draw what := fun (s, calls) =>
    let reply := backend.draw what s
    { result := reply.result, session := (reply.session, calls ++ [.draw what]),
      records := reply.records }
  finalize runtime := fun (s, calls) =>
    let reply := backend.finalize runtime s
    { result := reply.result, session := (reply.session, calls ++ [.finalize]),
      records := reply.records }
  abandon := fun (s, calls) =>
    let reply := backend.abandon s
    { result := reply.result, session := (reply.session, calls ++ [.abandon]),
      records := reply.records }

end Folio
