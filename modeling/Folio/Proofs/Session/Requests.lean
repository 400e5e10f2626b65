import Folio.Session.Backend
import Mathlib.Control.Monad.Basic

/-! # Requests

What is asked of a session, one request after the other, and where it has got to by then.
-/

namespace Folio

inductive Request where
  | draw (what : Drawing)
  /-- `runtime` says whether there is something that can carry the output. -/
  | finalize (runtime : Bool)
  | abandon
  deriving DecidableEq

namespace Backend

variable {σ : Type} (backend : Backend σ)

def answer (s : σ) : Request → Answer × σ
  | .draw what => ((backend.draw what s).result, (backend.draw what s).session)
  | .finalize runtime =>
    ((backend.finalize runtime s).result.map fun _ => (), (backend.finalize runtime s).session)
  | .abandon => (.ok (), (backend.abandon s).session)

def after (s : σ) (requests : List Request) : σ :=
  requests.foldl (fun s request => (backend.answer s request).2) s

theorem after_append (s : σ) (front behind : List Request) :
    backend.after s (front ++ behind) = backend.after (backend.after s front) behind :=
  List.foldl_append

/-- What comes of requests that are made one after the other, each as the session stands by then. -/
def collected {α : Type} (what : σ → Request → List α) (s : σ) : List Request → List α
  | [] => []
  | request :: rest =>
    what s request ++ collected what (backend.answer s request).2 rest

theorem collected_append {α : Type} (what : σ → Request → List α) (s : σ)
    (front behind : List Request) :
    backend.collected what s (front ++ behind) =
      backend.collected what s front ++ backend.collected what (backend.after s front) behind := by
  induction front generalizing s with
  | nil => rfl
  | cons request rest ih =>
    rw [List.cons_append, collected, collected, ih, List.append_assoc]
    rfl

theorem collected_map {α β : Type} (f : α → β) (what : σ → Request → List α) (s : σ)
    (requests : List Request) :
    backend.collected (fun s request => (what s request).map f) s requests =
      (backend.collected what s requests).map f := by
  induction requests generalizing s with
  | nil => rfl
  | cons request rest ih => rw [collected, collected, ih, List.map_append]

def promised (s : σ) : Request → List Delivery.Production
  | .finalize runtime => (backend.finalize runtime s).result.toOption.toList
  | .draw _ | .abandon => []

def promises (s : σ) (requests : List Request) : List Delivery.Production :=
  backend.collected backend.promised s requests

theorem promises_cons (s : σ) (request : Request) (rest : List Request) :
    backend.promises s (request :: rest) =
      backend.promised s request ++ backend.promises (backend.answer s request).2 rest := rfl

theorem promises_append (s : σ) (front behind : List Request) :
    backend.promises s (front ++ behind) =
      backend.promises s front ++ backend.promises (backend.after s front) behind :=
  backend.collected_append backend.promised s front behind

end Backend

end Folio
