import Folio.Bytes

/-! # Channels

A channel carries chunks of output from one producer to one consumer, first in, first out, and
holds a bounded number of them. The consumer gathers the chunks. It is done when the end marker
arrives, and it gives up what it has when the producer goes away without one.
-/

namespace Folio.Delivery

/-- What is carried: a chunk of output, or the marker that nothing follows. -/
inductive Parcel where
  | data (chunk : Bytes)
  | finished
  deriving Repr, DecidableEq

structure Channel where
  capacity : Nat
  queue : List Parcel := []
  sending : Bool := true
  receiving : Bool := true
  capacity_pos : 0 < capacity

inductive Refusal where
  | full
  | closed
  deriving Repr, DecidableEq

inductive DeliveryError where
  | abandoned
  | receiverClosed
  deriving Repr, DecidableEq

def DeliveryError.message : DeliveryError → String
  | .abandoned => "Output producer stopped before signalling the end of output"
  | .receiverClosed => "Output receiver is gone; the render was cancelled"

namespace Channel

theorem max_one_pos (n : Nat) : 0 < max n 1 := Nat.le_max_right n 1

/-- An empty channel. There is room for one parcel even when none is asked for. -/
def ofCapacity (capacity : Nat) : Channel where
  capacity := max capacity 1
  capacity_pos := max_one_pos capacity

instance : Inhabited Channel := ⟨ofCapacity 1⟩

/-- Puts a parcel behind the others. That the consumer is gone is noticed before a lack of
room. -/
def offer (c : Channel) (parcel : Parcel) : Except Refusal Channel :=
  if !c.receiving then .error .closed
  else if c.queue.length < c.capacity then .ok { c with queue := c.queue ++ [parcel] }
  else .error .full

/-- Sends a chunk. An empty chunk needs no parcel, so it can always be sent. -/
def send (c : Channel) (chunk : Bytes) : Except Refusal Channel :=
  if chunk.isEmpty then .ok c else c.offer (.data chunk)

/-- The producer goes away. What is queued stays. -/
def close (c : Channel) : Channel := { c with sending := false }

def hangUp (c : Channel) : Channel := { c with receiving := false }

end Channel

inductive Completion where
  /-- It waits for more, with the chunks so far joined. -/
  | collecting (bytes : Bytes) (chunks : Nat)
  | complete (bytes : Bytes) (chunks : Nat)
  | abandoned
  | dropped
  deriving Repr, DecidableEq

namespace Completion

def start : Completion := .collecting [] 0

instance : Inhabited Completion := ⟨start⟩

def isCollecting : Completion → Bool
  | collecting .. => true
  | _ => false

/-- Takes the next parcel, or learns that there will be none. Nothing happens when the queue is
empty and the producer is there, or when the consumer is through. A consumer that is through
leaves the channel. -/
def step? : Completion → Channel → Option (Completion × Channel)
  | collecting bytes chunks, c =>
    match c.queue with
    | .data chunk :: rest =>
      some (collecting (bytes ++ chunk) (chunks + 1), { c with queue := rest })
    | .finished :: rest => some (complete bytes chunks, { c with queue := rest }.hangUp)
    | [] => if c.sending then none else some (abandoned, c.hangUp)
  | _, _ => none

def steps : Nat → Completion → Channel → Completion × Channel
  | 0, k, c => (k, c)
  | n + 1, k, c =>
    match step? k c with
    | none => (k, c)
    | some (k, c) => steps n k c

/-- Takes everything that is there: each parcel of the queue, and the news of its end. -/
def poll (k : Completion) (c : Channel) : Completion × Channel := steps (c.queue.length + 1) k c

end Completion

end Folio.Delivery
