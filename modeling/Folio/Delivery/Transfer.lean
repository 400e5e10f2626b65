import Folio.Delivery.Producer
import Folio.Record

/-! # Transfers

A transfer is a producer and a consumer at the two ends of a channel. Either side moves by itself,
the work may be called off and the consumer may go away, in any order. A transfer in which only
the two sides move comes to rest, and where it rests does not depend on who moves first.
-/

namespace Folio.Delivery

/-- The output that somebody has promised: the work of its producer. -/
structure Production where
  chunkSize : Nat := 1
  tasks : List Task
  deriving Repr, DecidableEq

/-- The work of sending pieces as they are written: the flush that ends the writing, and the end
of the chunks, which flushes once more. -/
def Production.ofPieces (chunkSize : Nat) (pieces : List Bytes) : Production where
  chunkSize := chunkSize
  tasks := pieces.map .accept ++ [.flush, .flush, .finish]

structure Transfer where
  producer : Producer
  channel : Channel
  consumer : Completion := .start
  calledOff : Bool := false

instance : Inhabited Transfer := ⟨{ producer := default, channel := default }⟩

inductive Event where
  | produce
  | receive
  | callOff
  | hangUp
  deriving Repr, DecidableEq

namespace Transfer

def ofProduction (production : Production) (capacity : Nat) : Transfer where
  producer := ⟨.ofSize production.chunkSize, production.tasks⟩
  channel := .ofCapacity capacity

def unsent (capacity : Nat) : Transfer where
  producer := default
  channel := (Channel.ofCapacity capacity).close

/-- The producer moves. A producer that has to stop leaves the channel. -/
def produce? (t : Transfer) : Option Transfer :=
  match t.producer.step t.calledOff t.channel with
  | .moved producer channel => some { t with producer := producer, channel := channel }
  | .blocked => none
  | .halted _ writer => some { t with producer := ⟨writer, []⟩, channel := t.channel.close }
  | .idle => if t.channel.sending then some { t with channel := t.channel.close } else none

def receive? (t : Transfer) : Option Transfer :=
  (t.consumer.step? t.channel).map fun (consumer, channel) =>
    { t with consumer := consumer, channel := channel }

def next? (t : Transfer) : Event → Option Transfer
  | .produce => t.produce?
  | .receive => t.receive?
  | .callOff => some { t with calledOff := true }
  | .hangUp =>
    if t.consumer.isCollecting then
      some { t with consumer := .dropped, channel := t.channel.hangUp }
    else none

/-- One transfer becomes another by events in some order. -/
inductive Execution : Transfer → Transfer → Prop where
  | refl (t) : Execution t t
  | tail {s t u e} : Execution s t → t.next? e = some u → Execution s u

def weight (t : Transfer) : Nat :=
  2 * t.producer.weight + t.channel.queue.length + t.channel.sending.toNat +
    t.consumer.isCollecting.toNat

theorem weight_lt_of_produce {t u : Transfer} (h : t.produce? = some u) : u.weight < t.weight := by
  unfold produce? at h
  split at h
  · rename_i moved
    injection h with h
    rw [← h]
    have lt := Producer.weight_lt_of_moved moved
    obtain ⟨le, same⟩ := Producer.length_queue_of_moved moved
    simp only [weight, same]
    omega
  · cases h
  · rename_i halted
    injection h with h
    rw [← h]
    have lt := Producer.weight_lt_of_halted halted
    simp only [weight, Channel.close, Bool.toNat_false]
    omega
  · split at h
    · rename_i sending
      injection h with h
      rw [← h]
      simp only [weight, Channel.close, sending, Bool.toNat_false, Bool.toNat_true]
      omega
    · cases h

theorem weight_lt_of_receive {t u : Transfer} (h : t.receive? = some u) : u.weight < t.weight := by
  obtain ⟨producer, channel, consumer, calledOff⟩ := t
  cases consumer with
  | collecting bytes chunks =>
    simp only [receive?, Completion.step?] at h
    split at h
    · rename_i queue
      injection h with h
      rw [← h]
      simp only [weight, queue, List.length_cons, Completion.isCollecting]
      omega
    · rename_i queue
      injection h with h
      rw [← h]
      simp only [weight, Channel.hangUp, queue, List.length_cons, Completion.isCollecting,
        Bool.toNat_false, Bool.toNat_true]
      omega
    · split at h
      · cases h
      · injection h with h
        rw [← h]
        simp only [weight, Channel.hangUp, Completion.isCollecting, Bool.toNat_false,
          Bool.toNat_true]
        omega
  | complete bytes chunks => cases h
  | abandoned => cases h
  | dropped => cases h

/-- A move of one of the two sides, of the producer if it can. -/
def advance? (t : Transfer) : Option Transfer :=
  match t.produce? with
  | some u => some u
  | none => t.receive?

theorem weight_lt_of_advance {t u : Transfer} (h : t.advance? = some u) : u.weight < t.weight := by
  unfold advance? at h
  split at h
  · rename_i hp
    injection h with h
    exact h ▸ weight_lt_of_produce hp
  · exact weight_lt_of_receive h

/-- The producer works until it is done or has to wait for the consumer. -/
def pressed (t : Transfer) : Transfer :=
  match _h : t.produce? with
  | none => t
  | some u => u.pressed
  termination_by t.weight
  decreasing_by exact weight_lt_of_produce _h

def settled (t : Transfer) : Transfer :=
  match _h : t.advance? with
  | none => t
  | some u => u.settled
  termination_by t.weight
  decreasing_by exact weight_lt_of_advance _h

end Transfer

def Completion.records : Completion → List Record
  | .complete bytes chunks =>
    [.trace ("Output complete: " ++ toString bytes.length ++ " bytes in " ++ toString chunks ++
      " chunk(s)")]
  | _ => []

end Folio.Delivery
