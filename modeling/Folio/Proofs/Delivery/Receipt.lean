import Folio.Proofs.Delivery.Streaming

/-! # Receipt

The parcels that a consumer takes on its way. What it has gathered is the data in them, and it
counts as complete only when the end marker was the last of them.
-/

namespace Folio.Delivery.Transfer

def taken? (t : Transfer) : Event → Option Parcel
  | .receive => if t.consumer.isCollecting then t.channel.queue.head? else none
  | .produce | .callOff | .hangUp => none

/-- One transfer becomes another, and the consumer takes these parcels meanwhile. -/
inductive Receives : Transfer → List Parcel → Transfer → Prop where
  | refl (t) : Receives t [] t
  | tail {s t u e parcels} : Receives s parcels t → t.next? e = some u →
      Receives s (parcels ++ (t.taken? e).toList) u

theorem receives_of_execution {s t : Transfer} (run : Execution s t) :
    ∃ parcels, Receives s parcels t := by
  induction run with
  | refl => exact ⟨[], .refl _⟩
  | tail _ event ih =>
    obtain ⟨parcels, received⟩ := ih
    exact ⟨_, .tail received event⟩

structure Gathered (t : Transfer) (parcels : List Parcel) : Prop where
  collecting : ∀ bytes chunks, t.consumer = .collecting bytes chunks →
    ∃ taken : List Bytes, parcels = taken.map .data ∧ bytes = taken.flatten
  complete : ∀ bytes chunks, t.consumer = .complete bytes chunks →
    ∃ taken : List Bytes, parcels = taken.map .data ++ [.finished] ∧ bytes = taken.flatten

variable {t u : Transfer} {parcels : List Parcel}

theorem consumer_of_produce (h : t.produce? = some u) : u.consumer = t.consumer := by
  unfold produce? at h
  split at h
  · cases h
    rfl
  · cases h
  · cases h
    rfl
  · split at h
    · cases h
      rfl
    · cases h

theorem Gathered.of_consumer (hs : Gathered t parcels) (same : u.consumer = t.consumer) :
    Gathered u parcels := by
  constructor
  · rw [same]
    exact hs.collecting
  · rw [same]
    exact hs.complete

theorem Gathered.receive (hs : Gathered t parcels) (h : t.receive? = some u) :
    Gathered u (parcels ++ (t.taken? .receive).toList) := by
  obtain ⟨bytes, chunks, consumer, met⟩ := receive_cases h
  obtain ⟨taken, rfl, rfl⟩ := hs.collecting bytes chunks consumer
  have head : t.taken? .receive = t.channel.queue.head? := by
    rw [taken?, consumer]
    rfl
  rw [head]
  rcases met with ⟨chunk, rest, queue, rfl⟩ | ⟨rest, queue, rfl⟩ | ⟨queue, closed, rfl⟩
  · rw [queue]
    constructor
    · rintro _ _ ⟨⟩
      exact ⟨taken ++ [chunk], by simp, by simp⟩
    · intro _ _ complete
      cases complete
  · rw [queue]
    constructor
    · intro _ _ collecting
      cases collecting
    · rintro _ _ ⟨⟩
      exact ⟨taken, rfl, rfl⟩
  · constructor
    · intro _ _ collecting
      cases collecting
    · intro _ _ complete
      cases complete

theorem Gathered.next {e : Event} (hs : Gathered t parcels) (h : t.next? e = some u) :
    Gathered u (parcels ++ (t.taken? e).toList) := by
  cases e with
  | produce =>
    rw [taken?, Option.toList_none, List.append_nil]
    exact hs.of_consumer (consumer_of_produce h)
  | receive => exact hs.receive h
  | callOff =>
    cases h
    rw [taken?, Option.toList_none, List.append_nil]
    exact hs.of_consumer rfl
  | hangUp =>
    simp only [next?] at h
    split at h
    · cases h
      constructor
      · intro _ _ collecting
        cases collecting
      · intro _ _ complete
        cases complete
    · cases h

theorem gathered_of_receives {production : Production} {capacity : Nat}
    (received : Receives (.ofProduction production capacity) parcels t) : Gathered t parcels := by
  generalize start : ofProduction production capacity = s at received
  induction received with
  | refl =>
    subst start
    constructor
    · rintro _ _ ⟨⟩
      exact ⟨[], rfl, rfl⟩
    · intro _ _ complete
      cases complete
  | tail _ event ih => exact ih.next event

theorem receives_complete {production : Production} {capacity : Nat} {bytes : Bytes}
    {chunks : Nat} (run : Execution (.ofProduction production capacity) t)
    (complete : t.consumer = .complete bytes chunks) :
    ∃ taken : List Bytes,
      Receives (.ofProduction production capacity) (taken.map .data ++ [.finished]) t ∧
        bytes = taken.flatten := by
  obtain ⟨parcels, received⟩ := receives_of_execution run
  obtain ⟨taken, rfl, joined⟩ := (gathered_of_receives received).complete bytes chunks complete
  exact ⟨taken, received, joined⟩

end Folio.Delivery.Transfer
