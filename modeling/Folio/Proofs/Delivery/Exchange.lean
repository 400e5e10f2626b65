import Folio.Proofs.Delivery.Receipt

/-! # Exchanges

An exchange is a transfer whose producer serves calls, one after the other. A call that cannot be
carried out is answered with the reason, and the caller may still make the next one. When there are
no more calls, the producer goes away.
-/

namespace Folio.Delivery

theorem Producer.channel_of_moved {p next : Producer} {calledOff : Bool} {c channel : Channel}
    (h : p.step calledOff c = .moved next channel) :
    channel.capacity = c.capacity ∧ channel.sending = c.sending ∧
      channel.receiving = c.receiving ∧
        (c.queue.length ≤ c.capacity → channel.queue.length ≤ c.capacity) := by
  have course := p.course calledOff c
  rw [h] at course
  cases course with
  | put puts opened room =>
    refine ⟨rfl, rfl, rfl, fun _ => ?_⟩
    rw [List.length_append]
    exact room
  | accepted | filled | cut | flushed | emptied | nothing => exact ⟨rfl, rfl, rfl, id⟩

theorem Producer.busy_of_moved {p next : Producer} {calledOff : Bool} {c channel : Channel}
    (h : p.step calledOff c = .moved next channel) : p.tasks ≠ [] := by
  intro idle
  rw [step_eq_idle_iff.2 idle] at h
  cases h

theorem Transfer.eq_of_hangUp {t u : Transfer} (h : t.next? .hangUp = some u) :
    t.consumer.isCollecting = true ∧
      u = { t with consumer := .dropped, channel := t.channel.hangUp } := by
  simp only [next?] at h
  split at h
  · cases h
    exact ⟨‹_›, rfl⟩
  · cases h

theorem earlier_or_latest {α : Type} {earlier : List α} {latest entry : α} {i : Nat}
    (at_i : (earlier ++ [latest])[i]? = some entry) :
    earlier[i]? = some entry ∨ i = earlier.length ∧ latest = entry := by
  by_cases old : i < earlier.length
  · rw [List.getElem?_append_left old] at at_i
    exact .inl at_i
  · have bound := (List.getElem?_eq_some_iff.1 at_i).1
    rw [List.length_append, List.length_singleton] at bound
    obtain rfl : i = earlier.length := by omega
    rw [List.getElem?_concat_length] at at_i
    exact .inr ⟨rfl, Option.some.inj at_i⟩

structure Exchange where
  /-- The tasks of its producer are what is left of the call under way. -/
  transfer : Transfer
  calls : List (List Task)
  /-- The answers to the calls that are over. -/
  outcomes : List (Except Halt Unit) := []
  /-- The parcels that the consumer has taken. -/
  received : List Parcel := []

namespace Exchange

def ofCalls (chunkSize : Nat) (calls : List (List Task)) (capacity : Nat) : Exchange where
  transfer := .ofProduction { chunkSize := chunkSize, tasks := [] } capacity
  calls := calls

/-- The parcels that were put into the channel: those that were taken out of it, and those that are
still in it. -/
def parcels (x : Exchange) : List Parcel := x.received ++ x.transfer.channel.queue

def begun (x : Exchange) (call : List Task) (rest : List (List Task)) : Exchange :=
  { x with
    transfer := { x.transfer with producer := ⟨x.transfer.producer.writer, call⟩ }
    calls := rest }

def left (x : Exchange) : Exchange :=
  { x with transfer := { x.transfer with channel := x.transfer.channel.close } }

def worked (x : Exchange) (producer : Producer) (channel : Channel) : Exchange :=
  { x with
    transfer := { x.transfer with producer := producer, channel := channel }
    outcomes := x.outcomes ++ if producer.tasks.isEmpty then [.ok ()] else [] }

def stopped (x : Exchange) (why : Halt) (writer : ChunkWriter) : Exchange :=
  { x with
    transfer := { x.transfer with producer := ⟨writer, []⟩ }
    outcomes := x.outcomes ++ [.error why] }

def produce? (x : Exchange) : Option Exchange :=
  match x.transfer.producer.step x.transfer.calledOff x.transfer.channel with
  | .moved producer channel => some (x.worked producer channel)
  | .blocked => none
  | .halted why writer => some (x.stopped why writer)
  | .idle =>
    match x.calls with
    | call :: rest => some (x.begun call rest)
    | [] => if x.transfer.channel.sending then some x.left else none

def follow (x : Exchange) (e : Event) (t : Transfer) : Exchange :=
  { x with transfer := t, received := x.received ++ (x.transfer.taken? e).toList }

def next? (x : Exchange) : Event → Option Exchange
  | .produce => x.produce?
  | e => (x.transfer.next? e).map (x.follow e)

inductive Execution : Exchange → Exchange → Prop where
  | refl (x) : Execution x x
  | tail {x y z e} : Execution x y → y.next? e = some z → Execution x z

def after? (x : Exchange) : List Event → Option Exchange
  | [] => some x
  | e :: rest => (x.next? e).bind fun y => y.after? rest

inductive Turn (x : Exchange) : Exchange → Prop
  | begun {call : List Task} {rest : List (List Task)} (idle : x.transfer.producer.tasks = [])
      (calls : x.calls = call :: rest) : Turn x (x.begun call rest)
  | left (idle : x.transfer.producer.tasks = []) (none : x.calls = [])
      (sending : x.transfer.channel.sending = true) : Turn x x.left
  | worked {producer : Producer} {channel : Channel}
      (moved : x.transfer.producer.step x.transfer.calledOff x.transfer.channel =
        .moved producer channel) : Turn x (x.worked producer channel)
  | stopped {why : Halt} {writer : ChunkWriter}
      (halted : x.transfer.producer.step x.transfer.calledOff x.transfer.channel =
        .halted why writer) : Turn x (x.stopped why writer)

variable {x y : Exchange}

theorem Execution.trans {z : Exchange} (one : Execution x y) (two : Execution y z) :
    Execution x z := by
  induction two with
  | refl => exact one
  | tail _ event ih => exact .tail ih event

theorem Execution.preserves {P : Exchange → Prop} (run : Execution x y)
    (event : ∀ y z e, y.next? e = some z → P y → P z) (start : P x) : P y := by
  induction run with
  | refl => exact start
  | tail _ h ih => exact event _ _ _ h ih

theorem execution_of_after? {events : List Event} (reached : x.after? events = some y) :
    Execution x y := by
  induction events generalizing x with
  | nil =>
    obtain rfl := Option.some.inj reached
    exact .refl x
  | cons e rest ih =>
    obtain ⟨z, event, later⟩ := Option.bind_eq_some_iff.1 reached
    exact (Execution.tail (.refl x) event).trans (ih later)

theorem follow_of_ne {e : Event} (other : e ≠ .receive) (t : Transfer) :
    x.follow e t = { x with transfer := t } := by
  cases e with
  | receive => exact absurd rfl other
  | produce | callOff | hangUp =>
    rw [follow, Transfer.taken?, Option.toList_none, List.append_nil]

theorem kept_of_ne {e : Event} (other : e ≠ .produce) (h : x.next? e = some y) :
    y.parcels = x.parcels ∧ y.outcomes = x.outcomes ∧ y.calls = x.calls ∧
      y.transfer.producer = x.transfer.producer := by
  cases e with
  | produce => exact absurd rfl other
  | receive =>
    obtain ⟨t, event, rfl⟩ := Option.map_eq_some_iff.1 h
    obtain ⟨bytes, chunks, consumer, met⟩ := Transfer.receive_cases event
    have collects : x.transfer.consumer.isCollecting = true := by rw [consumer]; rfl
    rcases met with ⟨chunk, rest, queue, rfl⟩ | ⟨rest, queue, rfl⟩ | ⟨queue, closed, rfl⟩
    · exact ⟨by simp [parcels, follow, Transfer.taken?, collects, queue], rfl, rfl, rfl⟩
    · exact ⟨by simp [parcels, follow, Transfer.taken?, collects, queue, Channel.hangUp], rfl, rfl,
        rfl⟩
    · exact ⟨by simp [parcels, follow, Transfer.taken?, queue, Channel.hangUp], rfl, rfl, rfl⟩
  | callOff =>
    cases h
    rw [follow_of_ne Event.noConfusion]
    exact ⟨rfl, rfl, rfl, rfl⟩
  | hangUp =>
    obtain ⟨t, event, rfl⟩ := Option.map_eq_some_iff.1 h
    obtain ⟨_, rfl⟩ := Transfer.eq_of_hangUp event
    rw [follow_of_ne Event.noConfusion]
    exact ⟨rfl, rfl, rfl, rfl⟩

theorem turn_of_produce (h : x.produce? = some y) : x.Turn y := by
  unfold produce? at h
  split at h
  · cases h
    exact .worked ‹_›
  · cases h
  · cases h
    exact .stopped ‹_›
  · have idle := Producer.step_eq_idle_iff.1 ‹_›
    split at h
    · cases h
      exact .begun idle ‹_›
    · split at h
      · cases h
        exact .left idle ‹_› ‹_›
      · cases h

theorem consumer_of_produce (h : x.produce? = some y) :
    y.transfer.consumer = x.transfer.consumer := by
  cases turn_of_produce h with
  | begun | left | worked | stopped => rfl

theorem dropped_of_next {e : Event} (h : x.next? e = some y)
    (gone : x.transfer.consumer = .dropped) : y.transfer.consumer = .dropped := by
  cases e with
  | produce => exact (consumer_of_produce h).trans gone
  | receive =>
    obtain ⟨t, event, rfl⟩ := Option.map_eq_some_iff.1 h
    obtain ⟨bytes, chunks, consumer, _⟩ := Transfer.receive_cases event
    cases gone.symm.trans consumer
  | callOff =>
    cases h
    exact gone
  | hangUp =>
    obtain ⟨t, event, rfl⟩ := Option.map_eq_some_iff.1 h
    obtain ⟨_, rfl⟩ := Transfer.eq_of_hangUp event
    rfl

/-- What holds of every exchange that began without parcels. -/
structure Sound (capacity : Nat) (x : Exchange) : Prop where
  room : x.transfer.channel.capacity = capacity
  bounded : x.transfer.channel.queue.length ≤ capacity
  receiving : x.transfer.channel.receiving = x.transfer.consumer.isCollecting
  closed : x.transfer.channel.sending = false → x.transfer.producer.tasks = [] ∧ x.calls = []
  gathered : x.transfer.Gathered x.received
  abandoned : x.transfer.consumer = .abandoned → x.transfer.channel.sending = false ∧
    ∃ taken : List Bytes, x.parcels = taken.map .data

theorem sound_ofCalls (chunkSize : Nat) (calls : List (List Task)) (capacity : Nat) :
    Sound (max capacity 1) (ofCalls chunkSize calls capacity) where
  room := rfl
  bounded := Nat.zero_le _
  receiving := rfl
  closed := by
    intro closed
    cases closed
  gathered := Transfer.gathered_of_receives (.refl _)
  abandoned := by
    intro abandoned
    cases abandoned

namespace Sound

variable {capacity : Nat}

theorem sending_of_tasks (hs : Sound capacity x) (some : x.transfer.producer.tasks ≠ []) :
    x.transfer.channel.sending = true := by
  cases sending : x.transfer.channel.sending with
  | true => rfl
  | false => exact absurd (hs.closed sending).1 some

theorem not_abandoned (hs : Sound capacity x) (sending : x.transfer.channel.sending = true) :
    x.transfer.consumer ≠ .abandoned := by
  intro abandoned
  cases sending.symm.trans (hs.abandoned abandoned).1

theorem produce (hs : Sound capacity x) (h : x.produce? = some y) : Sound capacity y := by
  cases turn_of_produce h with
  | begun idle calls =>
    refine ⟨hs.room, hs.bounded, hs.receiving, fun closed => ?_, hs.gathered.of_consumer rfl,
      hs.abandoned⟩
    cases calls.symm.trans (hs.closed closed).2
  | left idle none sending =>
    exact ⟨hs.room, hs.bounded, hs.receiving, fun _ => ⟨idle, none⟩, hs.gathered.of_consumer rfl,
      fun abandoned => absurd abandoned (hs.not_abandoned sending)⟩
  | worked moved =>
    have there := hs.sending_of_tasks (Producer.busy_of_moved moved)
    obtain ⟨capacity, sending, receiving, bounded⟩ := Producer.channel_of_moved moved
    rw [hs.room] at capacity bounded
    refine ⟨capacity, bounded hs.bounded, receiving.trans hs.receiving, fun closed => ?_,
      hs.gathered.of_consumer rfl, fun abandoned => absurd abandoned (hs.not_abandoned there)⟩
    cases (sending.trans there).symm.trans closed
  | stopped halted =>
    have there := hs.sending_of_tasks (Producer.writer_of_halted halted).2
    refine ⟨hs.room, hs.bounded, hs.receiving, fun closed => ?_, hs.gathered.of_consumer rfl,
      fun abandoned => absurd abandoned (hs.not_abandoned there)⟩
    cases there.symm.trans closed

theorem receive {t : Transfer} (hs : Sound capacity x) (h : x.transfer.receive? = some t) :
    Sound capacity (x.follow .receive t) := by
  have gathered := hs.gathered.receive h
  obtain ⟨bytes, chunks, consumer, met⟩ := Transfer.receive_cases h
  have bounded := hs.bounded
  rcases met with ⟨chunk, rest, queue, rfl⟩ | ⟨rest, queue, rfl⟩ | ⟨queue, closed, rfl⟩
  · rw [queue, List.length_cons] at bounded
    refine ⟨hs.room, Nat.le_of_succ_le bounded, ?_, hs.closed, gathered, fun abandoned => ?_⟩
    · exact hs.receiving.trans (by rw [consumer]; rfl)
    · cases abandoned
  · rw [queue, List.length_cons] at bounded
    refine ⟨hs.room, Nat.le_of_succ_le bounded, rfl, hs.closed, gathered, fun abandoned => ?_⟩
    cases abandoned
  · refine ⟨hs.room, hs.bounded, rfl, hs.closed, gathered, fun _ => ⟨closed, ?_⟩⟩
    obtain ⟨taken, received, _⟩ := hs.gathered.collecting bytes chunks consumer
    refine ⟨taken, ?_⟩
    simp [parcels, follow, Transfer.taken?, Channel.hangUp, received, queue]

theorem next {e : Event} (hs : Sound capacity x) (h : x.next? e = some y) : Sound capacity y := by
  cases e with
  | produce => exact hs.produce h
  | receive =>
    obtain ⟨t, event, rfl⟩ := Option.map_eq_some_iff.1 h
    exact hs.receive event
  | callOff =>
    cases h
    rw [follow_of_ne Event.noConfusion]
    exact ⟨hs.room, hs.bounded, hs.receiving, hs.closed, hs.gathered.of_consumer rfl, hs.abandoned⟩
  | hangUp =>
    obtain ⟨t, event, rfl⟩ := Option.map_eq_some_iff.1 h
    have gathered := hs.gathered.next event
    rw [Transfer.taken?, Option.toList_none, List.append_nil] at gathered
    obtain ⟨_, rfl⟩ := Transfer.eq_of_hangUp event
    rw [follow_of_ne Event.noConfusion]
    refine ⟨hs.room, hs.bounded, rfl, hs.closed, gathered, fun abandoned => ?_⟩
    cases abandoned

theorem execution (hs : Sound capacity x) (run : Execution x y) : Sound capacity y :=
  run.preserves (fun _ _ _ event sound => sound.next event) hs

end Sound

/-- A producer that cannot move has gone away after its last call, or waits for ever, or there is no
room in the channel. -/
theorem rest_of_produce (produced : x.produce? = none)
    (empty : x.transfer.channel.receiving = true → x.transfer.channel.queue = []) :
    .hold ∈ x.transfer.producer.tasks ∨
      x.transfer.producer.tasks = [] ∧ x.calls = [] ∧ x.transfer.channel.sending = false := by
  have course := x.transfer.producer.course x.transfer.calledOff x.transfer.channel
  unfold produce? at produced
  split at produced
  · cases produced
  · rename_i blocked
    rw [blocked] at course
    have room := x.transfer.channel.capacity_pos
    left
    generalize x.transfer.producer = p at course ⊢
    cases course with
    | crowded _ opened full =>
      rw [empty opened] at full
      cases Nat.lt_of_lt_of_le room full
    | held => exact List.mem_cons_self
  · cases produced
  · have idle := Producer.step_eq_idle_iff.1 ‹_›
    split at produced
    · cases produced
    · rename_i none
      split at produced
      · cases produced
      · rename_i closed
        exact .inr ⟨idle, none, by simpa using closed⟩

/-- A consumer that gathers comes to rest only with a producer that waits for ever. -/
theorem hold_of_rest (produced : x.produce? = none) (received : x.transfer.receive? = none)
    {bytes : Bytes} {chunks : Nat} (consumer : x.transfer.consumer = .collecting bytes chunks) :
    .hold ∈ x.transfer.producer.tasks := by
  obtain ⟨queue, sending⟩ := Transfer.queue_of_receive_eq_none received consumer
  rcases rest_of_produce produced fun _ => queue with held | ⟨_, _, closed⟩
  · exact held
  · cases sending.symm.trans closed

theorem shorter_of_receive {t u : Transfer} (h : t.receive? = some u) :
    (u.consumer.isCollecting = true → u.channel.queue.length < t.channel.queue.length) ∧
      u.channel.sending = t.channel.sending ∧ u.consumer ≠ .dropped := by
  obtain ⟨bytes, chunks, consumer, met⟩ := Transfer.receive_cases h
  rcases met with ⟨chunk, rest, queue, rfl⟩ | ⟨rest, queue, rfl⟩ | ⟨queue, closed, rfl⟩
  · rw [queue]
    exact ⟨fun _ => Nat.lt_succ_self _, rfl, Completion.noConfusion⟩
  · exact ⟨fun more => Bool.noConfusion more, rfl, Completion.noConfusion⟩
  · exact ⟨fun more => Bool.noConfusion more, rfl, Completion.noConfusion⟩

theorem exists_steps (n : Nat) (x : Exchange)
    (enough : x.transfer.consumer.isCollecting = true → x.transfer.channel.queue.length < n) :
    ∃ t received, t.receive? = none ∧ Execution x { x with transfer := t, received := received } ∧
      Completion.steps n x.transfer.consumer x.transfer.channel = (t.consumer, t.channel) ∧
      t.channel.sending = x.transfer.channel.sending ∧
      (t.consumer = .dropped → x.transfer.consumer = .dropped) := by
  induction n generalizing x with
  | zero =>
    have through : x.transfer.receive? = none := by
      rw [Transfer.receive?]
      cases consumer : x.transfer.consumer with
      | collecting => cases enough (by rw [consumer]; rfl)
      | complete | abandoned | dropped => rfl
    exact ⟨x.transfer, x.received, through, .refl x, rfl, rfl, id⟩
  | succ n ih =>
    cases event : x.transfer.receive? with
    | none =>
      have stays : x.transfer.consumer.step? x.transfer.channel = none :=
        Option.map_eq_none_iff.1 event
      refine ⟨x.transfer, x.received, event, .refl x, ?_, rfl, id⟩
      rw [Completion.steps, stays]
    | some t =>
      obtain ⟨⟨consumer, channel⟩, stepped, rfl⟩ := Option.map_eq_some_iff.1 event
      obtain ⟨shorter, sending, there⟩ := shorter_of_receive event
      have collects : x.transfer.consumer.isCollecting = true := by
        cases collecting : x.transfer.consumer with
        | collecting => rfl
        | complete | abandoned | dropped =>
          rw [collecting] at stepped
          cases stepped
      have fewer (more : consumer.isCollecting = true) : channel.queue.length < n :=
        Nat.lt_of_lt_of_le (shorter more) (Nat.le_of_lt_succ (enough collects))
      have followed : x.next? .receive = some (x.follow .receive _) :=
        congrArg (Option.map (x.follow .receive)) event
      obtain ⟨t, received, through, run, steps, sent, dropped⟩ :=
        ih (x.follow .receive { x.transfer with consumer := consumer, channel := channel }) fewer
      refine ⟨t, received, through, (Execution.tail (.refl x) followed).trans run, ?_,
        sent.trans sending, fun gone => absurd (dropped gone) there⟩
      rw [Completion.steps, stepped]
      exact steps

theorem poll_of_receive_eq_none {t : Transfer} (through : t.receive? = none) :
    t.consumer.poll t.channel = (t.consumer, t.channel) := by
  have stays : t.consumer.step? t.channel = none := Option.map_eq_none_iff.1 through
  rw [Completion.poll, Completion.steps, stays]

theorem exists_polled (x : Exchange) :
    ∃ t received, t.receive? = none ∧ Execution x { x with transfer := t, received := received } ∧
      x.transfer.consumer.poll x.transfer.channel = (t.consumer, t.channel) ∧
      t.channel.sending = x.transfer.channel.sending ∧
      (t.consumer = .dropped → x.transfer.consumer = .dropped) :=
  exists_steps _ x fun _ => Nat.lt_succ_self _

end Exchange

end Folio.Delivery
