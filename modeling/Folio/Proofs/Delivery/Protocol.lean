import Folio.Proofs.Delivery.Exchange

/-! # The protocol of completion

Somebody sends chunks and then finishes or goes away. The consumer has the chunks in order. It
resolves when the producer has finished, to all of them, or when the producer has gone away, to
none.
-/

namespace Folio.Delivery

def sinkTasks (chunks : List Bytes) (finishes : Bool) : List Task :=
  chunks.map .send ++ if finishes then [.finish] else []

def sinkCalls (chunks : List Bytes) (finishes : Bool) : List (List Task) :=
  (sinkTasks chunks finishes).map fun task => [task]

def sent (chunks : List Bytes) (outcomes : List (Except Halt Unit)) : List Bytes :=
  ((chunks.zip outcomes).filter fun (_, outcome) => outcome.isOk).map Prod.fst

def handed (tasks : List Task) (outcomes : List (Except Halt Unit)) : List Parcel :=
  (tasks.zip outcomes).flatMap fun (task, outcome) =>
    if outcome.isOk then (Producer.parcel? task).toList else []

/-- The sink has finished: its last call was answered, without an error. -/
def Finished (chunks : List Bytes) (finishes : Bool) (outcomes : List (Except Halt Unit)) : Prop :=
  finishes = true ∧ outcomes[chunks.length]? = some (.ok ())

section Sinks

variable {chunks : List Bytes} {finishes : Bool}

theorem hands_of_mem_sinkTasks {task : Task} (mem : task ∈ sinkTasks chunks finishes) :
    (∃ chunk, task = .send chunk) ∨ task = .finish := by
  rcases List.mem_append.1 mem with mem | mem
  · obtain ⟨chunk, _, rfl⟩ := List.mem_map.1 mem
    exact .inl ⟨chunk, rfl⟩
  · cases finishes with
    | true => exact .inr (List.mem_singleton.1 mem)
    | false => cases mem

theorem handed_concat {tasks : List Task} {outcomes : List (Except Halt Unit)} {task : Task}
    (next : tasks[outcomes.length]? = some task) (outcome : Except Halt Unit) :
    handed tasks (outcomes ++ [outcome]) = handed tasks outcomes ++
      if outcome.isOk then (Producer.parcel? task).toList else [] := by
  induction outcomes generalizing tasks with
  | nil =>
    cases tasks with
    | nil => cases next
    | cons first rest =>
      cases next
      simp [handed]
  | cons first others ih =>
    cases tasks with
    | nil => cases next
    | cons other rest =>
      have later : handed rest (others ++ [outcome]) = handed rest others ++ _ := ih next
      simp only [handed, List.cons_append, List.zip_cons_cons, List.flatMap_cons] at later ⊢
      rw [later, List.append_assoc]

theorem handed_sinkTasks (chunks : List Bytes) (finishes : Bool)
    (outcomes : List (Except Halt Unit)) :
    ∃ (parts : List Bytes) (ended : List Parcel),
      handed (sinkTasks chunks finishes) outcomes = parts.map .data ++ ended ∧
      parts.flatten = (sent chunks outcomes).flatten ∧
      (Finished chunks finishes outcomes ∧ ended = [.finished] ∨
        ¬ Finished chunks finishes outcomes ∧ ended = []) := by
  induction chunks generalizing outcomes with
  | nil =>
    rcases outcomes with _ | ⟨why | _, others⟩
    · refine ⟨[], [], by simp [handed], rfl, .inr ⟨?_, rfl⟩⟩
      rintro ⟨_, none⟩
      cases none
    · refine ⟨[], [], ?_, by simp [sent], .inr ⟨?_, rfl⟩⟩
      · cases finishes <;> simp [sinkTasks, handed, Except.isOk, Except.toBool]
      · rintro ⟨_, failed⟩
        cases failed
    · cases finishes with
      | true => exact ⟨[], [.finished], rfl, rfl, .inl ⟨⟨rfl, rfl⟩, rfl⟩⟩
      | false =>
        refine ⟨[], [], rfl, rfl, .inr ⟨?_, rfl⟩⟩
        rintro ⟨never, _⟩
        cases never
  | cons chunk rest ih =>
    cases outcomes with
    | nil =>
      refine ⟨[], [], by simp [handed], rfl, .inr ⟨?_, rfl⟩⟩
      rintro ⟨_, none⟩
      cases none
    | cons outcome others =>
      obtain ⟨parts, ended, later, joined, last⟩ := ih others
      cases outcome with
      | error why => exact ⟨parts, ended, later, joined, last⟩
      | ok =>
        have first : handed (sinkTasks (chunk :: rest) finishes) (.ok () :: others) =
            (Producer.parcel? (.send chunk)).toList ++
              handed (sinkTasks rest finishes) others := rfl
        have more : (sent (chunk :: rest) (.ok () :: others)).flatten =
            chunk ++ (sent rest others).flatten := rfl
        rw [first, more, later]
        cases chunk with
        | nil => exact ⟨parts, ended, rfl, joined, last⟩
        | cons b bs =>
          refine ⟨(b :: bs) :: parts, ended, rfl, ?_, last⟩
          rw [List.flatten_cons, joined]

theorem sent_of_ok {outcomes : List (Except Halt Unit)}
    (ok : ∀ outcome ∈ outcomes, outcome = .ok ())
    (all : chunks.length ≤ outcomes.length) : sent chunks outcomes = chunks := by
  induction chunks generalizing outcomes with
  | nil => rfl
  | cons chunk rest ih =>
    cases outcomes with
    | nil => cases all
    | cons outcome others =>
      obtain ⟨rfl, later⟩ := List.forall_mem_cons.1 ok
      exact congrArg (chunk :: ·) (ih later (Nat.le_of_succ_le_succ all))

theorem length_sinkTasks_le (chunks : List Bytes) (finishes : Bool) :
    (sinkTasks chunks finishes).length ≤ chunks.length + 1 := by
  cases finishes <;> simp [sinkTasks]

theorem length_lt_of_finished {outcomes : List (Except Halt Unit)}
    (finished : Finished chunks finishes outcomes) : chunks.length < outcomes.length :=
  (List.getElem?_eq_some_iff.1 finished.2).1

end Sinks

/-- How a task that hands over its parcel as it is can be answered, and what it puts into the
channel. -/
inductive Answers (c : Channel) (task : Task) : Except Halt Unit → List Parcel → Prop
  | nothing (none : Producer.parcel? task = none) : Answers c task (.ok ()) []
  | put {parcel : Parcel} (puts : Producer.parcel? task = some parcel)
      (opened : c.receiving = true) : Answers c task (.ok ()) [parcel]
  | refused {parcel : Parcel} (puts : Producer.parcel? task = some parcel)
      (gone : c.receiving = false) : Answers c task (.error .receiverGone) []

namespace Answers

variable {c : Channel} {task : Task} {outcome : Except Halt Unit} {put : List Parcel}

theorem put_eq (answers : Answers c task outcome put) :
    put = if outcome.isOk then (Producer.parcel? task).toList else [] := by
  cases answers with
  | nothing none =>
    rw [none]
    rfl
  | put puts =>
    rw [puts]
    rfl
  | refused => rfl

theorem ok_of_receiving (answers : Answers c task outcome put) (opened : c.receiving = true) :
    outcome = .ok () := by
  cases answers with
  | nothing | put => rfl
  | refused _ gone => cases opened.symm.trans gone

theorem refused_of_gone (answers : Answers c task outcome put) (gone : c.receiving = false)
    (some : Producer.parcel? task ≠ none) : outcome = .error .receiverGone := by
  cases answers with
  | nothing none => exact absurd none some
  | put _ opened => cases opened.symm.trans gone
  | refused => rfl

end Answers

theorem Producer.step_of_hands {w : ChunkWriter} {task : Task} {rest : List Task}
    (hands : (∃ chunk, task = .send chunk) ∨ task = .finish) (calledOff : Bool) (c : Channel) :
    step ⟨w, task :: rest⟩ calledOff c = .blocked ∨
      (∃ put, step ⟨w, task :: rest⟩ calledOff c =
          .moved ⟨w, rest⟩ { c with queue := c.queue ++ put } ∧ Answers c task (.ok ()) put) ∨
      (step ⟨w, task :: rest⟩ calledOff c = .halted .receiverGone w ∧
        Answers c task (.error .receiverGone) []) := by
  have course := course ⟨w, task :: rest⟩ calledOff c
  generalize step ⟨w, task :: rest⟩ calledOff c = next at course ⊢
  cases course with
  | nothing => exact .inr (.inl ⟨[], by simp, .nothing rfl⟩)
  | put puts opened => exact .inr (.inl ⟨_, rfl, .put puts opened⟩)
  | refused puts gone => exact .inr (.inr ⟨rfl, .refused puts gone⟩)
  | crowded => exact .inl rfl
  | stopped looks =>
    rcases hands with ⟨chunk, rfl⟩ | rfl
    · cases looks
    · cases looks
  | accepted | filled | cut | flushed | emptied | held => rcases hands with ⟨_, ⟨⟩⟩ | ⟨⟨⟩⟩

namespace Exchange

/-- Where a producer that serves calls of one task each has got to: so many tasks are answered, one
may be under way, and the others are still to be called for. -/
structure Position (tasks : List Task) (x : Exchange) : Prop where
  split : ∃ done rest, tasks = done ++ (x.transfer.producer.tasks ++ rest) ∧
    done.length = x.outcomes.length ∧ x.calls = rest.map fun task => [task]
  single : x.transfer.producer.tasks.length ≤ 1

namespace Position

variable {tasks : List Task} {x y : Exchange}

theorem start (tasks : List Task) (capacity : Nat) :
    Position tasks (ofCalls 1 (tasks.map fun task => [task]) capacity) :=
  ⟨⟨[], tasks, rfl, rfl, rfl⟩, Nat.zero_le 1⟩

theorem current (position : Position tasks x) (busy : x.transfer.producer.tasks ≠ []) :
    ∃ w task, x.transfer.producer = ⟨w, [task]⟩ ∧ tasks[x.outcomes.length]? = some task := by
  obtain ⟨done, rest, split, length, _⟩ := position.split
  have one : x.transfer.producer.tasks.length = 1 :=
    Nat.le_antisymm position.single (List.length_pos_iff.2 busy)
  obtain ⟨task, same⟩ := List.length_eq_one_iff.1 one
  refine ⟨x.transfer.producer.writer, task, ?_, ?_⟩
  · rw [← same]
  · rw [split, same, ← length]
    simp

theorem answered (position : Position tasks x) (busy : x.transfer.producer.tasks ≠ [])
    (served : y.transfer.producer.tasks = []) (calls : y.calls = x.calls)
    {outcome : Except Halt Unit} (outcomes : y.outcomes = x.outcomes ++ [outcome]) :
    Position tasks y := by
  obtain ⟨done, rest, split, length, left⟩ := position.split
  obtain ⟨w, task, producer, _⟩ := position.current busy
  refine ⟨⟨done ++ [task], rest, ?_, ?_, calls.trans left⟩, ?_⟩
  · rw [split, producer, served]
    simp
  · rw [outcomes]
    simp [length]
  · rw [served]
    exact Nat.zero_le 1

theorem produce (position : Position tasks x)
    (hands : ∀ task ∈ tasks, (∃ chunk, task = .send chunk) ∨ task = .finish)
    (h : x.produce? = some y) :
    Position tasks y ∧ (y.outcomes = x.outcomes ∧ y.parcels = x.parcels ∨
      ∃ task outcome put, tasks[x.outcomes.length]? = some task ∧
        Answers x.transfer.channel task outcome put ∧ y.outcomes = x.outcomes ++ [outcome] ∧
        y.parcels = x.parcels ++ put) := by
  cases turn_of_produce h with
  | begun idle next =>
    obtain ⟨done, rest, split, length, calls⟩ := position.split
    cases rest with
    | nil => cases next.symm.trans calls
    | cons task rest =>
      obtain ⟨rfl, rfl⟩ := List.cons.inj (next.symm.trans calls)
      rw [idle] at split
      exact ⟨⟨⟨done, rest, split, length, rfl⟩, Nat.le_refl 1⟩, .inl ⟨rfl, rfl⟩⟩
  | left idle none sending =>
    exact ⟨⟨position.split, position.single⟩, .inl ⟨rfl, rfl⟩⟩
  | @worked next channel moved =>
    have busy := Producer.busy_of_moved moved
    obtain ⟨w, task, producer, current⟩ := position.current busy
    rw [producer] at moved
    rcases Producer.step_of_hands (hands task (List.mem_of_getElem? current))
      x.transfer.calledOff x.transfer.channel with blocked | ⟨put, done, answers⟩ | ⟨halted, _⟩
    · cases blocked.symm.trans moved
    · cases done.symm.trans moved
      exact ⟨position.answered busy rfl rfl rfl, .inr ⟨task, .ok (), put, current, answers, rfl,
        (List.append_assoc _ _ _).symm⟩⟩
    · cases halted.symm.trans moved
  | @stopped why writer halted =>
    have busy := (Producer.writer_of_halted halted).2
    obtain ⟨w, task, producer, current⟩ := position.current busy
    rw [producer] at halted
    rcases Producer.step_of_hands (hands task (List.mem_of_getElem? current))
      x.transfer.calledOff x.transfer.channel with blocked | ⟨put, done, _⟩ | ⟨refused, answers⟩
    · cases blocked.symm.trans halted
    · cases done.symm.trans halted
    · cases refused.symm.trans halted
      exact ⟨position.answered busy rfl rfl rfl, .inr ⟨task, _, [], current, answers, rfl,
        (List.append_nil _).symm⟩⟩

end Position

/-- What a consumer learns that takes all there is: the end with all the chunks once the producer
has finished, that there will be none once the producer has gone away instead, and nothing before
that. -/
structure Awaits (chunks : List Bytes) (finishes : Bool) (x : Exchange) (awaited : Completion) :
    Prop where
  finished : Finished chunks finishes x.outcomes → ∃ count, awaited = .complete chunks.flatten count
  left : ¬ Finished chunks finishes x.outcomes → x.transfer.channel.sending = false →
    awaited = .abandoned
  waiting : ¬ Finished chunks finishes x.outcomes → x.transfer.channel.sending = true →
    ∃ bytes count, awaited = .collecting bytes count

structure Serves (chunks : List Bytes) (finishes : Bool) (x : Exchange) : Prop where
  position : Position (sinkTasks chunks finishes) x
  parcels : x.parcels = handed (sinkTasks chunks finishes) x.outcomes
  /-- Nothing is refused as long as the consumer is not gone. -/
  ok : x.transfer.consumer ≠ .dropped → ∀ outcome ∈ x.outcomes, outcome = .ok ()

namespace Serves

variable {chunks : List Bytes} {finishes : Bool} {capacity : Nat} {x y : Exchange}

theorem start (chunks : List Bytes) (finishes : Bool) (capacity : Nat) :
    Serves chunks finishes (ofCalls 1 (sinkCalls chunks finishes) capacity) where
  position := .start _ capacity
  parcels := by simp [Exchange.parcels, ofCalls, Transfer.ofProduction, Channel.ofCapacity, handed]
  ok := by
    intro _ outcome none
    cases none

theorem of_complete (hs : Serves chunks finishes x) (sound : Sound capacity x) {bytes : Bytes}
    {count : Nat} (complete : x.transfer.consumer = .complete bytes count) :
    Finished chunks finishes x.outcomes ∧ bytes = (sent chunks x.outcomes).flatten := by
  obtain ⟨taken, received, rfl⟩ := sound.gathered.complete bytes count complete
  obtain ⟨parts, ended, whole, joined, last⟩ := handed_sinkTasks chunks finishes x.outcomes
  have front : taken.map Parcel.data ++ [.finished] <+: parts.map .data ++ ended := by
    rw [← whole, ← hs.parcels, Exchange.parcels, received]
    exact List.prefix_append _ _
  rcases last with ⟨finished, rfl⟩ | ⟨_, rfl⟩
  · rw [← joined, eq_of_map_data_finished front]
    exact ⟨finished, rfl⟩
  · have mem := front.subset (List.mem_append_right _ List.mem_cons_self)
    simp at mem

theorem unfinished_of_data (hs : Serves chunks finishes x) {taken : List Bytes}
    (data : x.parcels = taken.map .data) : ¬ Finished chunks finishes x.outcomes := by
  intro finished
  obtain ⟨parts, ended, whole, _, last⟩ := handed_sinkTasks chunks finishes x.outcomes
  rcases last with ⟨_, rfl⟩ | ⟨unfinished, _⟩
  · have mem : Parcel.finished ∈ taken.map Parcel.data := by
      rw [← data, hs.parcels, whole]
      exact List.mem_append_right _ List.mem_cons_self
    simp at mem
  · exact unfinished finished

theorem length_of_closed (hs : Serves chunks finishes x) (sound : Sound capacity x)
    (closed : x.transfer.channel.sending = false) :
    x.outcomes.length = (sinkTasks chunks finishes).length := by
  obtain ⟨done, rest, split, length, calls⟩ := hs.position.split
  obtain ⟨idle, none⟩ := sound.closed closed
  rw [none] at calls
  rw [split, idle, ← length, List.map_eq_nil_iff.1 calls.symm]
  simp

theorem dropped_of_refused (hs : Serves chunks finishes x) (sound : Sound capacity x)
    (gone : x.transfer.channel.receiving = false)
    (more : x.outcomes.length < (sinkTasks chunks finishes).length) :
    x.transfer.consumer = .dropped := by
  rw [sound.receiving] at gone
  cases consumer : x.transfer.consumer with
  | dropped => rfl
  | collecting =>
    rw [consumer] at gone
    cases gone
  | complete =>
    have all := length_lt_of_finished (hs.of_complete sound consumer).1
    have tasks := length_sinkTasks_le chunks finishes
    omega
  | abandoned =>
    have all := hs.length_of_closed sound (sound.abandoned consumer).1
    omega

theorem produce (hs : Serves chunks finishes x) (sound : Sound capacity x)
    (h : x.produce? = some y) : Serves chunks finishes y := by
  have consumer := consumer_of_produce h
  obtain ⟨position, ⟨outcomes, parcels⟩ | ⟨task, outcome, put, current, answers, outcomes, parcels⟩⟩
    := hs.position.produce (fun _ => hands_of_mem_sinkTasks) h
  · refine ⟨position, ?_, ?_⟩
    · rw [parcels, outcomes]
      exact hs.parcels
    · rw [consumer, outcomes]
      exact hs.ok
  · refine ⟨position, ?_, fun there => ?_⟩
    · rw [parcels, outcomes, handed_concat current, hs.parcels, answers.put_eq]
    · rw [consumer] at there
      have more := (List.getElem?_eq_some_iff.1 current).1
      have opened : x.transfer.channel.receiving = true := by
        cases receiving : x.transfer.channel.receiving with
        | true => rfl
        | false => exact absurd (hs.dropped_of_refused sound receiving more) there
      rw [outcomes]
      exact List.forall_mem_append.2
        ⟨hs.ok there, List.forall_mem_singleton.2 (answers.ok_of_receiving opened)⟩

theorem next {e : Event} (hs : Serves chunks finishes x) (sound : Sound capacity x)
    (h : x.next? e = some y) : Serves chunks finishes y := by
  by_cases produces : e = .produce
  · subst produces
    exact hs.produce sound h
  · obtain ⟨parcels, outcomes, calls, producer⟩ := kept_of_ne produces h
    refine ⟨⟨?_, ?_⟩, ?_, fun there => ?_⟩
    · rw [producer, outcomes, calls]
      exact hs.position.split
    · rw [producer]
      exact hs.position.single
    · rw [parcels, outcomes]
      exact hs.parcels
    · rw [outcomes]
      exact hs.ok (mt (dropped_of_next h) there)

theorem execution (hs : Serves chunks finishes x) (sound : Sound capacity x)
    (run : Execution x y) : Serves chunks finishes y ∧ Sound capacity y :=
  run.preserves (P := fun y => Serves chunks finishes y ∧ Sound capacity y)
    (fun _ _ _ event kept => ⟨kept.1.next kept.2 event, kept.2.next event⟩) ⟨hs, sound⟩

theorem awaited (hs : Serves chunks finishes x) (sound : Sound capacity x)
    (there : x.transfer.consumer ≠ .dropped) :
    Awaits chunks finishes x (x.transfer.consumer.poll x.transfer.channel).1 := by
  obtain ⟨t, received, through, run, polled, sending, kept⟩ := exists_polled x
  obtain ⟨hs', sound'⟩ := hs.execution sound run
  have outcome : (x.transfer.consumer.poll x.transfer.channel).1 = t.consumer := by rw [polled]
  rw [outcome]
  cases consumer : t.consumer with
  | dropped => exact absurd (kept consumer) there
  | collecting bytes count =>
    obtain ⟨queue, waits⟩ := Transfer.queue_of_receive_eq_none through consumer
    obtain ⟨taken, data, _⟩ := sound'.gathered.collecting bytes count consumer
    have whole : received ++ t.channel.queue = taken.map .data := by
      rw [queue, List.append_nil]
      exact data
    have unfinished := hs'.unfinished_of_data whole
    refine ⟨fun finished => absurd finished unfinished, fun _ closed => ?_,
      fun _ _ => ⟨bytes, count, rfl⟩⟩
    cases (waits.symm.trans sending).trans closed
  | complete bytes count =>
    obtain ⟨finished, whole⟩ := hs'.of_complete sound' consumer
    have all := sent_of_ok (hs.ok there) (Nat.le_of_lt (length_lt_of_finished finished))
    refine ⟨fun _ => ⟨count, ?_⟩, absurd finished, absurd finished⟩
    rw [whole, all]
  | abandoned =>
    obtain ⟨closed, taken, data⟩ := sound'.abandoned consumer
    have unfinished := hs'.unfinished_of_data data
    refine ⟨fun finished => absurd finished unfinished, fun _ _ => rfl, fun _ there => ?_⟩
    cases (closed.symm.trans sending).trans there

theorem rest (hs : Serves chunks finishes x) (sound : Sound capacity x)
    (produced : x.produce? = none) (received : x.transfer.receive? = none)
    (there : x.transfer.consumer ≠ .dropped) :
    if finishes then ∃ count, x.transfer.consumer = .complete chunks.flatten count
    else x.transfer.consumer = .abandoned := by
  have through (bytes : Bytes) (count : Nat) :
      x.transfer.consumer ≠ .collecting bytes count := by
    intro consumer
    have held := hold_of_rest produced received consumer
    obtain ⟨done, rest, split, _⟩ := hs.position.split
    have mem : Task.hold ∈ sinkTasks chunks finishes := by
      rw [split]
      exact List.mem_append_right _ (List.mem_append_left _ held)
    rcases hands_of_mem_sinkTasks mem with ⟨_, ⟨⟩⟩ | ⟨⟨⟩⟩
  have awaits := hs.awaited sound there
  rw [poll_of_receive_eq_none received] at awaits
  -- A producer that is still there keeps the consumer waiting.
  have closed (unfinished : ¬ Finished chunks finishes x.outcomes) :
      x.transfer.channel.sending = false := by
    cases sending : x.transfer.channel.sending with
    | false => rfl
    | true =>
      obtain ⟨bytes, count, collecting⟩ := awaits.waiting unfinished sending
      exact absurd collecting (through bytes count)
  cases finishes with
  | false =>
    have unfinished : ¬ Finished chunks false x.outcomes := by
      rintro ⟨never, _⟩
      cases never
    exact awaits.left unfinished (closed unfinished)
  | true =>
    by_cases finished : Finished chunks true x.outcomes
    · exact awaits.finished finished
    · have length := hs.length_of_closed sound (closed finished)
      have last : x.outcomes.length = chunks.length + 1 := by simp [length, sinkTasks]
      obtain ⟨outcome, answer⟩ : ∃ outcome, x.outcomes[chunks.length]? = some outcome :=
        ⟨_, List.getElem?_eq_getElem (by omega)⟩
      obtain rfl := hs.ok there outcome (List.mem_of_getElem? answer)
      exact absurd ⟨rfl, answer⟩ finished

theorem refused (hs : Serves chunks finishes x) (sound : Sound capacity x)
    (gone : x.transfer.consumer = .dropped) (run : Execution x y) {i : Nat}
    (later : x.outcomes.length ≤ i) {task : Task}
    (called : (sinkTasks chunks finishes)[i]? = some task) (puts : Producer.parcel? task ≠ none)
    {outcome : Except Halt Unit} (answer : y.outcomes[i]? = some outcome) :
    outcome = .error .receiverGone := by
  have kept := run.preserves
    (P := fun y => (Serves chunks finishes y ∧ Sound capacity y) ∧
      y.transfer.consumer = .dropped ∧
      ∀ outcome, y.outcomes[i]? = some outcome → outcome = .error .receiverGone) ?_ ?_
  · exact kept.2.2 outcome answer
  · rintro y z e event ⟨⟨hs, sound⟩, gone, refused⟩
    refine ⟨⟨hs.next sound event, sound.next event⟩, dropped_of_next event gone, ?_⟩
    by_cases produces : e = .produce
    · subst produces
      obtain ⟨_, ⟨same, _⟩ | ⟨other, outcome, put, current, answers, more, _⟩⟩ :=
        hs.position.produce (fun _ => hands_of_mem_sinkTasks) event
      · rw [same]
        exact refused
      · have receiving : y.transfer.channel.receiving = false := by
          rw [sound.receiving, gone]
          rfl
        intro last answer
        rw [more] at answer
        rcases earlier_or_latest answer with answer | ⟨rfl, rfl⟩
        · exact refused last answer
        · obtain rfl := Option.some.inj (current.symm.trans called)
          exact answers.refused_of_gone receiving puts
    · rw [(kept_of_ne produces event).2.1]
      exact refused
  · refine ⟨⟨hs, sound⟩, gone, fun outcome answer => ?_⟩
    rw [List.getElem?_eq_none later] at answer
    cases answer

end Serves

end Exchange

end Folio.Delivery
