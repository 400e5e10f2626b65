import Folio.Proofs.Delivery.Exchange

/-! # After the call-off

A chunk writer that is told to give up takes no more bytes and sends no more data. It looks only
where it would send data, though: if nothing is buffered when the work is called off, the writer can
still be finished, and the output then counts as complete.
-/

namespace Folio.Delivery

namespace ChunkWriter

inductive Request where
  | write (bytes : Bytes)
  | flush

def Request.tasks : Request → List Task
  | write bytes => [.accept bytes]
  | flush => [.flush]

def Request.verdict (buffer : Bytes) : Request → Except Halt Unit
  | write _ => .error .calledOff
  | flush => if buffer.isEmpty then .ok () else .error .calledOff

end ChunkWriter

open ChunkWriter (Request)

/-- The calls for requests and then, if the writer is finished, for that. -/
def writerCalls (requests : List Request) (finishes : Bool) : List (List Task) :=
  requests.map Request.tasks ++ if finishes then [[.flush, .finish]] else []

theorem mem_writerCalls {requests : List Request} {finishes : Bool} {call : List Task}
    (mem : call ∈ writerCalls requests finishes) :
    (∃ bytes, call = [.accept bytes]) ∨ call = [.flush] ∨ call = [.flush, .finish] := by
  rcases List.mem_append.1 mem with mem | mem
  · obtain ⟨request, _, rfl⟩ := List.mem_map.1 mem
    cases request with
    | write bytes => exact .inl ⟨bytes, rfl⟩
    | flush => exact .inr (.inl rfl)
  · cases finishes with
    | true => exact .inr (.inr (List.mem_singleton.1 mem))
    | false => cases mem

theorem finish_last {requests : List Request} {finishes : Bool} {front behind : List (List Task)}
    (split : writerCalls requests finishes = front ++ [.flush, .finish] :: behind) :
    behind = [] := by
  induction requests generalizing front with
  | nil =>
    cases finishes with
    | true =>
      cases front with
      | nil => exact (List.cons.inj split).2.symm
      | cons first rest => simp [writerCalls] at split
    | false => simp [writerCalls] at split
  | cons request rest ih =>
    cases front with
    | nil =>
      have first := (List.cons.inj split).1
      cases request <;> cases first
    | cons first front => exact ih (List.cons.inj split).2

inductive Verdict (buffer : Bytes) : List Task → Except Halt Unit → Prop
  | write {bytes : Bytes} : Verdict buffer [.accept bytes] (.error .calledOff)
  | flush (none : buffer = []) : Verdict buffer [.flush] (.ok ())
  | finish (none : buffer = []) {outcome : Except Halt Unit}
      (other : outcome ≠ .error .calledOff) : Verdict buffer [.flush, .finish] outcome
  | kept {rest : List Task} (some : buffer ≠ []) :
      Verdict buffer (.flush :: rest) (.error .calledOff)

inductive UnderWay (buffer : Bytes) : List Task → List Task → Prop
  | begun {call : List Task} : UnderWay buffer call call
  | flushed (none : buffer = []) : UnderWay buffer [.flush, .finish] [.finish]

inductive Ceasing (w : ChunkWriter) (c : Channel) : List Task → Producer.Step → Prop
  | stopped {call : List Task} {why : Halt} (verdict : Verdict w.buffer call (.error why)) :
      Ceasing w c call (.halted why w)
  | blocked {call : List Task} : Ceasing w c call .blocked
  | done (none : w.buffer = []) : Ceasing w c [.flush] (.moved ⟨w, []⟩ c)
  | flushed (none : w.buffer = []) : Ceasing w c [.flush, .finish] (.moved ⟨w, [.finish]⟩ c)
  | ended (none : w.buffer = []) : Ceasing w c [.flush, .finish]
      (.moved ⟨w, []⟩ { c with queue := c.queue ++ [.finished] })

theorem ceasing_step {requests : List Request} {finishes : Bool} {call left : List Task}
    (called : call ∈ writerCalls requests finishes) {w : ChunkWriter}
    (underWay : UnderWay w.buffer call left) (c : Channel) :
    Ceasing w c call (Producer.step ⟨w, left⟩ true c) := by
  have course := Producer.course ⟨w, left⟩ true c
  generalize Producer.step ⟨w, left⟩ true c = next at course ⊢
  cases underWay with
  | begun =>
    rcases mem_writerCalls called with ⟨bytes, rfl⟩ | rfl | rfl
    · cases course with
      | stopped => exact .stopped .write
      | accepted on => cases on
      | put puts | crowded puts | refused puts => cases puts
    · cases course with
      | stopped some => exact .stopped (.kept some)
      | flushed none => exact .done none
      | emptied _ on => cases on
      | put puts | crowded puts | refused puts => cases puts
    · cases course with
      | stopped some => exact .stopped (.kept some)
      | flushed none => exact .flushed none
      | emptied _ on => cases on
      | put puts | crowded puts | refused puts => cases puts
  | flushed none =>
    cases course with
    | stopped looks => cases looks
    | put puts =>
      cases puts
      exact .ended none
    | crowded => exact .blocked
    | refused => exact .stopped (.finish none (by simp))

theorem Producer.markers_of_moved {p next : Producer} {calledOff : Bool} {c channel : Channel}
    (h : p.step calledOff c = .moved next channel) :
    channel.queue.count .finished + next.tasks.count .finish =
      c.queue.count .finished + p.tasks.count .finish := by
  have course := p.course calledOff c
  rw [h] at course
  cases course with
  | accepted | filled | cut | flushed | emptied | nothing => simp
  | @put w task rest parcel puts =>
    cases task with
    | send chunk =>
      cases chunk with
      | nil => cases puts
      | cons b bs =>
        cases puts
        simp
    | finish =>
      cases puts
      simp
      omega
    | accept | fill | flush | hold => cases puts

namespace Exchange

variable {x y : Exchange}

def pending (x : Exchange) : List Task := x.transfer.producer.tasks ++ x.calls.flatten

def markers (x : Exchange) : Nat := x.parcels.count .finished + x.pending.count .finish

theorem markers_next {e : Event} (h : x.next? e = some y) : y.markers ≤ x.markers := by
  by_cases produces : e = .produce
  · subst produces
    cases turn_of_produce h with
    | begun idle calls => simp [markers, parcels, pending, begun, idle, calls]
    | left => exact Nat.le_refl _
    | worked moved =>
      have same := Producer.markers_of_moved moved
      simp only [markers, parcels, pending, worked, List.count_append] at same ⊢
      omega
    | stopped halted =>
      simp only [markers, parcels, pending, stopped, List.count_append, List.count_nil]
      omega
  · obtain ⟨parcels, _, calls, producer⟩ := kept_of_ne produces h
    rw [markers, parcels, pending, calls, producer]
    exact Nat.le_refl _

theorem markers_execution (run : Execution x y) : y.markers ≤ x.markers :=
  run.preserves (P := fun y => y.markers ≤ x.markers)
    (fun _ _ _ event le => Nat.le_trans (markers_next event) le) (Nat.le_refl _)

theorem calledOff_of_next {e : Event} (h : x.next? e = some y)
    (off : x.transfer.calledOff = true) : y.transfer.calledOff = true := by
  cases e with
  | produce =>
    cases turn_of_produce h with
    | begun | left | worked | stopped => exact off
  | receive =>
    obtain ⟨t, event, rfl⟩ := Option.map_eq_some_iff.1 h
    obtain ⟨_, _, rfl⟩ := Option.map_eq_some_iff.1 event
    exact off
  | callOff =>
    cases h
    rfl
  | hangUp =>
    obtain ⟨t, event, rfl⟩ := Option.map_eq_some_iff.1 h
    obtain ⟨_, rfl⟩ := Transfer.eq_of_hangUp event
    exact off

/-- Where a producer has got to that was called off between two calls: the calls that are not
answered, and what it has put into the channel since. -/
inductive Standing (buffer : Bytes) (y : Exchange) : List (List Task) → List Parcel → Prop
  | between (idle : y.transfer.producer.tasks = []) : Standing buffer y y.calls []
  | within {call : List Task} (underWay : UnderWay buffer call y.transfer.producer.tasks) :
      Standing buffer y (call :: y.calls) []
  | finished (none : buffer = []) (idle : y.transfer.producer.tasks = []) (last : y.calls = []) :
      Standing buffer y [] [.finished]

theorem Standing.congr {z : Exchange} {buffer : Bytes} {rest : List (List Task)}
    {ended : List Parcel} (standing : Standing buffer y rest ended) (calls : z.calls = y.calls)
    (producer : z.transfer.producer = y.transfer.producer) : Standing buffer z rest ended := by
  cases standing with
  | between idle =>
    rw [← calls]
    exact .between (by rw [producer]; exact idle)
  | within underWay =>
    rw [← calls]
    exact .within (by rw [producer]; exact underWay)
  | finished none idle last =>
    exact .finished none (by rw [producer]; exact idle) (calls.trans last)

/-- One exchange becomes another after a call-off between two calls: these calls were answered
meanwhile, and these parcels put into the channel. -/
structure Ceased (x y : Exchange) (answers : List (Except Halt Unit)) (ended : List Parcel) :
    Prop where
  off : y.transfer.calledOff = true
  writer : y.transfer.producer.writer = x.transfer.producer.writer
  outcomes : y.outcomes = x.outcomes ++ answers
  parcels : y.parcels = x.parcels ++ ended
  verdicts : ∀ (i : Nat) outcome, answers[i]? = some outcome → ∃ call, x.calls[i]? = some call ∧
    Verdict x.transfer.producer.writer.buffer call outcome
  standing : Standing x.transfer.producer.writer.buffer y (x.calls.drop answers.length) ended

namespace Ceased

variable {z : Exchange} {requests : List Request} {finishes : Bool}
  {answers : List (Except Halt Unit)} {ended : List Parcel}

theorem start (off : x.transfer.calledOff = true) (between : x.transfer.producer.tasks = []) :
    Ceased x x [] [] where
  off := off
  writer := rfl
  outcomes := (List.append_nil _).symm
  parcels := (List.append_nil _).symm
  verdicts := by
    intro i outcome none
    cases none
  standing := .between between

theorem keep (hs : Ceased x y answers ended) (off : z.transfer.calledOff = true)
    (writer : z.transfer.producer.writer = y.transfer.producer.writer)
    (outcomes : z.outcomes = y.outcomes) (parcels : z.parcels = y.parcels)
    (standing : Standing x.transfer.producer.writer.buffer z (x.calls.drop answers.length) ended) :
    Ceased x z answers ended where
  off := off
  writer := writer.trans hs.writer
  outcomes := outcomes.trans hs.outcomes
  parcels := parcels.trans hs.parcels
  verdicts := hs.verdicts
  standing := standing

theorem answer (hs : Ceased x y answers []) {call : List Task} {rest : List (List Task)}
    (left : x.calls.drop answers.length = call :: rest) {outcome : Except Halt Unit}
    (verdict : Verdict x.transfer.producer.writer.buffer call outcome) {put : List Parcel}
    (off : z.transfer.calledOff = true)
    (writer : z.transfer.producer.writer = y.transfer.producer.writer)
    (outcomes : z.outcomes = y.outcomes ++ [outcome]) (parcels : z.parcels = y.parcels ++ put)
    (standing : Standing x.transfer.producer.writer.buffer z rest put) :
    Ceased x z (answers ++ [outcome]) put where
  off := off
  writer := writer.trans hs.writer
  outcomes := by rw [outcomes, hs.outcomes, List.append_assoc]
  parcels := by rw [parcels, hs.parcels, List.append_nil]
  verdicts := by
    intro i other given
    rcases earlier_or_latest given with given | ⟨rfl, rfl⟩
    · exact hs.verdicts i other given
    · exact ⟨call, by rw [← List.head?_drop, left]; rfl, verdict⟩
  standing := by
    rw [List.length_append, List.length_singleton, ← List.tail_drop, left]
    exact standing

theorem within (hs : Ceased x y answers []) (calls : x.calls = writerCalls requests finishes)
    (h : y.produce? = some z) {call : List Task}
    (left : x.calls.drop answers.length = call :: y.calls)
    (underWay : UnderWay x.transfer.producer.writer.buffer call y.transfer.producer.tasks) :
    ∃ answers ended, Ceased x z answers ended := by
  have mem : call ∈ x.calls := List.mem_of_mem_drop (left ▸ List.mem_cons_self)
  rw [calls] at mem
  have busy : y.transfer.producer.tasks ≠ [] := by
    intro idle
    rw [idle] at underWay
    cases underWay
    rcases mem_writerCalls mem with ⟨_, ⟨⟩⟩ | ⟨⟨⟩⟩ | ⟨⟨⟩⟩
  have step := ceasing_step mem (hs.writer ▸ underWay) y.transfer.channel
  cases turn_of_produce h with
  | begun idle | left idle => exact absurd idle busy
  | worked moved =>
    rw [← hs.off, moved] at step
    cases step with
    | done none =>
      have verdict := Verdict.flush (hs.writer ▸ none)
      exact ⟨_, _, hs.answer left verdict hs.off rfl rfl (List.append_nil _).symm (.between rfl)⟩
    | flushed none =>
      refine ⟨_, _, hs.keep hs.off rfl (List.append_nil _) rfl ?_⟩
      rw [left]
      exact .within (.flushed (hs.writer ▸ none))
    | ended none =>
      have verdict : Verdict x.transfer.producer.writer.buffer [.flush, .finish] (.ok ()) :=
        .finish (hs.writer ▸ none) (by simp)
      have split : writerCalls requests finishes =
          x.calls.take answers.length ++ [.flush, .finish] :: y.calls := by
        rw [← calls, ← left, List.take_append_drop]
      have last := finish_last split
      rw [last] at left
      exact ⟨_, _, hs.answer left verdict hs.off rfl rfl (List.append_assoc _ _ _).symm
        (.finished (hs.writer ▸ none) rfl last)⟩
  | stopped halted =>
    rw [← hs.off, halted] at step
    cases step with
    | stopped verdict =>
      exact ⟨_, _, hs.answer left (hs.writer ▸ verdict) hs.off rfl rfl (List.append_nil _).symm
        (.between rfl)⟩

theorem produce (hs : Ceased x y answers ended) (calls : x.calls = writerCalls requests finishes)
    (h : y.produce? = some z) : ∃ answers ended, Ceased x z answers ended := by
  have standing := hs.standing
  generalize left : x.calls.drop answers.length = rest at standing
  cases standing with
  | within underWay => exact hs.within calls h left underWay
  | between idle =>
    cases turn_of_produce h with
    | begun _ next =>
      refine ⟨_, _, hs.keep hs.off rfl rfl rfl ?_⟩
      rw [left, next]
      exact .within .begun
    | left =>
      refine ⟨_, _, hs.keep hs.off rfl rfl rfl ?_⟩
      rw [left]
      exact .between idle
    | worked moved => exact absurd idle (Producer.busy_of_moved moved)
    | stopped halted => exact absurd idle (Producer.writer_of_halted halted).2
  | finished none idle last =>
    cases turn_of_produce h with
    | begun _ next => cases last.symm.trans next
    | left =>
      refine ⟨_, _, hs.keep hs.off rfl rfl rfl ?_⟩
      rw [left]
      exact .finished none idle last
    | worked moved => exact absurd idle (Producer.busy_of_moved moved)
    | stopped halted => exact absurd idle (Producer.writer_of_halted halted).2

theorem next {e : Event} (hs : Ceased x y answers ended)
    (calls : x.calls = writerCalls requests finishes) (h : y.next? e = some z) :
    ∃ answers ended, Ceased x z answers ended := by
  by_cases produces : e = .produce
  · subst produces
    exact hs.produce calls h
  · obtain ⟨parcels, outcomes, left, producer⟩ := kept_of_ne produces h
    exact ⟨_, _, hs.keep (calledOff_of_next h hs.off) (by rw [producer]) outcomes parcels
      (hs.standing.congr left producer)⟩

theorem execution (off : x.transfer.calledOff = true) (between : x.transfer.producer.tasks = [])
    (calls : x.calls = writerCalls requests finishes) (run : Execution x y) :
    ∃ answers ended, Ceased x y answers ended :=
  run.preserves (P := fun y => ∃ answers ended, Ceased x y answers ended)
    (fun _ _ _ event ⟨_, _, ceased⟩ => ceased.next calls event) ⟨[], [], .start off between⟩

theorem hold_not_mem (hs : Ceased x y answers ended)
    (calls : x.calls = writerCalls requests finishes) : .hold ∉ y.transfer.producer.tasks := by
  have standing := hs.standing
  generalize left : x.calls.drop answers.length = rest at standing
  cases standing with
  | between idle | finished _ idle =>
    rw [idle]
    exact List.not_mem_nil
  | @within call underWay =>
    have mem : call ∈ x.calls := List.mem_of_mem_drop (left ▸ List.mem_cons_self)
    rw [calls] at mem
    generalize y.transfer.producer.tasks = tasks at underWay ⊢
    cases underWay with
    | begun => rcases mem_writerCalls mem with ⟨bytes, same⟩ | same | same <;> simp [same]
    | flushed => simp

end Ceased

/-- How the later calls of a writer are answered that is called off with this much in its buffer,
and what it still puts into the channel. -/
structure Ceases (buffer : Bytes) (later : List Request) (answers : List (Except Halt Unit))
    (ended : List Parcel) : Prop where
  requests : ∀ (i : Nat) request outcome, later[i]? = some request → answers[i]? = some outcome →
    outcome = request.verdict buffer
  finish : ∀ outcome, answers[later.length]? = some outcome →
    (outcome = .error .calledOff ↔ buffer ≠ [])
  /-- No data, and the end marker only when nothing is buffered. -/
  ended : ended = [] ∨ ended = [.finished] ∧ buffer = []

theorem Ceased.ceases {later : List Request} {finishes : Bool}
    {answers : List (Except Halt Unit)} {ended : List Parcel} (hs : Ceased x y answers ended)
    (calls : x.calls = writerCalls later finishes) :
    Ceases x.transfer.producer.writer.buffer later answers ended where
  requests := by
    intro i request outcome called answer
    obtain ⟨call, same, verdict⟩ := hs.verdicts i outcome answer
    have bound := (List.getElem?_eq_some_iff.1 called).1
    rw [calls, writerCalls, List.getElem?_append_left (by rwa [List.length_map]),
      List.getElem?_map, called] at same
    obtain rfl := Option.some.inj same
    cases request with
    | write bytes =>
      cases verdict
      rfl
    | flush =>
      cases verdict with
      | flush none => simp [Request.verdict, none]
      | kept some => simp [Request.verdict, some]
  finish := by
    intro outcome answer
    obtain ⟨call, same, verdict⟩ := hs.verdicts _ outcome answer
    rw [calls, writerCalls, List.getElem?_append_right (by simp)] at same
    cases finishes with
    | false => simp at same
    | true =>
      obtain rfl : [.flush, .finish] = call := by simpa using same
      cases verdict with
      | finish none other => simp [none, other]
      | kept some => simp [some]
  ended := by
    have standing := hs.standing
    generalize x.calls.drop answers.length = rest at standing
    cases standing with
    | between | within => exact .inl rfl
    | finished none => exact .inr ⟨rfl, none⟩

theorem count_finish_writerCalls (requests : List Request) (finishes : Bool) :
    (writerCalls requests finishes).flatten.count .finish = finishes.toNat := by
  induction requests with
  | nil => cases finishes <;> rfl
  | cons request rest ih =>
    have first : request.tasks.count .finish = 0 := by cases request <;> rfl
    rw [← ih, writerCalls, List.map_cons, List.cons_append, List.flatten_cons, List.count_append,
      first, Nat.zero_add]
    rfl

theorem unmarked_of_calls {chunkSize capacity : Nat} {requests later : List Request}
    {finishes : Bool}
    (run : Execution (ofCalls chunkSize (writerCalls requests finishes) capacity) x)
    (calls : x.calls = writerCalls later finishes) : .finished ∉ x.parcels := by
  have le := markers_execution run
  have start : (ofCalls chunkSize (writerCalls requests finishes) capacity).markers =
      finishes.toNat := by
    simp only [markers, parcels, pending, ofCalls, Transfer.ofProduction, Channel.ofCapacity,
      List.append_nil, List.nil_append, List.count_nil, count_finish_writerCalls, Nat.zero_add]
  rw [start, markers, pending, calls, List.count_append, count_finish_writerCalls] at le
  rw [← List.count_eq_zero]
  omega

/-- Whatever was asked of a chunk writer before it is called off and whatever is asked of it then:
it takes no more bytes and sends no more data. If something is buffered, it cannot be finished, and
the output is given up. -/
theorem calledOff_sends_no_data {chunkSize capacity : Nat} {earlier later : List Request}
    {finishes : Bool}
    (before : Execution (ofCalls chunkSize (writerCalls (earlier ++ later) finishes) capacity) x)
    (between : x.transfer.producer.tasks = []) (calls : x.calls = writerCalls later finishes)
    (off : x.transfer.calledOff = true) (after : Execution x y) :
    let buffer := x.transfer.producer.writer.buffer
    ∃ answers ended, y.outcomes = x.outcomes ++ answers ∧ y.parcels = x.parcels ++ ended ∧
      Ceases buffer later answers ended ∧
      (buffer ≠ [] → (∀ bytes count, y.transfer.consumer ≠ .complete bytes count) ∧
        (y.produce? = none → y.transfer.receive? = none → y.transfer.consumer ≠ .dropped →
          y.transfer.consumer = .abandoned)) := by
  intro buffer
  obtain ⟨answers, ended, ceased⟩ := Ceased.execution off between calls after
  have sound := (sound_ofCalls chunkSize _ capacity).execution (before.trans after)
  have ceases := ceased.ceases calls
  refine ⟨answers, ended, ceased.outcomes, ceased.parcels, ceases, fun some => ?_⟩
  have incomplete (bytes : Bytes) (count : Nat) :
      y.transfer.consumer ≠ .complete bytes count := by
    intro complete
    obtain ⟨taken, received, _⟩ := sound.gathered.complete bytes count complete
    have none : ended = [] := ceases.ended.resolve_right fun marked => some marked.2
    have mem : .finished ∈ x.parcels := by
      rw [← List.append_nil x.parcels, ← none, ← ceased.parcels, parcels, received]
      simp
    exact unmarked_of_calls before calls mem
  refine ⟨incomplete, fun produced received there => ?_⟩
  cases consumer : y.transfer.consumer with
  | abandoned => rfl
  | complete bytes count => exact absurd consumer (incomplete bytes count)
  | dropped => exact absurd consumer there
  | collecting bytes count =>
    exact absurd (hold_of_rest produced received consumer) (ceased.hold_not_mem calls)

theorem calledOff_with_buffer :
    let later : List Request := [.write (ascii "2345"), .flush]
    let start := ofCalls 4 (writerCalls ([.write (ascii "01")] ++ later) true) 4
    ∃ x y answers ended, start.after? [.produce, .produce, .produce, .callOff] = some x ∧
      x.after? [.produce, .produce, .produce, .produce, .produce, .produce, .produce, .receive] =
        some y ∧
      y.outcomes = x.outcomes ++ answers ∧ y.parcels = x.parcels ++ ended ∧
      Ceases (ascii "01") later answers ended ∧ y.transfer.consumer = .abandoned := by
  intro later start
  have ends : ((start.after? [.produce, .produce, .produce, .callOff]).bind fun x =>
      (x.after? [.produce, .produce, .produce, .produce, .produce, .produce, .produce,
        .receive]).map fun y =>
        (x.transfer.producer.tasks, x.calls, x.transfer.calledOff,
          x.transfer.producer.writer.buffer, y.transfer.consumer)) =
      some ([], writerCalls later true, true, ascii "01", .abandoned) := by
    decide +kernel
  obtain ⟨x, first, rest⟩ := Option.bind_eq_some_iff.1 ends
  obtain ⟨y, second, facts⟩ := Option.map_eq_some_iff.1 rest
  simp only [Prod.mk.injEq] at facts
  obtain ⟨between, calls, off, buffer, consumer⟩ := facts
  obtain ⟨answers, ended, outcomes, parcels, ceases, _⟩ := calledOff_sends_no_data
    (execution_of_after? first) between calls off (execution_of_after? second)
  exact ⟨x, y, answers, ended, first, second, outcomes, parcels, buffer ▸ ceases, consumer⟩

/-- Nothing is buffered when the work is called off: a write is refused, and yet the writer can be
finished, and what was sent before counts as the whole output. -/
theorem calledOff_with_empty_buffer :
    let later : List Request := [.write (ascii "4567")]
    let start := ofCalls 4 (writerCalls ([.write (ascii "0123")] ++ later) true) 4
    ∃ x y,
      start.after? [.produce, .produce, .produce, .produce, .produce, .callOff] = some x ∧
      x.transfer.producer.tasks = [] ∧ x.calls = writerCalls later true ∧
      x.transfer.calledOff = true ∧
      x.after? [.produce, .produce, .produce, .produce, .produce, .receive, .receive] = some y ∧
      y.outcomes = x.outcomes ++ [.error .calledOff, .ok ()] ∧
      y.parcels = x.parcels ++ [.finished] ∧
      y.transfer.consumer = .complete (ascii "0123") 1 := by
  intro later start
  exact ⟨_, _, rfl, rfl, rfl, rfl, rfl, rfl, rfl, rfl⟩

end Exchange

end Folio.Delivery
