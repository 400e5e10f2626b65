import Folio.Proofs.Delivery.CallOff

/-! # Chunking

How the bytes are written does not show in what is received. Whatever is written, in buffers of any
length and with any flushes between them, goes through in chunks of one size, and nothing that the
two sides do by themselves can refuse a call or keep it waiting for ever.
-/

namespace Folio.Delivery

open ChunkWriter (Request)

def Task.bytes : Task → Bytes
  | .accept bytes => bytes
  | .fill | .flush | .send _ | .finish | .hold => []

def ChunkWriter.Request.bytes : Request → Bytes
  | .write bytes => bytes
  | .flush => []

/-- Bytes cut into chunks of at most one size. As long as nothing is flushed, only the last chunk
may be shorter. -/
structure Cut (size : Nat) (requests : List Request) (bytes : Bytes) (chunks : List Bytes) :
    Prop where
  joined : chunks.flatten = bytes
  bounded : ∀ chunk ∈ chunks, chunk ≠ [] ∧ chunk.length ≤ size
  full : .flush ∉ requests → ∀ chunk ∈ chunks.dropLast, chunk.length = size

theorem flatten_writerCalls (request : Request) (rest : List Request) :
    (writerCalls (request :: rest) true).flatten =
      request.tasks ++ (writerCalls rest true).flatten := rfl

theorem ne_nil_of_mem_writerCalls {requests : List Request} {finishes : Bool} {call : List Task}
    (mem : call ∈ writerCalls requests finishes) : call ≠ [] := by
  rcases mem_writerCalls mem with ⟨bytes, rfl⟩ | rfl | rfl <;> exact List.cons_ne_nil _ _

theorem bytes_take_writerCalls (requests : List Request) (n : Nat) :
    ((writerCalls requests true).take n).flatten.flatMap Task.bytes =
      (requests.take n).flatMap Request.bytes := by
  induction requests generalizing n with
  | nil => rcases n with _ | n <;> simp [writerCalls, Task.bytes]
  | cons request rest ih =>
    cases n with
    | zero => rfl
    | succ n =>
      have first : request.tasks.flatMap Task.bytes = request.bytes := by
        cases request <;> simp [Request.tasks, Request.bytes, Task.bytes]
      have split : (writerCalls (request :: rest) true).take (n + 1) =
          request.tasks :: (writerCalls rest true).take n := rfl
      rw [split, List.flatten_cons, List.flatMap_append, first, ih, List.take_succ_cons,
        List.flatMap_cons]

namespace Producer

/-- Between two requests less than a chunk is buffered. The rest of the requests cuts it, and all
that they write, into chunks. -/
theorem plan_writerCalls (requests : List Request) {w : ChunkWriter}
    (short : w.buffer.length < w.chunkSize) :
    ∃ chunks, Cut w.chunkSize requests (w.buffer ++ requests.flatMap Request.bytes) chunks ∧
      plan ⟨w, (writerCalls requests true).flatten⟩ = chunks.map .data ++ [.finished] := by
  induction requests generalizing w with
  | nil =>
    have ends (v : ChunkWriter) : plan ⟨v, [.finish]⟩ = [.finished] := by
      rw [plan_finish, plan_nil rfl]
    by_cases none : w.buffer = []
    · refine ⟨[], ⟨by simp [none], by simp, by simp⟩, ?_⟩
      exact (plan_flush_nil none _).trans (ends w)
    · refine ⟨[w.buffer], ⟨by simp, ?_, by simp⟩, ?_⟩
      · exact List.forall_mem_singleton.2 ⟨none, Nat.le_of_lt short⟩
      · exact (plan_flush none _).trans (congrArg (Parcel.data w.buffer :: ·) (ends _))
  | cons request rest ih =>
    rw [flatten_writerCalls]
    cases request with
    | write bytes =>
      obtain ⟨front, v, joined, even, same, less, planned⟩ :=
        plan_fill (w.accept bytes) (writerCalls rest true).flatten
      obtain ⟨chunks, cut, later⟩ := ih less
      change ∀ chunk ∈ front, chunk.length = w.chunkSize at even
      replace same : v.chunkSize = w.chunkSize := same
      rw [same] at cut
      refine ⟨front ++ chunks, ⟨?_, ?_, fun unflushed => ?_⟩, ?_⟩
      · rw [List.flatten_append, cut.joined, ← List.append_assoc, joined]
        simp [ChunkWriter.accept, Request.bytes]
      · refine List.forall_mem_append.2 ⟨fun chunk mem => ?_, cut.bounded⟩
        have size := w.chunkSize_pos
        rw [← List.length_pos_iff, even chunk mem]
        exact ⟨size, Nat.le_refl _⟩
      · have unflushed : .flush ∉ rest := fun mem => unflushed (List.mem_cons_of_mem _ mem)
        rw [List.dropLast_append]
        split
        · exact fun chunk mem => even chunk (List.dropLast_subset _ mem)
        · exact List.forall_mem_append.2 ⟨even, cut.full unflushed⟩
      · refine (plan_accept w bytes _).trans (planned.trans ?_)
        rw [later, List.map_append, List.append_assoc]
    | flush =>
      by_cases none : w.buffer = []
      · obtain ⟨chunks, cut, later⟩ := ih short
        refine ⟨chunks, ⟨cut.joined, cut.bounded, ?_⟩, (plan_flush_nil none _).trans later⟩
        exact fun unflushed => absurd List.mem_cons_self unflushed
      · have emptied : (w.dropFirst w.buffer.length).buffer = [] := List.drop_length
        obtain ⟨chunks, cut, later⟩ :=
          @ih (w.dropFirst w.buffer.length) (by rw [emptied]; exact w.chunkSize_pos)
        rw [emptied] at cut
        refine ⟨w.buffer :: chunks, ⟨?_, ?_, ?_⟩, ?_⟩
        · rw [List.flatten_cons, cut.joined]
          rfl
        · exact List.forall_mem_cons.2 ⟨⟨none, Nat.le_of_lt short⟩, cut.bounded⟩
        · exact fun unflushed => absurd List.mem_cons_self unflushed
        · exact (plan_flush none _).trans (congrArg (Parcel.data w.buffer :: ·) later)

theorem step_append {p next : Producer} {calledOff : Bool} {c channel : Channel}
    (moved : p.step calledOff c = .moved next channel) (later : List Task) :
    step ⟨p.writer, p.tasks ++ later⟩ calledOff c =
      .moved ⟨next.writer, next.tasks ++ later⟩ channel := by
  have course := p.course calledOff c
  rw [moved] at course
  cases course with
  | accepted on => simp [step, on]
  | filled short => simp [step, short]
  | cut full on => simp [step, Nat.not_lt.2 full, on]
  | flushed none => simp [step, none]
  | emptied some on => simp [step, some, on]
  | nothing => rfl
  | put puts opened room =>
    refine (step_of_puts puts _).trans ?_
    simp [Channel.offer, opened, room, handOver]

theorem written_of_moved {p next : Producer} {calledOff : Bool} {c channel : Channel}
    (moved : p.step calledOff c = .moved next channel) :
    next.writer.written + (next.tasks.flatMap Task.bytes).length =
      p.writer.written + (p.tasks.flatMap Task.bytes).length := by
  have course := p.course calledOff c
  rw [moved] at course
  cases course with
  | accepted =>
    simp only [ChunkWriter.accept, List.flatMap_cons, Task.bytes, List.length_append,
      List.length_nil]
    omega
  | @put w task rest parcel puts =>
    have none : task.bytes = [] := by
      cases task with
      | accept => cases puts
      | fill | flush | send | finish | hold => rfl
    simp [none]
  | filled | cut | flushed | emptied | nothing => simp [Task.bytes, ChunkWriter.dropFirst]

theorem hold_not_mem_of_moved {p next : Producer} {calledOff : Bool} {c channel : Channel}
    (moved : p.step calledOff c = .moved next channel) (unheld : .hold ∉ p.tasks) :
    .hold ∉ next.tasks := by
  have course := p.course calledOff c
  rw [moved] at course
  cases course with
  | accepted | filled | cut | flushed | emptied | nothing | put => simp_all

theorem weight_lt_append (w : ChunkWriter) {tasks : List Task} (some : tasks ≠ [])
    (later : List Task) : weight ⟨w, later⟩ < weight ⟨w, tasks ++ later⟩ := by
  induction tasks with
  | nil => exact absurd rfl some
  | cons task rest ih =>
    have pos := cost_pos task
    rw [List.cons_append, weight_cons]
    by_cases none : rest = []
    · rw [none, List.nil_append]
      omega
    · have lt := ih none
      omega

end Producer

inductive Event.Own : Event → Prop
  | produce : Own .produce
  | receive : Own .receive

namespace Exchange

variable {x y : Exchange}

def ahead (x : Exchange) : Producer := ⟨x.transfer.producer.writer, x.pending⟩

theorem pending_begun (idle : x.transfer.producer.tasks = []) {call : List Task}
    {rest : List (List Task)} (next : x.calls = call :: rest) :
    (x.begun call rest).pending = x.pending := by
  rw [pending, pending, idle, next]
  rfl

/-- How an exchange stands whose producer serves calls that nobody disturbs. -/
structure Serving (plan : List Parcel) (calls : List (List Task)) (x : Exchange) : Prop where
  planned : x.parcels ++ x.ahead.plan = plan
  ok : ∀ outcome ∈ x.outcomes, outcome = .ok ()
  position : ∃ done, calls = done ++ x.calls ∧
    done.length = x.outcomes.length + if x.transfer.producer.tasks = [] then 0 else 1
  written : x.transfer.producer.writer.written + (x.pending.flatMap Task.bytes).length =
    (calls.flatten.flatMap Task.bytes).length
  unheld : .hold ∉ x.pending

theorem undisturbed_of_next (calm : x.transfer.Undisturbed) {e : Event} (own : e.Own)
    (h : x.next? e = some y) : y.transfer.Undisturbed := by
  cases own with
  | produce =>
    cases turn_of_produce h with
    | begun | left | worked | stopped => exact calm
  | receive =>
    obtain ⟨t, event, rfl⟩ := Option.map_eq_some_iff.1 h
    exact calm.receive event

/-- How many events the two sides can still cause. -/
def weight (x : Exchange) : Nat :=
  ({ x.transfer with producer := x.ahead } : Transfer).weight + x.calls.length

theorem weight_lt_of_next {e : Event} (own : e.Own) (h : x.next? e = some y) :
    y.weight < x.weight := by
  cases own with
  | produce =>
    cases turn_of_produce h with
    | begun idle next =>
      simp only [weight, ahead, pending_begun idle next]
      rw [next]
      exact Nat.lt_succ_self _
    | left idle none sending =>
      simp only [weight, Transfer.weight, left, Channel.close, sending, ahead, pending,
        Bool.toNat_false, Bool.toNat_true]
      omega
    | worked moved =>
      have lt := Producer.weight_lt_of_moved (Producer.step_append moved x.calls.flatten)
      obtain ⟨le, sending⟩ := Producer.length_queue_of_moved moved
      simp only [weight, Transfer.weight, worked, sending, ahead, pending]
      omega
    | stopped halted =>
      obtain ⟨rfl, busy⟩ := Producer.writer_of_halted halted
      have lt := Producer.weight_lt_append x.transfer.producer.writer busy x.calls.flatten
      simp only [weight, Transfer.weight, stopped, ahead, pending, List.nil_append] at lt ⊢
      omega
  | receive =>
    obtain ⟨t, event, rfl⟩ := Option.map_eq_some_iff.1 h
    obtain ⟨⟨consumer, channel⟩, stepped, rfl⟩ := Option.map_eq_some_iff.1 event
    have lt : ({ x.transfer with producer := x.ahead, consumer, channel } : Transfer).weight <
        ({ x.transfer with producer := x.ahead } : Transfer).weight :=
      Transfer.weight_lt_of_receive (by simp [Transfer.receive?, stepped])
    exact Nat.add_lt_add_right lt _

theorem length_le_weight {events : List Event} (own : ∀ e ∈ events, e.Own)
    (reached : x.after? events = some y) : events.length ≤ x.weight := by
  induction events generalizing x with
  | nil => exact Nat.zero_le _
  | cons e rest ih =>
    obtain ⟨first, others⟩ := List.forall_mem_cons.1 own
    obtain ⟨z, event, later⟩ := Option.bind_eq_some_iff.1 reached
    exact Nat.lt_of_le_of_lt (ih others later) (weight_lt_of_next first event)

namespace Serving

variable {plan : List Parcel} {calls : List (List Task)} {capacity : Nat}

theorem start (chunkSize capacity : Nat) {calls : List (List Task)}
    (unheld : .hold ∉ calls.flatten) :
    Serving (Producer.plan ⟨.ofSize chunkSize, calls.flatten⟩) calls
      (ofCalls chunkSize calls capacity) where
  planned := rfl
  ok := by
    intro outcome none
    cases none
  position := ⟨[], rfl, rfl⟩
  written := Nat.zero_add _
  unheld := unheld

theorem begun (hs : Serving plan calls x) (proper : ∀ call ∈ calls, call ≠ [])
    (idle : x.transfer.producer.tasks = []) {call : List Task} {rest : List (List Task)}
    (next : x.calls = call :: rest) : Serving plan calls (x.begun call rest) := by
  have same := pending_begun idle next
  obtain ⟨done, split, length⟩ := hs.position
  rw [next] at split
  refine ⟨?_, hs.ok, ⟨done ++ [call], ?_, ?_⟩, ?_, ?_⟩
  · rw [ahead, same]
    exact hs.planned
  · rw [split, List.append_assoc]
    rfl
  · have busy : call ≠ [] := proper call (by rw [split]; simp)
    rw [if_pos idle] at length
    rw [List.length_append, length]
    exact congrArg (x.outcomes.length + ·) (if_neg busy).symm
  · rw [same]
    exact hs.written
  · rw [same]
    exact hs.unheld

theorem worked (hs : Serving plan calls x) {producer : Producer} {channel : Channel}
    (moved : x.transfer.producer.step x.transfer.calledOff x.transfer.channel =
      .moved producer channel) : Serving plan calls (x.worked producer channel) := by
  have busy := Producer.busy_of_moved moved
  have whole := Producer.step_append moved x.calls.flatten
  obtain ⟨put, queue, planned⟩ := Producer.plan_of_moved whole
  obtain ⟨done, split, length⟩ := hs.position
  rw [if_neg busy] at length
  refine ⟨?_, ?_, ⟨done, split, ?_⟩, (Producer.written_of_moved whole).trans hs.written,
    Producer.hold_not_mem_of_moved whole hs.unheld⟩
  · have parcels : (x.worked producer channel).parcels = x.parcels ++ put := by
      rw [queue]
      exact (List.append_assoc _ _ _).symm
    have first : x.ahead.plan = put ++ (x.worked producer channel).ahead.plan := planned
    rw [← hs.planned, parcels, first, List.append_assoc]
  · refine List.forall_mem_append.2 ⟨hs.ok, fun outcome mem => ?_⟩
    split at mem
    · exact List.mem_singleton.1 mem
    · cases mem
  · show done.length = (x.outcomes ++ _).length + if producer.tasks = [] then 0 else 1
    rw [length]
    by_cases served : producer.tasks = []
    · simp [served]
    · simp [served]

theorem not_halted (hs : Serving plan calls x) (sound : Sound capacity x) {chunks : List Bytes}
    (ends : plan = chunks.map .data ++ [.finished]) (calm : x.transfer.Undisturbed) {why : Halt}
    {writer : ChunkWriter} : x.transfer.producer.step x.transfer.calledOff x.transfer.channel ≠
      .halted why writer := by
  intro halted
  have there := sound.sending_of_tasks (Producer.writer_of_halted halted).2
  have course := x.transfer.producer.course x.transfer.calledOff x.transfer.channel
  rw [halted] at course
  have planned := hs.planned
  rw [ahead, pending, ends] at planned
  generalize x.transfer.producer = p at course planned
  cases course with
  | stopped _ flag => cases flag.symm.trans calm.1
  | @refused w task rest parcel puts gone =>
    rw [sound.receiving] at gone
    cases consumer : x.transfer.consumer with
    | collecting =>
      rw [consumer] at gone
      cases gone
    | dropped => exact calm.2 consumer
    | abandoned => exact sound.not_abandoned there consumer
    | complete bytes count =>
      -- The consumer has met the end marker, so nothing more is planned.
      obtain ⟨taken, received, _⟩ := sound.gathered.complete bytes count consumer
      rw [parcels, received, List.append_assoc] at planned
      have whole := eq_of_map_data_finished ⟨_, planned⟩
      rw [whole, List.append_right_eq_self, List.append_eq_nil_iff] at planned
      rw [List.cons_append, Producer.plan_of_puts puts] at planned
      cases planned.2

theorem produce (hs : Serving plan calls x) (sound : Sound capacity x) {chunks : List Bytes}
    (ends : plan = chunks.map .data ++ [.finished]) (proper : ∀ call ∈ calls, call ≠ [])
    (calm : x.transfer.Undisturbed) (h : x.produce? = some y) : Serving plan calls y := by
  cases turn_of_produce h with
  | begun idle next => exact hs.begun proper idle next
  | left => exact ⟨hs.planned, hs.ok, hs.position, hs.written, hs.unheld⟩
  | worked moved => exact hs.worked moved
  | stopped halted => exact absurd halted (hs.not_halted sound ends calm)

theorem next {e : Event} (hs : Serving plan calls x) (sound : Sound capacity x)
    {chunks : List Bytes} (ends : plan = chunks.map .data ++ [.finished])
    (proper : ∀ call ∈ calls, call ≠ []) (calm : x.transfer.Undisturbed) (h : x.next? e = some y) :
    Serving plan calls y := by
  by_cases produces : e = .produce
  · subst produces
    exact hs.produce sound ends proper calm h
  · obtain ⟨parcels, outcomes, left, producer⟩ := kept_of_ne produces h
    have same : y.ahead = x.ahead := by rw [ahead, ahead, pending, pending, left, producer]
    refine ⟨?_, ?_, ?_, ?_, ?_⟩
    · rw [parcels, same]
      exact hs.planned
    · rw [outcomes]
      exact hs.ok
    · rw [outcomes, left, producer]
      exact hs.position
    · rw [pending, left, producer]
      exact hs.written
    · rw [pending, left, producer]
      exact hs.unheld

theorem rest (hs : Serving plan calls x) (sound : Sound capacity x)
    (produced : x.produce? = none) (received : x.transfer.receive? = none) :
    x.outcomes.length = calls.length ∧ x.parcels = plan := by
  -- A consumer that gathers is at rest only before an empty channel.
  have empty (opened : x.transfer.channel.receiving = true) : x.transfer.channel.queue = [] := by
    rw [sound.receiving] at opened
    cases consumer : x.transfer.consumer with
    | collecting => exact (Transfer.queue_of_receive_eq_none received consumer).1
    | complete | abandoned | dropped =>
      rw [consumer] at opened
      cases opened
  have unheld : .hold ∉ x.transfer.producer.tasks :=
    fun held => hs.unheld (List.mem_append_left _ held)
  obtain ⟨idle, none, _⟩ := (rest_of_produce produced empty).resolve_left unheld
  obtain ⟨done, split, length⟩ := hs.position
  constructor
  · rw [split, none, List.append_nil, length, if_pos idle]
    rfl
  · have nothing : x.ahead.plan = [] := Producer.plan_nil (by simp [ahead, pending, idle, none])
    rw [← hs.planned, nothing, List.append_nil]

theorem after? (hs : Serving plan calls x) (sound : Sound capacity x) {chunks : List Bytes}
    (ends : plan = chunks.map .data ++ [.finished]) (proper : ∀ call ∈ calls, call ≠ [])
    (calm : x.transfer.Undisturbed) {events : List Event} (own : ∀ e ∈ events, e.Own)
    (reached : x.after? events = some y) : Serving plan calls y ∧ Sound capacity y := by
  induction events generalizing x with
  | nil =>
    obtain rfl := Option.some.inj reached
    exact ⟨hs, sound⟩
  | cons e rest ih =>
    obtain ⟨first, others⟩ := List.forall_mem_cons.1 own
    obtain ⟨z, event, later⟩ := Option.bind_eq_some_iff.1 reached
    exact ih (hs.next sound ends proper calm event) (sound.next event)
      (undisturbed_of_next calm first event) others later

end Serving

/-- What a writer and a consumer can rely on as long as nobody disturbs them. -/
structure Transparent (requests : List Request) (chunks : List Bytes) (x : Exchange) : Prop where
  ok : ∀ outcome ∈ x.outcomes, outcome = .ok ()
  in_order : x.parcels <+: chunks.map .data ++ [.finished]
  /-- Between two calls the position is the number of bytes written by the calls that are over. -/
  position : x.transfer.producer.tasks = [] → x.transfer.producer.writer.written =
    ((requests.take x.outcomes.length).flatMap Request.bytes).length
  rest : x.produce? = none → x.transfer.receive? = none →
    x.outcomes.length = requests.length + 1 ∧ x.parcels = chunks.map .data ++ [.finished]

/-- Whatever is written, with any flushes in between, and then finished: there are chunks of at most
one size, all but the last of that size if nothing is flushed, that join to the bytes written. No
call is refused, these chunks and then the end marker are what goes through the channel, and after
so many events all calls are over and all of it is through. -/
theorem writes_pass_in_chunks (chunkSize capacity : Nat) (requests : List Request) :
    let start := ofCalls chunkSize (writerCalls requests true) capacity
    ∃ chunks bound,
      Cut (max chunkSize 1) requests (requests.flatMap Request.bytes) chunks ∧
      ∀ events x, (∀ e ∈ events, e.Own) → start.after? events = some x →
        events.length ≤ bound ∧ x.Transparent requests chunks := by
  intro start
  obtain ⟨chunks, cut, planned⟩ := Producer.plan_writerCalls requests
    (w := .ofSize chunkSize) (Channel.max_one_pos chunkSize)
  refine ⟨chunks, start.weight, cut, fun events x own reached => ?_⟩
  refine ⟨length_le_weight own reached, ?_⟩
  have unheld : .hold ∉ (writerCalls requests true).flatten := by
    intro held
    obtain ⟨call, listed, mem⟩ := List.mem_flatten.1 held
    rcases mem_writerCalls listed with ⟨bytes, rfl⟩ | rfl | rfl <;> simp at mem
  obtain ⟨hs, sound⟩ := (Serving.start chunkSize capacity unheld).after?
    (sound_ofCalls chunkSize _ capacity) planned (fun _ => ne_nil_of_mem_writerCalls)
    ⟨rfl, Completion.noConfusion⟩ own reached
  rw [planned] at hs
  constructor
  · exact hs.ok
  · exact ⟨_, hs.planned⟩
  · intro idle
    obtain ⟨done, split, length⟩ := hs.position
    rw [if_pos idle, Nat.add_zero] at length
    have answered : (writerCalls requests true).take x.outcomes.length = done := by
      rw [split, List.take_left' length]
    have written := hs.written
    rw [split, pending, idle, List.nil_append, List.flatten_append, List.flatMap_append,
      List.length_append] at written
    rw [← bytes_take_writerCalls, answered]
    omega
  · intro produced received
    obtain ⟨answered, whole⟩ := hs.rest sound produced received
    exact ⟨answered.trans (by simp [writerCalls]), whole⟩

theorem writes_pass_in_chunks_of_four :
    let requests : List Request :=
      [.write (ascii "012345"), .flush, .write [], .write (ascii "abcd")]
    let taken (n : Nat) : List Event := List.replicate n .produce ++ [.receive]
    ∃ chunks x,
      (ofCalls 4 (writerCalls requests true) 1).after? (taken 7 ++ taken 7 ++ taken 4 ++ taken 2) =
        some x ∧
      Cut 4 requests (ascii "012345abcd") chunks ∧ x.Transparent requests chunks ∧
      x.outcomes.length = 5 ∧ x.transfer.consumer = .complete (ascii "012345abcd") 3 := by
  intro requests taken
  have ends : ((ofCalls 4 (writerCalls requests true) 1).after?
      (taken 7 ++ taken 7 ++ taken 4 ++ taken 2)).map
        (fun x => (x.outcomes.length, x.transfer.consumer)) =
          some (5, .complete (ascii "012345abcd") 3) := by
    decide +kernel
  obtain ⟨x, reached, final⟩ := Option.map_eq_some_iff.1 ends
  obtain ⟨answered, consumer⟩ := Prod.mk.inj final
  obtain ⟨chunks, bound, cut, passes⟩ := writes_pass_in_chunks 4 1 requests
  have own (n : Nat) : ∀ e ∈ taken n, e.Own := by
    refine List.forall_mem_append.2 ⟨fun e mem => ?_, List.forall_mem_singleton.2 .receive⟩
    obtain ⟨-, rfl⟩ := List.mem_replicate.1 mem
    exact .produce
  have moves := List.forall_mem_append.2 ⟨List.forall_mem_append.2 ⟨List.forall_mem_append.2
    ⟨own 7, own 7⟩, own 4⟩, own 2⟩
  exact ⟨chunks, x, reached, cut, (passes _ x moves reached).2, answered, consumer⟩

end Exchange

end Folio.Delivery
