import Folio.Proofs.Delivery.Plan
import Folio.Proofs.Pdf.Emission

/-! # Streaming

What a consumer gathers follows the plan of the producer, in every order of events. A transfer
that is called off, or whose consumer goes away, leaves the rest of the plan undone; the end
marker is the last parcel of a plan, so nothing but the whole output ever counts as complete.
-/

namespace Folio.Delivery

/-- The bytes that a consumer holds. What it gave up it does not hold. -/
def Completion.held : Completion → Bytes
  | .collecting bytes _ | .complete bytes _ => bytes
  | .abandoned | .dropped => []

namespace Producer

theorem cause_of_halted {p : Producer} {calledOff : Bool} {c : Channel} {why : Halt}
    {writer : ChunkWriter} (h : p.step calledOff c = .halted why writer) :
    calledOff = true ∨ c.receiving = false := by
  have course := p.course calledOff c
  rw [h] at course
  cases course with
  | stopped _ flag => exact .inl flag
  | refused _ gone => exact .inr gone

theorem cause_of_blocked {p : Producer} {calledOff : Bool} {c : Channel}
    (h : p.step calledOff c = .blocked) : c.queue ≠ [] ∨ p.plan = [] := by
  have course := p.course calledOff c
  rw [h] at course
  cases course with
  | crowded _ _ full =>
    have room := c.capacity_pos
    exact .inl (List.ne_nil_of_length_pos (by omega))
  | held => exact .inr (plan_hold _ _)

theorem step_eq_idle_iff {p : Producer} {calledOff : Bool} {c : Channel} :
    p.step calledOff c = .idle ↔ p.tasks = [] := by
  constructor
  · intro h
    have course := p.course calledOff c
    rw [h] at course
    cases course
    rfl
  · intro done
    obtain ⟨w, tasks⟩ := p
    cases done
    rfl

end Producer

namespace Transfer

/-- Nobody has called the work off, and the consumer has not gone away early. -/
def Undisturbed (t : Transfer) : Prop := t.calledOff = false ∧ t.consumer ≠ .dropped

/-- How a transfer stands to a plan. Parcels are taken from the front of the plan, and as long as
nothing is called off none of them is lost. -/
structure Follows (plan : List Parcel) (t : Transfer) : Prop where
  receiving : t.channel.receiving = t.consumer.isCollecting
  closed : t.channel.sending = false → t.producer.tasks = []
  collecting : ∀ bytes chunks, t.consumer = .collecting bytes chunks →
    ∃ taken : List Bytes, taken.flatten = bytes ∧
      taken.map .data ++ t.channel.queue ++ t.producer.plan <+: plan ∧
      (t.calledOff = false → taken.map .data ++ t.channel.queue ++ t.producer.plan = plan)
  complete : ∀ bytes chunks, t.consumer = .complete bytes chunks →
    ∃ taken : List Bytes, taken.flatten = bytes ∧ taken.map .data ++ [.finished] <+: plan
  abandoned : t.consumer = .abandoned → t.calledOff = false →
    ∃ taken : List Bytes, taken.map .data = plan

theorem follows_start (production : Production) (capacity : Nat) :
    Follows (Producer.plan ⟨.ofSize production.chunkSize, production.tasks⟩)
      (ofProduction production capacity) where
  receiving := rfl
  closed h := by cases h
  collecting bytes chunks h := by
    injection h with h _
    exact ⟨[], h, List.prefix_refl _, fun _ => rfl⟩
  complete bytes chunks h := by cases h
  abandoned h := by cases h

variable {plan : List Parcel} {t u : Transfer}

theorem Follows.produce (hs : Follows plan t) (h : t.produce? = some u) : Follows plan u := by
  unfold produce? at h
  split at h
  · rename_i next channel moved
    cases h
    obtain ⟨put, rfl, planned⟩ := Producer.plan_of_moved moved
    refine ⟨hs.receiving, ?_, ?_, hs.complete, hs.abandoned⟩
    · intro closed
      rw [Producer.step_eq_idle_iff.2 (hs.closed closed)] at moved
      cases moved
    · intro bytes chunks collecting
      have start := hs.collecting bytes chunks collecting
      simpa only [planned, List.append_assoc] using start
  · cases h
  · rename_i why writer halted
    cases h
    refine ⟨hs.receiving, fun _ => rfl, ?_, hs.complete, hs.abandoned⟩
    intro bytes chunks collecting
    obtain ⟨taken, joined, front, whole⟩ := hs.collecting bytes chunks collecting
    refine ⟨taken, joined, ?_, ?_⟩
    · rw [Producer.plan_nil rfl, List.append_nil]
      exact (List.prefix_append _ _).trans front
    · intro on
      change t.consumer = _ at collecting
      rcases Producer.cause_of_halted halted with off | gone
      · cases off.symm.trans on
      · rw [hs.receiving, collecting] at gone
        cases gone
  · rename_i idle
    split at h
    · cases h
      exact ⟨hs.receiving, fun _ => Producer.step_eq_idle_iff.1 idle, hs.collecting, hs.complete,
        hs.abandoned⟩
    · cases h

theorem receive_cases (h : t.receive? = some u) :
    ∃ bytes chunks, t.consumer = .collecting bytes chunks ∧
      ((∃ chunk rest, t.channel.queue = .data chunk :: rest ∧
          u = { t with
            channel := { t.channel with queue := rest }
            consumer := .collecting (bytes ++ chunk) (chunks + 1) }) ∨
        (∃ rest, t.channel.queue = .finished :: rest ∧
          u = { t with
            channel := { t.channel with queue := rest }.hangUp
            consumer := .complete bytes chunks }) ∨
        (t.channel.queue = [] ∧ t.channel.sending = false ∧
          u = { t with channel := t.channel.hangUp, consumer := .abandoned })) := by
  obtain ⟨producer, channel, consumer, calledOff⟩ := t
  cases consumer with
  | collecting bytes chunks =>
    refine ⟨bytes, chunks, rfl, ?_⟩
    simp only [receive?, Completion.step?] at h
    split at h
    · rename_i chunk rest queue
      cases h
      exact .inl ⟨chunk, rest, queue, rfl⟩
    · rename_i rest queue
      cases h
      exact .inr (.inl ⟨rest, queue, rfl⟩)
    · rename_i queue
      split at h
      · cases h
      · rename_i closed
        cases h
        exact .inr (.inr ⟨queue, by simpa using closed, rfl⟩)
  | complete bytes chunks => cases h
  | abandoned => cases h
  | dropped => cases h

theorem Follows.receive (hs : Follows plan t) (h : t.receive? = some u) : Follows plan u := by
  obtain ⟨bytes, chunks, consumer, met⟩ := receive_cases h
  obtain ⟨taken, joined, front, whole⟩ := hs.collecting bytes chunks consumer
  rcases met with ⟨chunk, rest, queue, rfl⟩ | ⟨rest, queue, rfl⟩ | ⟨queue, closed, rfl⟩
  · rw [queue] at front whole
    refine ⟨?_, hs.closed, ?_, ?_, ?_⟩
    · simp only [hs.receiving, consumer, Completion.isCollecting]
    · rintro _ _ ⟨⟩
      refine ⟨taken ++ [chunk], by simp [joined], ?_, ?_⟩
      · simpa using front
      · simpa using whole
    · intro _ _ complete
      cases complete
    · intro abandoned
      cases abandoned
  · rw [queue] at front
    refine ⟨rfl, hs.closed, ?_, ?_, ?_⟩
    · intro _ _ collecting
      cases collecting
    · rintro _ _ ⟨⟩
      refine ⟨taken, joined, List.IsPrefix.trans ?_ front⟩
      exact ⟨rest ++ t.producer.plan, by simp⟩
    · intro abandoned
      cases abandoned
  · refine ⟨rfl, hs.closed, ?_, ?_, ?_⟩
    · intro _ _ collecting
      cases collecting
    · intro _ _ complete
      cases complete
    · intro _ on
      have done := Producer.plan_nil (hs.closed closed)
      refine ⟨taken, ?_⟩
      simpa [queue, done] using whole on

theorem Follows.next {e : Event} (hs : Follows plan t) (h : t.next? e = some u) :
    Follows plan u := by
  cases e with
  | produce => exact hs.produce h
  | receive => exact hs.receive h
  | callOff =>
    cases h
    refine ⟨hs.receiving, hs.closed, ?_, hs.complete, fun _ on => by cases on⟩
    intro bytes chunks collecting
    obtain ⟨taken, joined, front, _⟩ := hs.collecting bytes chunks collecting
    exact ⟨taken, joined, front, fun on => by cases on⟩
  | hangUp =>
    simp only [next?] at h
    split at h
    · cases h
      refine ⟨rfl, hs.closed, ?_, ?_, ?_⟩
      · intro bytes chunks collecting
        cases collecting
      · intro bytes chunks complete
        cases complete
      · intro abandoned
        cases abandoned
    · cases h

theorem Follows.execution (hs : Follows plan t) (run : Execution t u) : Follows plan u := by
  induction run with
  | refl => exact hs
  | tail _ h ih => exact ih.next h

theorem queue_of_receive_eq_none (h : t.receive? = none) {bytes : Bytes} {chunks : Nat}
    (consumer : t.consumer = .collecting bytes chunks) :
    t.channel.queue = [] ∧ t.channel.sending = true := by
  simp only [receive?, Option.map_eq_none_iff, consumer, Completion.step?] at h
  split at h
  · cases h
  · cases h
  · rename_i queue
    split at h
    · exact ⟨queue, ‹_›⟩
    · cases h

theorem plan_of_produce_eq_none (h : t.produce? = none) (sending : t.channel.sending = true) :
    t.channel.queue ≠ [] ∨ t.producer.plan = [] := by
  unfold produce? at h
  split at h
  · cases h
  · exact Producer.cause_of_blocked ‹_›
  · cases h
  · rw [if_pos sending] at h
    cases h

theorem advance_eq_none_iff : t.advance? = none ↔ t.produce? = none ∧ t.receive? = none := by
  unfold advance?
  cases t.produce? <;> simp

theorem move_of_advance (h : t.advance? = some u) :
    t.produce? = some u ∨ t.receive? = some u := by
  unfold advance? at h
  split at h
  · rename_i produced
    exact .inl (produced.trans h)
  · exact .inr h

/-- At rest, an undisturbed consumer has been through a plan with an end marker. -/
theorem Follows.rest (hs : Follows plan t) (ends : .finished ∈ plan)
    (rest : t.advance? = none) (calm : t.Undisturbed) :
    ∃ bytes chunks, t.consumer = .complete bytes chunks := by
  obtain ⟨on, there⟩ := calm
  have unmarked (taken : List Bytes) : taken.map .data ≠ plan := by
    intro whole
    simp [← whole] at ends
  obtain ⟨noProduce, noReceive⟩ := advance_eq_none_iff.1 rest
  cases consumer : t.consumer with
  | complete bytes chunks => exact ⟨bytes, chunks, rfl⟩
  | dropped => exact absurd consumer there
  | abandoned =>
    obtain ⟨taken, whole⟩ := hs.abandoned consumer on
    exact absurd whole (unmarked taken)
  | collecting bytes chunks =>
    obtain ⟨taken, _, _, whole⟩ := hs.collecting bytes chunks consumer
    obtain ⟨queue, sending⟩ := queue_of_receive_eq_none noReceive consumer
    have done := (plan_of_produce_eq_none noProduce sending).resolve_left (absurd queue)
    exact absurd (by simpa [queue, done] using whole on) (unmarked taken)

theorem advance_settled (t : Transfer) : t.settled.advance? = none := by
  rw [settled]
  split
  · assumption
  · exact advance_settled _
  termination_by t.weight
  decreasing_by exact weight_lt_of_advance ‹_›

theorem settled_keeps {P : Transfer → Prop} (move : ∀ t u, t.advance? = some u → P t → P u)
    (t : Transfer) (h : P t) : P t.settled := by
  rw [settled]
  split
  · exact h
  · rename_i u advanced
    exact settled_keeps move u (move t u advanced h)
  termination_by t.weight
  decreasing_by exact weight_lt_of_advance ‹_›

theorem execution_settled (t : Transfer) : Execution t t.settled := by
  refine settled_keeps (fun u v advanced run => ?_) t (.refl t)
  rcases move_of_advance advanced with produced | received
  · exact .tail (e := .produce) run produced
  · exact .tail (e := .receive) run received

theorem Undisturbed.produce (hs : t.Undisturbed) (h : t.produce? = some u) : u.Undisturbed := by
  unfold produce? at h
  split at h
  · cases h
    exact hs
  · cases h
  · cases h
    exact hs
  · split at h
    · cases h
      exact hs
    · cases h

theorem Undisturbed.receive (hs : t.Undisturbed) (h : t.receive? = some u) : u.Undisturbed := by
  obtain ⟨_, _, _, met⟩ := receive_cases h
  rcases met with ⟨_, _, _, rfl⟩ | ⟨_, _, rfl⟩ | ⟨_, _, rfl⟩
  · exact ⟨hs.1, Completion.noConfusion⟩
  · exact ⟨hs.1, Completion.noConfusion⟩
  · exact ⟨hs.1, Completion.noConfusion⟩

theorem Undisturbed.settled (hs : t.Undisturbed) : t.settled.Undisturbed :=
  settled_keeps (fun _ _ advanced h => (move_of_advance advanced).elim h.produce h.receive) t hs

end Transfer

theorem prefix_of_map_data {taken chunks : List Bytes}
    (h : taken.map Parcel.data <+: chunks.map .data ++ [.finished]) : taken <+: chunks := by
  induction taken generalizing chunks with
  | nil => exact List.nil_prefix
  | cons first rest ih =>
    cases chunks with
    | nil => simp at h
    | cons chunk chunks =>
      simp only [List.map_cons, List.cons_append, List.cons_prefix_cons, Parcel.data.injEq] at h
      exact List.cons_prefix_cons.2 ⟨h.1, ih h.2⟩

theorem eq_of_map_data_finished {taken chunks : List Bytes}
    (h : taken.map Parcel.data ++ [.finished] <+: chunks.map .data ++ [.finished]) :
    taken = chunks := by
  obtain ⟨rest, rfl⟩ := prefix_of_map_data ((List.prefix_append _ _).trans h)
  rw [List.map_append, List.append_assoc, List.prefix_append_right_inj] at h
  cases rest with
  | nil => rw [List.append_nil]
  | cons chunk rest => simp at h

theorem flatten_prefix {taken chunks : List Bytes} (h : taken <+: chunks) :
    taken.flatten <+: chunks.flatten := by
  obtain ⟨rest, rfl⟩ := h
  exact ⟨rest.flatten, List.flatten_append.symm⟩

/-- A document that is sent in pieces, however it is cut into them, is received as it is written
to memory: what is held at any time begins it, what is complete is all of it, and it does become
complete when nobody interferes. -/
theorem streamed_document_whole (d : Pdf.Document) (chunkSize capacity : Nat)
    (pieces : List Bytes) (cut : pieces.flatten = d.bytes) {t : Transfer}
    (run : Transfer.Execution
      (.ofProduction (.ofPieces chunkSize pieces) capacity) t) :
    t.consumer.held <+: d.bytes ∧
    (∀ bytes chunks, t.consumer = .complete bytes chunks → bytes = d.bytes) ∧
    (t.advance? = none → t.Undisturbed → ∃ chunks, t.consumer = .complete d.bytes chunks) := by
  obtain ⟨whole, joined, planned⟩ := Producer.plan_pieces (.ofSize chunkSize) pieces
  have follows := (Transfer.follows_start _ capacity).execution run
  replace joined : whole.flatten = d.bytes := joined.trans cut
  change Transfer.Follows (Producer.plan ⟨.ofSize chunkSize, _⟩) t at follows
  simp only [Production.ofPieces, planned] at follows
  have complete (bytes : Bytes) (chunks : Nat) (h : t.consumer = .complete bytes chunks) :
      bytes = d.bytes := by
    obtain ⟨taken, flat, front⟩ := follows.complete bytes chunks h
    rw [← flat, eq_of_map_data_finished front, joined]
  refine ⟨?_, complete, ?_⟩
  · cases consumer : t.consumer with
    | collecting bytes chunks =>
      obtain ⟨taken, rfl, front, _⟩ := follows.collecting bytes chunks consumer
      have begins := prefix_of_map_data
        ((List.prefix_append _ _).trans ((List.prefix_append _ _).trans front))
      exact joined ▸ flatten_prefix begins
    | complete bytes chunks =>
      rw [complete bytes chunks consumer]
      exact List.prefix_refl _
    | abandoned => exact List.nil_prefix
    | dropped => exact List.nil_prefix
  · intro rest calm
    obtain ⟨bytes, chunks, h⟩ := follows.rest (by simp) rest calm
    exact ⟨chunks, complete bytes chunks h ▸ h⟩

theorem streamed_page_in_five_chunks :
    let d : Pdf.Document := ⟨[ascii "BT ET"], ⟨612, 792⟩, [], none⟩
    let text := d.file.text Pdf.Document.version
    let start := Transfer.ofProduction (.ofPieces 100 [text.take 150, text.drop 150]) 2
    [text.take 150, text.drop 150].flatten = d.bytes ∧ Transfer.Execution start start.settled ∧
      start.settled.consumer = .complete d.bytes 5 := by
  intro d text start
  have cut : [text.take 150, text.drop 150].flatten = d.bytes := by
    rw [List.flatten_cons, List.flatten_singleton, List.take_append_drop]
    exact (Pdf.File.bytes_eq_text _ _).symm
  have run := Transfer.execution_settled start
  have calm : start.settled.Undisturbed :=
    Transfer.Undisturbed.settled ⟨rfl, Completion.noConfusion⟩
  obtain ⟨_, _, completes⟩ := streamed_document_whole d 100 2 _ cut run
  obtain ⟨chunks, complete⟩ := completes (Transfer.advance_settled _) calm
  have five : start.settled.consumer = .complete text 5 := by decide +kernel
  obtain ⟨_, rfl⟩ := Completion.complete.inj (five.symm.trans complete)
  exact ⟨cut, run, complete⟩

end Folio.Delivery
