import Folio.Delivery.Transfer

/-! # Plans

The plan of a producer is the list of parcels that it puts into a channel when nothing is in its
way. A step of work moves the first parcels of the plan to the end of the queue, and a producer
that stops leaves the rest of its plan undone.
-/

namespace Folio.Delivery

namespace Producer

/-- The parcels that come of the work when it meets an empty channel at each step. -/
def plan (p : Producer) : List Parcel :=
  match _h : p.step false default with
  | .moved next channel => channel.queue ++ next.plan
  | _ => []
  termination_by p.weight
  decreasing_by exact weight_lt_of_moved _h

theorem plan_eq {p : Producer} (next : Producer) (put : List Parcel)
    (h : p.step false default = .moved next { (default : Channel) with queue := put }) :
    p.plan = put ++ next.plan := by
  rw [plan]
  split
  · rename_i moved
    injection h.symm.trans moved with same queue
    rw [← same, ← queue]
  · rename_i idle
    exact absurd h (idle _ _)

theorem plan_nil {p : Producer} (done : p.tasks = []) : p.plan = [] := by
  obtain ⟨w, tasks⟩ := p
  cases done
  rw [plan]
  rfl

theorem plan_hold (w : ChunkWriter) (rest : List Task) : plan ⟨w, .hold :: rest⟩ = [] := by
  rw [plan]
  rfl

theorem plan_accept (w : ChunkWriter) (bytes : Bytes) (rest : List Task) :
    plan ⟨w, .accept bytes :: rest⟩ = plan ⟨w.accept bytes, .fill :: rest⟩ :=
  plan_eq ⟨w.accept bytes, .fill :: rest⟩ [] rfl

theorem step_of_puts {w : ChunkWriter} {task : Task} {parcel : Parcel} {calledOff : Bool}
    {c : Channel} (puts : parcel? task = some parcel) (rest : List Task) :
    step ⟨w, task :: rest⟩ calledOff c = handOver w rest (c.offer parcel) := by
  cases task with
  | send chunk =>
    cases chunk with
    | nil => cases puts
    | cons b bs =>
      cases puts
      rfl
  | finish =>
    cases puts
    rfl
  | accept | fill | flush | hold => cases puts

theorem plan_of_puts {w : ChunkWriter} {task : Task} {parcel : Parcel}
    (puts : parcel? task = some parcel) (rest : List Task) :
    plan ⟨w, task :: rest⟩ = parcel :: plan ⟨w, rest⟩ :=
  plan_eq ⟨w, rest⟩ [parcel] (step_of_puts puts rest)

theorem plan_send {chunk : Bytes} (some : chunk ≠ []) (w : ChunkWriter) (rest : List Task) :
    plan ⟨w, .send chunk :: rest⟩ = .data chunk :: plan ⟨w, rest⟩ := by
  obtain ⟨b, bs, rfl⟩ := List.exists_cons_of_ne_nil some
  exact plan_of_puts rfl rest

theorem plan_finish (w : ChunkWriter) (rest : List Task) :
    plan ⟨w, .finish :: rest⟩ = .finished :: plan ⟨w, rest⟩ :=
  plan_of_puts rfl rest

theorem plan_fill_of_lt {w : ChunkWriter} (h : w.buffer.length < w.chunkSize)
    (rest : List Task) : plan ⟨w, .fill :: rest⟩ = plan ⟨w, rest⟩ :=
  plan_eq ⟨w, rest⟩ [] (by simp only [step, h, if_true]; rfl)

theorem plan_fill_of_le {w : ChunkWriter} (h : w.chunkSize ≤ w.buffer.length)
    (rest : List Task) :
    plan ⟨w, .fill :: rest⟩ =
      .data (w.buffer.take w.chunkSize) :: plan ⟨w.dropFirst w.chunkSize, .fill :: rest⟩ := by
  have some : w.buffer.take w.chunkSize ≠ [] := by
    have size := w.chunkSize_pos
    rw [← List.length_pos_iff, List.length_take]
    omega
  rw [← plan_send some]
  refine plan_eq ⟨w.dropFirst w.chunkSize, .send _ :: .fill :: rest⟩ [] ?_
  simp only [step, Nat.not_lt.2 h, if_false, Bool.false_eq_true]
  rfl

theorem plan_flush_nil {w : ChunkWriter} (h : w.buffer = []) (rest : List Task) :
    plan ⟨w, .flush :: rest⟩ = plan ⟨w, rest⟩ :=
  plan_eq ⟨w, rest⟩ [] (by simp only [step, h, List.isEmpty_nil, if_true]; rfl)

theorem plan_flush {w : ChunkWriter} (h : w.buffer ≠ []) (rest : List Task) :
    plan ⟨w, .flush :: rest⟩ =
      .data w.buffer :: plan ⟨w.dropFirst w.buffer.length, rest⟩ := by
  rw [← plan_send h]
  refine plan_eq ⟨w.dropFirst w.buffer.length, .send w.buffer :: rest⟩ [] ?_
  simp only [step, List.isEmpty_eq_false_iff.2 h, if_false, Bool.false_eq_true]
  rfl

theorem step_default_of_moved {p next : Producer} {calledOff : Bool} {c channel : Channel}
    (h : p.step calledOff c = .moved next channel) :
    ∃ put, channel = { c with queue := c.queue ++ put } ∧
      p.step false default = .moved next { (default : Channel) with queue := put } := by
  have course := p.course calledOff c
  rw [h] at course
  cases course with
  | accepted | nothing => exact ⟨[], by simp, rfl⟩
  | filled short =>
    refine ⟨[], by simp, ?_⟩
    simp only [step, if_pos short]
    rfl
  | cut full =>
    refine ⟨[], by simp, ?_⟩
    simp only [step, if_neg (Nat.not_lt.2 full)]
    rfl
  | flushed none =>
    refine ⟨[], by simp, ?_⟩
    simp only [step, if_pos (List.isEmpty_iff.2 none)]
    rfl
  | emptied some =>
    refine ⟨[], by simp, ?_⟩
    simp only [step, List.isEmpty_eq_false_iff.2 some]
    rfl
  | put puts => exact ⟨[_], rfl, step_of_puts puts _⟩

/-- A step of work moves parcels from the front of the plan to the end of the queue. -/
theorem plan_of_moved {p next : Producer} {calledOff : Bool} {c channel : Channel}
    (h : p.step calledOff c = .moved next channel) :
    ∃ put, channel = { c with queue := c.queue ++ put } ∧ p.plan = put ++ next.plan := by
  obtain ⟨put, same, free⟩ := step_default_of_moved h
  exact ⟨put, same, plan_eq next put free⟩

theorem plan_fill (w : ChunkWriter) (rest : List Task) :
    ∃ (chunks : List Bytes) (v : ChunkWriter), chunks.flatten ++ v.buffer = w.buffer ∧
      (∀ chunk ∈ chunks, chunk.length = w.chunkSize) ∧ v.chunkSize = w.chunkSize ∧
      v.buffer.length < v.chunkSize ∧
      plan ⟨w, .fill :: rest⟩ = chunks.map .data ++ plan ⟨v, rest⟩ := by
  by_cases short : w.buffer.length < w.chunkSize
  · exact ⟨[], w, rfl, by simp, rfl, short, plan_fill_of_lt short rest⟩
  · have full := Nat.le_of_not_lt short
    have size := w.chunkSize_pos
    obtain ⟨chunks, v, joined, even, same, less, planned⟩ :=
      plan_fill (w.dropFirst w.chunkSize) rest
    refine ⟨w.buffer.take w.chunkSize :: chunks, v, ?_, ?_, same, less, ?_⟩
    · rw [List.flatten_cons, List.append_assoc, joined]
      exact List.take_append_drop w.chunkSize w.buffer
    · exact List.forall_mem_cons.2 ⟨List.length_take_of_le full, even⟩
    · rw [plan_fill_of_le full, planned]
      rfl
  termination_by w.buffer.length
  decreasing_by
    simp only [ChunkWriter.dropFirst, List.length_drop]
    omega

/-- The plan of sending pieces: chunks that join to the bytes of the buffer and of the pieces, and
one end marker behind them. -/
theorem plan_pieces (w : ChunkWriter) (pieces : List Bytes) :
    ∃ chunks : List Bytes, chunks.flatten = w.buffer ++ pieces.flatten ∧
      plan ⟨w, pieces.map .accept ++ [.flush, .flush, .finish]⟩ =
        chunks.map .data ++ [.finished] := by
  induction pieces generalizing w with
  | nil =>
    have behind (v : ChunkWriter) (h : v.buffer = []) :
        plan ⟨v, [.flush, .finish]⟩ = [.finished] := by
      rw [plan_flush_nil h, plan_finish, plan_nil rfl]
    by_cases none : w.buffer = []
    · refine ⟨[], by simp [none], ?_⟩
      exact (plan_flush_nil none _).trans (behind w none)
    · refine ⟨[w.buffer], by simp, ?_⟩
      refine (plan_flush none _).trans ?_
      rw [behind _ (by simp [ChunkWriter.dropFirst])]
      rfl
  | cons piece rest ih =>
    obtain ⟨front, v, joined, _, _, _, planned⟩ :=
      plan_fill (w.accept piece) (rest.map .accept ++ [.flush, .flush, .finish])
    obtain ⟨chunks, flat, later⟩ := ih v
    refine ⟨front ++ chunks, ?_, ?_⟩
    · rw [List.flatten_append, flat, ← List.append_assoc, joined]
      simp [ChunkWriter.accept]
    · rw [List.map_cons, List.cons_append, plan_accept, planned, later]
      simp

end Producer

end Folio.Delivery
