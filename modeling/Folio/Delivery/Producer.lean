import Folio.Delivery.Channel

/-! # Producers

A producer works through a list of tasks. Bytes that it accepts go through a chunk writer, which
cuts them into chunks of one size. Looking whether the work was called off and sending a chunk are
steps of their own, so a call-off between the two does not stop the chunk.
-/

namespace Folio.Delivery

structure ChunkWriter where
  chunkSize : Nat
  buffer : Bytes := []
  /-- How many bytes were accepted. A counter of 64 bits shows the same below `2 ^ 64` bytes. -/
  written : Nat := 0
  chunkSize_pos : 0 < chunkSize

namespace ChunkWriter

/-- A writer without bytes. Chunks have at least one byte. -/
def ofSize (chunkSize : Nat) : ChunkWriter where
  chunkSize := max chunkSize 1
  chunkSize_pos := Channel.max_one_pos chunkSize

instance : Inhabited ChunkWriter := ⟨ofSize 1⟩

def accept (w : ChunkWriter) (bytes : Bytes) : ChunkWriter :=
  { w with buffer := w.buffer ++ bytes, written := w.written + bytes.length }

def dropFirst (w : ChunkWriter) (count : Nat) : ChunkWriter :=
  { w with buffer := w.buffer.drop count }

end ChunkWriter

inductive Task where
  | accept (bytes : Bytes)
  | fill
  | flush
  | send (chunk : Bytes)
  | finish
  /-- Wait for ever. -/
  | hold
  deriving Repr, DecidableEq

inductive Halt where
  | calledOff
  | receiverGone
  deriving Repr, DecidableEq

def Halt.error : Halt → WriteError
  | calledOff => ⟨.connectionAborted, "render abandoned"⟩
  | receiverGone => ⟨.brokenPipe, DeliveryError.receiverClosed.message⟩

structure Producer where
  writer : ChunkWriter
  tasks : List Task

instance : Inhabited Producer := ⟨⟨default, []⟩⟩

namespace Producer

inductive Step where
  | idle
  | blocked
  | moved (next : Producer) (channel : Channel)
  | halted (why : Halt) (writer : ChunkWriter)

def handOver (writer : ChunkWriter) (rest : List Task) : Except Refusal Channel → Step
  | .ok c => .moved ⟨writer, rest⟩ c
  | .error .full => .blocked
  | .error .closed => .halted .receiverGone writer

def step : Producer → Bool → Channel → Step
  | ⟨_, []⟩, _, _ => .idle
  | ⟨w, .accept bytes :: rest⟩, calledOff, c =>
    if calledOff then .halted .calledOff w else .moved ⟨w.accept bytes, .fill :: rest⟩ c
  | ⟨w, .fill :: rest⟩, calledOff, c =>
    if w.buffer.length < w.chunkSize then .moved ⟨w, rest⟩ c
    else if calledOff then .halted .calledOff w
    else
      .moved ⟨w.dropFirst w.chunkSize, .send (w.buffer.take w.chunkSize) :: .fill :: rest⟩ c
  | ⟨w, .flush :: rest⟩, calledOff, c =>
    if w.buffer.isEmpty then .moved ⟨w, rest⟩ c
    else if calledOff then .halted .calledOff w
    else .moved ⟨w.dropFirst w.buffer.length, .send w.buffer :: rest⟩ c
  | ⟨w, .send chunk :: rest⟩, _, c => handOver w rest (c.send chunk)
  | ⟨w, .finish :: rest⟩, _, c => handOver w rest (c.offer .finished)
  | ⟨_, .hold :: _⟩, _, _ => .blocked

/-- How many steps a task can still cause, the bytes apart that are in the buffer. -/
def cost : Task → Nat
  | .accept bytes => 4 * bytes.length + 3
  | .fill | .flush => 2
  | .send _ | .finish | .hold => 1

def weight (p : Producer) : Nat := 4 * p.writer.buffer.length + p.tasks.foldr (cost · + ·) 0

def parcel? : Task → Option Parcel
  | .send chunk => if chunk.isEmpty then none else some (.data chunk)
  | .finish => some .finished
  | .accept _ | .fill | .flush | .hold => none

/-- Whether a task looks if the work was called off before it goes on. -/
def Looks (w : ChunkWriter) : Task → Prop
  | .accept _ => True
  | .fill => w.chunkSize ≤ w.buffer.length
  | .flush => w.buffer ≠ []
  | .send _ | .finish | .hold => False

/-- The ways in which a step of work can go. -/
inductive Course (calledOff : Bool) (c : Channel) : Producer → Step → Prop
  | done {w : ChunkWriter} : Course calledOff c ⟨w, []⟩ .idle
  | stopped {w : ChunkWriter} {task : Task} {rest : List Task} (looks : Looks w task)
      (flag : calledOff = true) : Course calledOff c ⟨w, task :: rest⟩ (.halted .calledOff w)
  | accepted {w : ChunkWriter} {bytes : Bytes} {rest : List Task} (on : calledOff = false) :
      Course calledOff c ⟨w, .accept bytes :: rest⟩ (.moved ⟨w.accept bytes, .fill :: rest⟩ c)
  | filled {w : ChunkWriter} {rest : List Task} (short : w.buffer.length < w.chunkSize) :
      Course calledOff c ⟨w, .fill :: rest⟩ (.moved ⟨w, rest⟩ c)
  | cut {w : ChunkWriter} {rest : List Task} (full : w.chunkSize ≤ w.buffer.length)
      (on : calledOff = false) :
      Course calledOff c ⟨w, .fill :: rest⟩
        (.moved ⟨w.dropFirst w.chunkSize, .send (w.buffer.take w.chunkSize) :: .fill :: rest⟩ c)
  | flushed {w : ChunkWriter} {rest : List Task} (none : w.buffer = []) :
      Course calledOff c ⟨w, .flush :: rest⟩ (.moved ⟨w, rest⟩ c)
  | emptied {w : ChunkWriter} {rest : List Task} (some : w.buffer ≠ [])
      (on : calledOff = false) :
      Course calledOff c ⟨w, .flush :: rest⟩
        (.moved ⟨w.dropFirst w.buffer.length, .send w.buffer :: rest⟩ c)
  | nothing {w : ChunkWriter} {rest : List Task} :
      Course calledOff c ⟨w, .send [] :: rest⟩ (.moved ⟨w, rest⟩ c)
  | put {w : ChunkWriter} {task : Task} {rest : List Task} {parcel : Parcel}
      (puts : parcel? task = some parcel) (opened : c.receiving = true)
      (room : c.queue.length < c.capacity) :
      Course calledOff c ⟨w, task :: rest⟩
        (.moved ⟨w, rest⟩ { c with queue := c.queue ++ [parcel] })
  | crowded {w : ChunkWriter} {task : Task} {rest : List Task} {parcel : Parcel}
      (puts : parcel? task = some parcel) (opened : c.receiving = true)
      (full : c.capacity ≤ c.queue.length) :
      Course calledOff c ⟨w, task :: rest⟩ .blocked
  | refused {w : ChunkWriter} {task : Task} {rest : List Task} {parcel : Parcel}
      (puts : parcel? task = some parcel) (gone : c.receiving = false) :
      Course calledOff c ⟨w, task :: rest⟩ (.halted .receiverGone w)
  | held {w : ChunkWriter} {rest : List Task} : Course calledOff c ⟨w, .hold :: rest⟩ .blocked

theorem course_handOver {calledOff : Bool} {c : Channel} {w : ChunkWriter} {task : Task}
    {rest : List Task} {parcel : Parcel} (puts : parcel? task = some parcel) :
    Course calledOff c ⟨w, task :: rest⟩ (handOver w rest (c.offer parcel)) := by
  unfold Channel.offer
  split
  · rename_i gone
    exact .refused puts (by simpa using gone)
  · rename_i opened
    split
    · rename_i room
      exact .put puts (by simpa using opened) room
    · rename_i full
      exact .crowded puts (by simpa using opened) (Nat.le_of_not_lt full)

theorem course (p : Producer) (calledOff : Bool) (c : Channel) :
    Course calledOff c p (p.step calledOff c) := by
  obtain ⟨w, tasks⟩ := p
  cases tasks with
  | nil => exact .done
  | cons task rest =>
    cases task with
    | accept bytes =>
      simp only [step]
      split
      · rename_i flag
        exact .stopped trivial flag
      · rename_i on
        exact .accepted (by simpa using on)
    | fill =>
      simp only [step]
      split
      · rename_i short
        exact .filled short
      · rename_i full
        split
        · rename_i flag
          exact .stopped (Nat.le_of_not_lt full) flag
        · rename_i on
          exact .cut (Nat.le_of_not_lt full) (by simpa using on)
    | flush =>
      simp only [step]
      split
      · rename_i none
        exact .flushed (List.isEmpty_iff.1 none)
      · rename_i some
        have some : w.buffer ≠ [] := fun none => some (List.isEmpty_iff.2 none)
        split
        · rename_i flag
          exact .stopped some flag
        · rename_i on
          exact .emptied some (by simpa using on)
    | send chunk =>
      cases chunk with
      | nil => exact .nothing
      | cons b bs => exact course_handOver rfl
    | finish => exact course_handOver rfl
    | hold => exact .held

theorem weight_cons (w : ChunkWriter) (task : Task) (rest : List Task) :
    weight ⟨w, task :: rest⟩ = cost task + weight ⟨w, rest⟩ := by
  simp only [weight, List.foldr_cons]
  omega

theorem weight_nil_le (w : ChunkWriter) (tasks : List Task) :
    weight ⟨w, []⟩ ≤ weight ⟨w, tasks⟩ := by
  simp only [weight, List.foldr_nil]
  omega

theorem weight_accept (w : ChunkWriter) (bytes : Bytes) (tasks : List Task) :
    weight ⟨w.accept bytes, tasks⟩ = 4 * bytes.length + weight ⟨w, tasks⟩ := by
  simp only [weight, ChunkWriter.accept, List.length_append]
  omega

theorem weight_dropFirst {w : ChunkWriter} {count : Nat} (h : count ≤ w.buffer.length)
    (tasks : List Task) :
    weight ⟨w.dropFirst count, tasks⟩ + 4 * count = weight ⟨w, tasks⟩ := by
  simp only [weight, ChunkWriter.dropFirst, List.length_drop]
  omega

theorem cost_pos (task : Task) : 0 < cost task := by
  cases task <;> exact Nat.succ_pos _

theorem weight_lt_of_moved {p next : Producer} {calledOff : Bool} {c channel : Channel}
    (h : p.step calledOff c = .moved next channel) : next.weight < p.weight := by
  have course := p.course calledOff c
  rw [h] at course
  cases course with
  | accepted =>
    rw [weight_cons, weight_cons, weight_accept]
    simp only [cost]
    omega
  | @cut w rest full =>
    have size := w.chunkSize_pos
    have drop := weight_dropFirst full (.fill :: rest)
    rw [weight_cons]
    simp only [cost]
    omega
  | @emptied w rest _ =>
    have drop := weight_dropFirst (Nat.le_refl w.buffer.length) rest
    rw [weight_cons, weight_cons]
    simp only [cost]
    omega
  | filled | flushed | nothing | put =>
    rw [weight_cons]
    exact Nat.lt_add_of_pos_left (cost_pos _)

theorem length_queue_of_moved {p next : Producer} {calledOff : Bool} {c channel : Channel}
    (h : p.step calledOff c = .moved next channel) :
    channel.queue.length ≤ c.queue.length + 1 ∧ channel.sending = c.sending := by
  have course := p.course calledOff c
  rw [h] at course
  cases course with
  | put => exact ⟨Nat.le_of_eq List.length_append, rfl⟩
  | accepted | filled | cut | flushed | emptied | nothing => exact ⟨Nat.le_succ _, rfl⟩

theorem writer_of_halted {p : Producer} {calledOff : Bool} {c : Channel} {why : Halt}
    {writer : ChunkWriter} (h : p.step calledOff c = .halted why writer) :
    writer = p.writer ∧ p.tasks ≠ [] := by
  have course := p.course calledOff c
  rw [h] at course
  cases course with
  | stopped | refused => exact ⟨rfl, List.cons_ne_nil _ _⟩

theorem weight_lt_of_halted {p : Producer} {calledOff : Bool} {c : Channel} {why : Halt}
    {writer : ChunkWriter} (h : p.step calledOff c = .halted why writer) :
    (⟨writer, []⟩ : Producer).weight < p.weight := by
  obtain ⟨rfl, some⟩ := writer_of_halted h
  obtain ⟨w, tasks⟩ := p
  cases tasks with
  | nil => exact absurd rfl some
  | cons task rest =>
    rw [weight_cons]
    exact Nat.lt_of_le_of_lt (weight_nil_le w rest) (Nat.lt_add_of_pos_left (cost_pos task))

inductive Ending where
  | done
  | blocked
  | halted (why : Halt)
  deriving Repr, DecidableEq

/-- Works until nothing more can be done without the consumer. What was not done after a halt is
given up. -/
def run (p : Producer) (calledOff : Bool) (c : Channel) : Ending × Producer × Channel :=
  match _h : p.step calledOff c with
  | .idle => (.done, p, c)
  | .blocked => (.blocked, p, c)
  | .halted why w => (.halted why, ⟨w, []⟩, c)
  | .moved next channel => next.run calledOff channel
  termination_by p.weight
  decreasing_by exact weight_lt_of_moved _h

end Producer

namespace ChunkWriter

def perform (w : ChunkWriter) (tasks : List Task) (calledOff : Bool) (c : Channel) :
    Producer.Ending × ChunkWriter × Channel :=
  let (ending, p, c) := Producer.run ⟨w, tasks⟩ calledOff c
  (ending, p.writer, c)

def write (w : ChunkWriter) (bytes : Bytes) (calledOff : Bool) (c : Channel) :
    Producer.Ending × ChunkWriter × Channel :=
  w.perform [.accept bytes] calledOff c

def flush (w : ChunkWriter) (calledOff : Bool) (c : Channel) :
    Producer.Ending × ChunkWriter × Channel :=
  w.perform [.flush] calledOff c

/-- Sends what is buffered and then the end marker. The writer is gone afterwards, whatever came of
it. -/
def finish (w : ChunkWriter) (calledOff : Bool) (c : Channel) : Producer.Ending × Channel :=
  let (ending, _, c) := w.perform [.flush, .finish] calledOff c
  (ending, c.close)

end ChunkWriter

end Folio.Delivery
