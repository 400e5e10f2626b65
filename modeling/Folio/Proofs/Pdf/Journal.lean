import Folio.Proofs.Pdf.Numbering

/-! # The journal of a file

A file chooses numbers and is given objects in any order, under numbers of its own choice or of
the caller's. The journal keeps what was asked of it: the ids in use, and every object that was
given with the id it was given for. As long as numbers stay below the last one of 32 bits, no id is
chosen twice and the file has for each id the object that was given last.
-/

namespace Folio.Pdf.File

inductive Request where
  | newId
  | add (object : Object)
  | addContent (content : Bytes)
  | put (number : Nat) (object : Object)
  | setPageIds (ids : List ObjectId)
  | setInfo (info : Dict)

namespace Request

def perform (f : File) : Request → File
  | newId => f.newId.2
  | add object => (f.add object).2
  | addContent content => (f.addContent content).2
  | put number object => f.put ⟨number, 0⟩ object
  | setPageIds ids => f.setPageIds ids
  | setInfo info => f.setInfo info

def handedOut? (f : File) : Request → Option ObjectId
  | newId => some f.newId.1
  | add object => some (f.add object).1
  | addContent content => some (f.addContent content).1
  | setInfo info => (f.setInfo info).infoId
  | put .. | setPageIds _ => none

/-- The id that is in use from now on. -/
def id? (f : File) : Request → Option ObjectId
  | put number _ => some ⟨number, 0⟩
  | request => request.handedOut? f

def object? : Request → Option Object
  | add object | put _ object => some object
  | addContent content => some (.stream [] content)
  | setInfo info => some (.dict info)
  | newId | setPageIds _ => none

def entry? (f : File) (request : Request) : Option (ObjectId × Object) :=
  (request.id? f).bind fun id => request.object?.map fun object => (id, object)

variable {f : File} {request : Request} {id : ObjectId}

theorem objects_perform (f : File) (request : Request) :
    (request.perform f).objects =
      (request.entry? f).elim f.objects fun entry => Ordered.place entry.1 entry.2 f.objects := by
  cases request <;> rfl

theorem highest_perform (room : f.highest + 1 < 2 ^ 32) (request : Request) :
    (request.perform f).highest =
      (request.id? f).elim f.highest fun id => max f.highest id.number := by
  have next : f.next = max f.highest f.next := by
    rw [File.next, Nat.mod_eq_of_lt room, Nat.max_eq_right (Nat.le_succ _)]
  cases request with
  | put | setPageIds => rfl
  | newId | add | addContent | setInfo => exact next

theorem next_of_handedOut? (handed : request.handedOut? f = some id) :
    id = ⟨f.next, 0⟩ ∧ request.id? f = some id := by
  cases request with
  | put | setPageIds => cases handed
  | newId | add | addContent | setInfo =>
    cases handed
    exact ⟨rfl, rfl⟩

theorem generation_id? (taken : request.id? f = some id) : id.generation = 0 := by
  cases request with
  | setPageIds => cases taken
  | newId | add | addContent | put | setInfo =>
    cases taken
    rfl

theorem id?_of_entry? {object : Object} (given : request.entry? f = some (id, object)) :
    request.id? f = some id := by
  obtain ⟨taken, isSome, same⟩ := Option.bind_eq_some_iff.1 given
  obtain ⟨_, _, same⟩ := Option.map_eq_some_iff.1 same
  cases same
  exact isSome

end Request

/-- A file with what was asked of it so far. An id is in use once it was handed out or an object was
put under it; that others refer to it does not count. -/
structure Journal where
  file : File
  used : List ObjectId
  given : List (ObjectId × Object)

namespace Journal

def start (fonts : Dict) : Journal where
  file := ofFonts fonts
  used := [resourcesId, pagesId, catalogId]
  given := [(resourcesId, .dict [(ascii "Font", .dict fonts)])]

def perform (j : Journal) (request : Request) : Journal where
  file := request.perform j.file
  used := j.used ++ (request.id? j.file).toList
  given := j.given ++ (request.entry? j.file).toList

def after (fonts : Dict) (requests : List Request) : Journal :=
  requests.foldl perform (start fonts)

/-- Numbers begin with one, and the last one of 32 bits is not reached. -/
def Fits (j : Journal) : Prop := ∀ id ∈ j.used, 1 ≤ id.number ∧ id.number ≤ 2 ^ 32 - 2

structure Numbered (j : Journal) : Prop where
  reserved : catalogId ∈ j.used
  highest_used : ∃ id ∈ j.used, id.number = j.file.highest
  le_highest : ∀ id ∈ j.used, id.number ≤ j.file.highest

structure Current (j : Journal) : Prop where
  sorted : j.file.objects.Pairwise (·.1 < ·.1)
  generation : ∀ entry ∈ j.file.objects, entry.1.generation = 0
  known : ∀ entry ∈ j.file.objects, entry.1 ∈ j.used
  latest : ∀ id, j.file.objects.lookup id = j.given.reverse.lookup id

theorem numbered_start (fonts : Dict) : (start fonts).Numbered where
  reserved := by simp [start]
  highest_used := ⟨catalogId, by simp [start], rfl⟩
  le_highest := by
    intro id mem
    simp only [start, List.mem_cons, List.not_mem_nil, or_false] at mem
    show id.number ≤ 3
    rcases mem with rfl | rfl | rfl <;> decide

theorem current_start (fonts : Dict) : (start fonts).Current where
  sorted := List.pairwise_singleton _ _
  generation := by
    intro entry mem
    obtain rfl := List.mem_singleton.1 mem
    rfl
  known := by
    intro entry mem
    obtain rfl := List.mem_singleton.1 mem
    simp [start]
  latest := by
    intro id
    rfl

variable {j : Journal}

theorem Numbered.room (numbered : j.Numbered) (fits : j.Fits) :
    j.file.highest + 1 < 2 ^ 32 := by
  obtain ⟨id, mem, highest⟩ := numbered.highest_used
  have below := (fits id mem).2
  omega

theorem Numbered.fresh (numbered : j.Numbered) (fits : j.Fits) {request : Request} {id : ObjectId}
    (handed : request.handedOut? j.file = some id) : id ∉ j.used := by
  obtain ⟨rfl, -⟩ := Request.next_of_handedOut? handed
  have next : j.file.next = j.file.highest + 1 := Nat.mod_eq_of_lt (numbered.room fits)
  intro used
  have le : j.file.next ≤ j.file.highest := numbered.le_highest _ used
  omega

theorem Numbered.perform (numbered : j.Numbered) (fits : j.Fits) (request : Request) :
    (j.perform request).Numbered := by
  have highest : (request.perform j.file).highest =
      (request.id? j.file).elim j.file.highest fun id => max j.file.highest id.number :=
    request.highest_perform (numbered.room fits)
  obtain ⟨top, mem, top_eq⟩ := numbered.highest_used
  refine ⟨List.mem_append_left _ numbered.reserved, ?_, ?_⟩
  · simp only [Journal.perform, highest]
    cases request.id? j.file with
    | none => exact ⟨top, List.mem_append_left _ mem, top_eq⟩
    | some id =>
      rcases Nat.le_total id.number j.file.highest with below | above
      · exact ⟨top, List.mem_append_left _ mem, top_eq.trans (Nat.max_eq_left below).symm⟩
      · exact ⟨id, List.mem_append_right _ List.mem_cons_self, (Nat.max_eq_right above).symm⟩
  · simp only [Journal.perform, highest]
    intro id mem
    cases taken : request.id? j.file with
    | none =>
      rw [taken, Option.toList_none, List.append_nil] at mem
      exact numbered.le_highest id mem
    | some new =>
      rw [taken] at mem
      rcases List.mem_append.1 mem with old | new
      · exact Nat.le_trans (numbered.le_highest id old) (Nat.le_max_left _ _)
      · obtain rfl := List.mem_singleton.1 new
        exact Nat.le_max_right _ _

theorem Current.perform (current : j.Current) (request : Request) :
    (j.perform request).Current := by
  have objects := request.objects_perform j.file
  cases given : request.entry? j.file with
  | none =>
    replace objects : (j.perform request).file.objects = j.file.objects := by
      rw [given] at objects
      exact objects
    have same : (j.perform request).given = j.given := by
      simp only [Journal.perform, given, Option.toList_none, List.append_nil]
    constructor
    · exact objects ▸ current.sorted
    · exact objects ▸ current.generation
    · intro entry mem
      exact List.mem_append_left _ (current.known entry (objects ▸ mem))
    · intro id
      rw [objects, same, current.latest id]
  | some entry =>
    obtain ⟨new, object⟩ := entry
    have taken := Request.id?_of_entry? given
    replace objects : (j.perform request).file.objects =
        Ordered.place new object j.file.objects := by
      rw [given] at objects
      exact objects
    have more : (j.perform request).given = j.given ++ [(new, object)] := by
      simp only [Journal.perform, given, Option.toList_some]
    constructor
    · rw [objects]
      exact Ordered.sorted_place ObjectId.lt_trans ObjectId.lt_of_not_lt current.sorted
    · intro entry mem
      rw [objects] at mem
      rcases Ordered.mem_place mem with rfl | old
      · exact Request.generation_id? taken
      · exact current.generation entry old
    · intro entry mem
      rw [objects] at mem
      rcases Ordered.mem_place mem with rfl | old
      · exact List.mem_append_right _ (by simp [taken])
      · exact List.mem_append_left _ (current.known entry old)
    · intro id
      rw [objects, more, List.reverse_concat, List.lookup_cons, Ordered.lookup_place,
        current.latest id]
      by_cases same : id = new
      · simp [same]
      · rw [if_neg same, beq_false_of_ne same]

theorem Fits.of_perform {request : Request} (fits : (j.perform request).Fits) : j.Fits :=
  fun id mem => fits id (List.mem_append_left _ mem)

theorem Fits.of_foldl {requests : List Request} (fits : (requests.foldl perform j).Fits) :
    j.Fits := by
  induction requests generalizing j with
  | nil => exact fits
  | cons request rest ih => exact (ih fits).of_perform

theorem sound_foldl (numbered : j.Numbered) (current : j.Current) {requests : List Request}
    (fits : (requests.foldl perform j).Fits) :
    (requests.foldl perform j).Numbered ∧ (requests.foldl perform j).Current := by
  induction requests generalizing j with
  | nil => exact ⟨numbered, current⟩
  | cons request rest ih =>
    have here : j.Fits := Fits.of_perform (Fits.of_foldl fits)
    exact ih (numbered.perform here request) (current.perform request) fits

theorem sound_after (fonts : Dict) {requests : List Request} (fits : (after fonts requests).Fits) :
    (after fonts requests).Numbered ∧ (after fonts requests).Current :=
  sound_foldl (numbered_start fonts) (current_start fonts) fits

end Journal

end Folio.Pdf.File
