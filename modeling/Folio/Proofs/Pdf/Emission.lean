import Folio.Pdf.File
import Folio.Proofs.Pdf.Navigator

/-! # Emission

What a writer puts out is a text that depends on the place where it begins and not on the counts
that the target takes at a time. A target that always takes some is given all of it. The text of a
file is put together from the texts of its parts, with the places of the objects computed from the
lengths before them.
-/

namespace Folio.Pdf

/-- A target that takes something of whatever it is offered and never fails. -/
structure Target.Steady (t : Target) : Prop where
  takes_pos : ∀ position offered, 0 < offered → 0 < t.takes position offered
  flush_ok : t.flush = .ok ()

theorem Target.memory_steady : Target.memory.Steady where
  takes_pos _ _ pos := pos
  flush_ok := rfl

structure Output.Extends (before after : Output) (text : Bytes) : Prop where
  target_eq : after.target = before.target
  position_eq : after.position = before.position + text.length
  bytes_eq : after.bytes = before.bytes ++ text

namespace Output.Extends

variable {first middle last : Output} {s t : Bytes}

theorem refl (out : Output) : out.Extends out [] := ⟨rfl, rfl, by simp⟩

theorem trans (one : first.Extends middle s) (two : middle.Extends last t) :
    first.Extends last (s ++ t) where
  target_eq := two.target_eq.trans one.target_eq
  position_eq := by
    rw [two.position_eq, one.position_eq, List.length_append, Nat.add_assoc]
  bytes_eq := by rw [two.bytes_eq, one.bytes_eq, List.append_assoc]

end Output.Extends

theorem Output.extends_offer (out : Output) (bytes : Bytes) :
    out.Extends (out.offer bytes).2 (bytes.take (out.offer bytes).1) where
  target_eq := rfl
  position_eq := by
    have le : (out.offer bytes).1 ≤ bytes.length := Nat.min_le_right _ _
    rw [List.length_take_of_le le]
    rfl
  bytes_eq := by simp [Output.offer, Output.bytes]

theorem Output.extends_writeAll {bytes : Bytes} {out after : Output}
    (run : out.writeAll bytes = (.ok (), after)) : out.Extends after bytes := by
  fun_induction Output.writeAll bytes out with
  | case1 bytes out empty =>
    cases run
    rw [List.isEmpty_iff] at empty
    exact empty ▸ .refl _
  | case2 bytes out some count next offered pos ih =>
    have step : out.Extends next (bytes.take count) := by
      have taken := out.extends_offer bytes
      rwa [offered] at taken
    have whole := step.trans (ih run)
    rwa [List.take_append_drop] at whole
  | case3 => cases run

theorem Output.writeAll_of_steady (bytes : Bytes) (out : Output) (steady : out.target.Steady) :
    ∃ after, out.writeAll bytes = (.ok (), after) := by
  fun_induction Output.writeAll bytes out with
  | case1 bytes out empty => exact ⟨out, rfl⟩
  | case2 bytes out some count next offered pos ih =>
    have same : next.target = out.target := by
      have taken := out.extends_offer bytes
      rw [offered] at taken
      exact taken.target_eq
    exact ih (same ▸ steady)
  | case3 bytes out some count next offered stuck =>
    have pos : 0 < bytes.length := List.length_pos_iff.2 (by simpa using some)
    have taken : 0 < (out.offer bytes).1 :=
      Nat.lt_min.2 ⟨steady.takes_pos _ _ pos, pos⟩
    rw [offered] at taken
    exact absurd ⟨taken, pos⟩ stuck

namespace Writing

variable {α β : Type}

/-- When the work succeeds from the given place on, it ends in `a` and has put out the given text.
It does succeed on a steady target. -/
structure Emits (work : Writing α) (place : Nat) (a : α) (text : Bytes) : Prop where
  output : ∀ {out after : Output} {b : α}, out.position = place →
    work.run out = (.ok b, after) → b = a ∧ out.Extends after text
  steady : ∀ {out : Output}, out.position = place → out.target.Steady →
    ∃ after, work.run out = (.ok a, after)

theorem run_bind (work : Writing α) (next : α → Writing β) (out : Output) :
    (work >>= next).run out =
      match work.run out with
      | (.ok a, middle) => (next a).run middle
      | (.error e, middle) => (.error e, middle) := by
  show (ExceptT.bindCont next ∘ fun p => p) (work.run out).1 (work.run out).2 = _
  rcases work.run out with ⟨_ | _, _⟩ <;> rfl

theorem emits_pure (a : α) (place : Nat) : Emits (pure a) place a [] where
  output := by
    rintro out after b _ ⟨⟩
    exact ⟨rfl, .refl out⟩
  steady := fun {out} _ _ => ⟨out, rfl⟩

theorem Emits.bind {work : Writing α} {next : α → Writing β} {place : Nat} {a : α} {b : β}
    {front behind : Bytes} (first : Emits work place a front)
    (second : Emits (next a) (place + front.length) b behind) :
    Emits (work >>= next) place b (front ++ behind) := by
  constructor
  · intro out after c position run
    rw [run_bind] at run
    rcases worked : work.run out with ⟨_ | a', middle⟩
    · rw [worked] at run
      cases run
    · rw [worked] at run
      obtain ⟨rfl, one⟩ := first.output position worked
      obtain ⟨rfl, two⟩ := second.output (one.position_eq.trans (position ▸ rfl)) run
      exact ⟨rfl, one.trans two⟩
  · intro out position steady
    obtain ⟨middle, run⟩ := first.steady position steady
    obtain ⟨-, one⟩ := first.output position run
    obtain ⟨after, rerun⟩ :=
      second.steady (one.position_eq.trans (position ▸ rfl)) (one.target_eq ▸ steady)
    refine ⟨after, ?_⟩
    rw [run_bind, run]
    exact rerun

theorem Emits.congr {work : Writing α} {place place' : Nat} {a : α} {text text' : Bytes}
    (emits : Emits work place a text) (places : place = place') (texts : text = text') :
    Emits work place' a text' :=
  places ▸ texts ▸ emits

theorem emits_write (bytes : Bytes) (place : Nat) : Emits (write bytes) place () bytes where
  output _ run := ⟨rfl, Output.extends_writeAll run⟩
  steady _ steady := Output.writeAll_of_steady bytes _ steady

theorem emits_position (place : Nat) : Emits position place place [] where
  output := by
    rintro out after b rfl ⟨⟩
    exact ⟨rfl, .refl out⟩
  steady := fun {out} position _ => ⟨out, position ▸ rfl⟩

theorem emits_flush (place : Nat) : Emits flush place () [] where
  output := by
    intro out after b _ run
    obtain rfl : out = after := congrArg Prod.snd run
    exact ⟨rfl, .refl out⟩
  steady := by
    intro out _ steady
    refine ⟨out, ?_⟩
    show (out.target.flush, out) = _
    rw [steady.flush_ok]

theorem emits_forM (text : α → Bytes) (l : List α) (place : Nat) :
    Emits (l.forM fun a => write (text a)) place () (l.flatMap text) := by
  induction l generalizing place with
  | nil => exact emits_pure () place
  | cons a l ih => exact (emits_write (text a) place).bind (ih _)

end Writing

def objectText (id : ObjectId) (object : Object) : Bytes :=
  objectHead id ++ (object.bytes ++ ascii "\nendobj\n")

def objectsText (objects : List (ObjectId × Object)) : Bytes :=
  objects.flatMap fun (id, object) => objectText id object

def placesFrom (place : Nat) : List (ObjectId × Object) → List (Nat × Nat)
  | [] => []
  | (id, object) :: rest =>
    (id.number, place) :: placesFrom (place + (objectText id object).length) rest

def tableText (size : Nat) (place : Nat → Option Nat) : Bytes :=
  ascii ("xref\n0 " ++ toString size ++ "\n") ++
    (placeEntry none ++ (List.range' 1 (size - 1)).flatMap fun number => placeEntry (place number))

section Places

variable {objects front behind : List (ObjectId × Object)} {id : ObjectId} {object : Object}

theorem objectsText_cons (id : ObjectId) (object : Object)
    (rest : List (ObjectId × Object)) :
    objectsText ((id, object) :: rest) = objectText id object ++ objectsText rest :=
  List.flatMap_cons

theorem objectsText_append (front behind : List (ObjectId × Object)) :
    objectsText (front ++ behind) = objectsText front ++ objectsText behind :=
  List.flatMap_append

theorem placesFrom_append (place : Nat) (front behind : List (ObjectId × Object)) :
    placesFrom place (front ++ behind) =
      placesFrom place front ++ placesFrom (place + (objectsText front).length) behind := by
  induction front generalizing place with
  | nil => rfl
  | cons entry front ih =>
    obtain ⟨id, object⟩ := entry
    rw [List.cons_append, placesFrom, placesFrom, ih, List.cons_append, objectsText_cons,
      List.length_append, Nat.add_assoc]

theorem map_fst_placesFrom (place : Nat) (objects : List (ObjectId × Object)) :
    (placesFrom place objects).map Prod.fst = objects.map fun entry => entry.1.number := by
  induction objects generalizing place with
  | nil => rfl
  | cons entry rest ih => rw [placesFrom, List.map_cons, List.map_cons, ih]

theorem placesFrom_lt {place : Nat} {entry : Nat × Nat} (mem : entry ∈ placesFrom place objects) :
    entry.2 < place + (objectsText objects).length := by
  induction objects generalizing place with
  | nil => cases mem
  | cons head rest ih =>
    obtain ⟨id, object⟩ := head
    have mark : (ascii "\nendobj\n").length = 8 := rfl
    rw [objectsText_cons, List.length_append]
    rcases List.mem_cons.1 mem with rfl | mem
    · simp only [objectText, List.length_append, mark]
      omega
    · have below := ih mem
      omega

theorem lookup_placesFrom (last : ∀ entry ∈ behind, entry.1.number ≠ id.number) (place : Nat) :
    (placesFrom place (front ++ (id, object) :: behind)).reverse.lookup id.number =
      some (place + (objectsText front).length) := by
  rw [placesFrom_append, placesFrom, List.reverse_append, List.reverse_cons, List.append_assoc,
    List.lookup_eq_some_iff]
  refine ⟨_, _, rfl, fun entry mem => ?_⟩
  have listed : entry.1 ∈ behind.map fun entry => entry.1.number := by
    rw [← map_fst_placesFrom]
    exact List.mem_map_of_mem (List.mem_reverse.1 mem)
  obtain ⟨other, mem, number⟩ := List.mem_map.1 listed
  simpa [← number] using (last other mem).symm

theorem lookup_placesFrom_none {number : Nat}
    (absent : ∀ entry ∈ objects, entry.1.number ≠ number) (place : Nat) :
    (placesFrom place objects).reverse.lookup number = none := by
  rw [List.lookup_eq_none_iff]
  intro entry mem
  have listed : entry.1 ∈ objects.map fun entry => entry.1.number := by
    rw [← map_fst_placesFrom place]
    exact List.mem_map_of_mem (List.mem_reverse.1 mem)
  obtain ⟨other, mem, same⟩ := List.mem_map.1 listed
  simpa [← same] using (absent other mem).symm

end Places

namespace Writing

theorem emits_writeObject (id : ObjectId) (object : Object) (place : Nat) :
    Emits (writeObject id object) place place (objectText id object) := by
  refine Emits.congr ((emits_position place).bind <| (emits_write _ _).bind <|
    (emits_write _ _).bind <| (emits_write _ _).bind <| emits_pure place _) rfl ?_
  rw [List.nil_append, List.append_nil, objectText, objectHead]

theorem emits_writeObjects (places : List (Nat × Nat)) (objects : List (ObjectId × Object))
    (place : Nat) :
    Emits (writeObjects places objects) place ((placesFrom place objects).reverse ++ places)
      (objectsText objects) := by
  induction objects generalizing places place with
  | nil => exact emits_pure places place
  | cons entry rest ih =>
    obtain ⟨id, object⟩ := entry
    rw [placesFrom, List.reverse_cons, List.append_assoc]
    refine (emits_writeObject id object place).bind ?_
    exact ih ((id.number, place) :: places) _

theorem emits_writePlaces (size : Nat) (places : List (Nat × Nat)) (place : Nat) :
    Emits (writePlaces size places) place () (tableText size fun number => places.lookup number) :=
  (emits_write _ _).bind <| (emits_write _ _).bind <|
    emits_forM (fun number => placeEntry (places.lookup number)) _ _

end Writing

namespace File

def start (version : String) (f : File) : Nat :=
  (header version).length + (objectsText f.closed.objects).length

/-- Where the object of a number begins: the last one, if there are several. -/
def place? (version : String) (f : File) (number : Nat) : Option Nat :=
  (placesFrom (header version).length f.closed.objects).reverse.lookup number

def text (version : String) (f : File) : Bytes :=
  header version ++ (objectsText f.closed.objects ++
    (tableText f.closed.size (f.place? version) ++ (ascii "trailer\n" ++ (f.closed.trailer.bytes ++
      ascii ("\nstartxref\n" ++ toString (f.start version) ++ "\n%%EOF")))))

/-- What comes out is the text of the file, however many bytes are taken at a time. -/
theorem emits_write (version : String) (f : File) :
    Writing.Emits (f.write version) 0 () (f.text version) := by
  have body : Writing.Emits f.writeBody (header version).length () _ :=
    ((Writing.emits_writeObjects [] f.closed.objects _).bind <|
      (Writing.emits_position _).bind <|
        (Writing.emits_writePlaces f.closed.size _ _).bind <|
          (Writing.emits_write (ascii "trailer\n") _).bind <|
            (Writing.emits_write f.closed.trailer.bytes _).bind <|
              (Writing.emits_write _ _).bind <| Writing.emits_flush _)
  refine Writing.Emits.congr ((Writing.emits_write (header version) 0).bind
    (body.congr (Nat.zero_add _).symm rfl)) rfl ?_
  rw [List.append_nil, List.append_nil, List.nil_append, text]
  rfl

theorem result_of_steady {target : Target} (steady : target.Steady) (version : String) (f : File) :
    ∃ after, (f.write version).runOn target = (.ok (), after) :=
  (f.emits_write version).steady rfl steady

theorem bytes_of_ok {target : Target} {version : String} {f : File} {after : Output}
    (run : (f.write version).runOn target = (.ok (), after)) : after.bytes = f.text version :=
  ((f.emits_write version).output rfl run).2.bytes_eq

theorem bytes_eq_text (version : String) (f : File) : f.bytes version = f.text version := by
  obtain ⟨after, run⟩ := result_of_steady Target.memory_steady version f
  rw [bytes, pieces, run]
  exact bytes_of_ok run

theorem object_at (version : String) {f : File} {front behind : List (ObjectId × Object)}
    {id : ObjectId} {object : Object}
    (objects : f.closed.objects = front ++ (id, object) :: behind)
    (last : ∀ entry ∈ behind, entry.1.number ≠ id.number) :
    ∃ place rest, f.place? version id.number = some place ∧
      (f.text version).drop place = objectText id object ++ rest := by
  have place : f.place? version id.number =
      some ((header version ++ objectsText front).length) := by
    rw [place?, objects, lookup_placesFrom last, List.length_append]
  have text : ∃ rest, f.text version =
      (header version ++ objectsText front) ++ (objectText id object ++ rest) := by
    rw [File.text, objects, objectsText_append, objectsText_cons]
    simp only [List.append_assoc]
    exact ⟨_, rfl⟩
  obtain ⟨rest, text⟩ := text
  exact ⟨_, rest, place, by rw [text, List.drop_left]⟩

theorem place?_lt {version : String} {f : File} {number place : Nat}
    (found : f.place? version number = some place) : place < (f.text version).length := by
  obtain ⟨front, behind, split, _⟩ := List.lookup_eq_some_iff.1 found
  have mem : (number, place) ∈ placesFrom (header version).length f.closed.objects := by
    rw [← List.mem_reverse, split]
    simp
  have below := placesFrom_lt mem
  rw [text, List.length_append, List.length_append]
  omega

theorem place?_none {version : String} {f : File} {number : Nat}
    (absent : ∀ entry ∈ f.closed.objects, entry.1.number ≠ number) :
    f.place? version number = none :=
  lookup_placesFrom_none absent _

end File

end Folio.Pdf
