import Folio.Proofs.Pdf.Journal
import Folio.Proofs.Pdf.Opening

/-! # The table of places

Whatever is asked of a file before it is written, and whatever portions the target takes, the table
of places says of each number whether an object of that number was written and where it begins.
-/

namespace Folio.Pdf

/-- Bytes that are objects, one after the other, with a table of their places. -/
structure CrossReferenced (version : String) (objects : List (ObjectId × Object))
    (trailer : Object) (entries : List Bytes) (start : Nat) (bytes : Bytes) : Prop where
  whole : bytes = header version ++ (objectsText objects ++
    (ascii ("xref\n0 " ++ toString entries.length ++ "\n") ++ (entries.flatten ++
      (ascii "trailer\n" ++ (trailer.bytes ++
        ascii ("\nstartxref\n" ++ toString start ++ "\n%%EOF"))))))
  size : ∃ others, trailer = .dict ((ascii "Size", .int entries.length) :: others)
  start_eq : start = (header version ++ objectsText objects).length
  twenty : ∀ entry ∈ entries, entry.length = 20
  in_use : ∀ id object, (id, object) ∈ objects → ∃ entry place rest,
    entries[id.number]? = some entry ∧ slot? entry = some (.used place 0) ∧
      bytes.drop place = objectText id object ++ rest
  free : ∀ number < entries.length, (∀ entry ∈ objects, entry.1.number ≠ number) →
    ∃ entry, entries[number]? = some entry ∧ slot? entry = some .free

namespace File

variable {version : String} {f : File}

structure InOrder (f : File) : Prop where
  increasing : f.closed.objects.Pairwise (·.1.number < ·.1.number)
  number_pos : ∀ entry ∈ f.closed.objects, 1 ≤ entry.1.number
  number_lt : ∀ entry ∈ f.closed.objects, entry.1.number < f.closed.size

theorem crossReferenced_text (order : f.InOrder) (sized : 0 < f.closed.size)
    (short : (f.text version).length < 10 ^ 10) :
    CrossReferenced version f.closed.objects f.closed.trailer
      ((rows f.closed.size (f.place? version)).map placeEntry) (f.start version)
      (f.text version) := by
  have fits : ∀ number, ∀ place ∈ f.place? version number, place < 10 ^ 10 := fun _ _ found =>
    Nat.lt_trans (place?_lt found) short
  have length : ((rows f.closed.size (f.place? version)).map placeEntry).length =
      f.closed.size := by
    rw [List.length_map, length_rows sized]
  constructor
  · rw [length, text, tableText_eq_rows, List.flatMap_def, List.append_assoc]
  · rw [length]
    exact ⟨_, rfl⟩
  · exact List.length_append.symm
  · intro entry mem
    obtain ⟨row, listed, rfl⟩ := List.mem_map.1 mem
    exact length_placeEntry (rows_fit _ fits row listed)
  · intro id object mem
    have pos := order.number_pos _ mem
    have below := order.number_lt _ mem
    obtain ⟨front, behind, split⟩ := List.append_of_mem mem
    have last : ∀ entry ∈ behind, entry.1.number ≠ id.number := by
      have increasing := order.increasing
      rw [split, List.pairwise_append, List.pairwise_cons] at increasing
      intro entry mem
      exact Nat.ne_of_gt (increasing.2.1.1 entry mem)
    obtain ⟨place, rest, found, text⟩ := object_at version split last
    refine ⟨placeEntry (some place), place, rest, ?_, ?_, text⟩
    · rw [List.getElem?_map, getElem?_rows _ pos below, found, Option.map_some]
    · exact slot?_placeEntry (found ▸ fits id.number)
  · intro number below absent
    rw [length] at below
    refine ⟨placeEntry none, ?_, slot?_placeEntry (by simp)⟩
    rw [List.getElem?_map]
    rcases Nat.eq_zero_or_pos number with rfl | pos
    · rfl
    · rw [getElem?_rows _ pos below, place?_none absent, Option.map_some]

namespace Journal

variable {j : Journal}

theorem Current.lookup_closed (current : j.Current) (id : ObjectId) :
    j.file.closed.objects.lookup id =
      if id = catalogId then some catalog
      else if id = pagesId then some j.file.pageTree
      else j.given.reverse.lookup id := by
  have objects : j.file.closed.objects =
      Ordered.place catalogId catalog (Ordered.place pagesId j.file.pageTree j.file.objects) := rfl
  rw [objects, Ordered.lookup_place, Ordered.lookup_place, current.latest]

theorem Current.sorted_closed (current : j.Current) :
    j.file.closed.objects.Pairwise (·.1 < ·.1) :=
  have places {id : ObjectId} {object : Object} {l : List (ObjectId × Object)} :
      l.Pairwise (·.1 < ·.1) → (Ordered.place id object l).Pairwise (·.1 < ·.1) :=
    Ordered.sorted_place ObjectId.lt_trans ObjectId.lt_of_not_lt
  places (places current.sorted)

theorem mem_closed {f : File} {entry : ObjectId × Object} (mem : entry ∈ f.closed.objects) :
    entry = (catalogId, catalog) ∨ entry = (pagesId, f.pageTree) ∨ entry ∈ f.objects := by
  rcases Ordered.mem_place mem with rfl | mem
  · exact .inl rfl
  · exact .inr (Ordered.mem_place mem)

theorem Current.generation_closed (current : j.Current) :
    ∀ entry ∈ j.file.closed.objects, entry.1.generation = 0 := by
  intro entry mem
  rcases mem_closed mem with rfl | rfl | mem
  · rfl
  · rfl
  · exact current.generation entry mem

theorem size_closed (numbered : j.Numbered) (fits : j.Fits) :
    j.file.closed.size = j.file.highest + 1 := by
  have three : 3 ≤ j.file.highest := numbered.le_highest _ numbered.reserved
  have highest : j.file.closed.highest = j.file.highest := by
    show max (max j.file.highest 2) 3 = j.file.highest
    omega
  rw [size, next, highest, Nat.mod_eq_of_lt (numbered.room fits)]

theorem inOrder_of_sound (numbered : j.Numbered) (current : j.Current) (fits : j.Fits) :
    j.file.InOrder := by
  have three : 3 ≤ j.file.highest := numbered.le_highest _ numbered.reserved
  have bounds : ∀ entry ∈ j.file.closed.objects,
      1 ≤ entry.1.number ∧ entry.1.number ≤ j.file.highest := by
    intro entry mem
    rcases mem_closed mem with rfl | rfl | mem
    · exact ⟨by decide, three⟩
    · exact ⟨Nat.le_succ 1, Nat.le_of_succ_le three⟩
    · have used := current.known entry mem
      exact ⟨(fits _ used).1, numbered.le_highest _ used⟩
  constructor
  · refine current.sorted_closed.imp_of_mem fun {a b} left right below => ?_
    rcases below with below | ⟨-, below⟩
    · exact below
    · rw [current.generation_closed b right] at below
      exact absurd below (Nat.not_lt_zero _)
  · intro entry mem
    exact (bounds entry mem).1
  · intro entry mem
    rw [size_closed numbered fits]
    exact Nat.lt_succ_of_le (bounds entry mem).2

end Journal

open Journal (after)

/-- Whatever is asked of a file, ids that it hands out are new, it writes the latest object of each
id once, and its table of places is right. -/
theorem requested_file_cross_referenced (version : String) (fonts : Dict)
    (requests : List Request) (fits : (after fonts requests).Fits) :
    let j := after fonts requests
    let objects := j.file.closed.objects
    (∀ front request behind id, requests = front ++ request :: behind →
      request.handedOut? (after fonts front).file = some id → id ∉ (after fonts front).used) ∧
    objects.Pairwise (·.1.number < ·.1.number) ∧ (∀ entry ∈ objects, entry.1.generation = 0) ∧
    (pagesId, j.file.pageTree) ∈ objects ∧ (catalogId, catalog) ∈ objects ∧
    (∀ id object, id ≠ pagesId → id ≠ catalogId →
      ((id, object) ∈ objects ↔ j.given.reverse.lookup id = some object)) ∧
    ∀ target : Target,
      (target.Steady → ∃ out, (j.file.write version).runOn target = (.ok (), out)) ∧
      ∀ out, (j.file.write version).runOn target = (.ok (), out) → out.bytes.length < 10 ^ 10 →
        ∃ entries start, CrossReferenced version objects j.file.closed.trailer entries start
          out.bytes := by
  intro j objects
  obtain ⟨numbered, current⟩ := Journal.sound_after fonts fits
  have order := Journal.inOrder_of_sound numbered current fits
  have mem_objects {id : ObjectId} {object : Object} :
      (id, object) ∈ objects ↔ objects.lookup id = some object :=
    Ordered.mem_iff_lookup ObjectId.lt_irrefl current.sorted_closed
  refine ⟨?_, order.increasing, current.generation_closed, ?_, ?_, ?_, ?_⟩
  · rintro front request behind id rfl handed
    have earlier : (after fonts front).Fits := by
      have whole : after fonts (front ++ request :: behind) =
          (request :: behind).foldl Journal.perform (after fonts front) := List.foldl_append
      rw [whole] at fits
      exact fits.of_foldl
    exact (Journal.sound_after fonts earlier).1.fresh earlier handed
  · rw [mem_objects, current.lookup_closed, if_neg (by decide), if_pos rfl]
  · rw [mem_objects, current.lookup_closed, if_pos rfl]
  · intro id object other_tree other_catalog
    rw [mem_objects, current.lookup_closed, if_neg other_catalog, if_neg other_tree]
  · intro target
    refine ⟨fun steady => result_of_steady steady version j.file, ?_⟩
    intro out run short
    rw [bytes_of_ok run] at short ⊢
    have sized : 0 < j.file.closed.size := by
      rw [Journal.size_closed numbered fits]
      exact Nat.succ_pos _
    exact ⟨_, _, crossReferenced_text order sized short⟩

theorem requested_file_with_gap :
    let requests : List Request :=
      [.put 6 (.int 1), .newId, .add (.keyword "Later"), .put 6 (.int 2), .setPageIds []]
    let target : Target := { takes := fun _ _ => 3 }
    let j := after [] requests
    ∃ out entries start, (j.file.write "1.7").runOn target = (.ok (), out) ∧
      CrossReferenced "1.7" j.file.closed.objects j.file.closed.trailer entries start out.bytes ∧
      (⟨6, 0⟩, .int 2) ∈ j.file.closed.objects ∧
      (∃ entry, entries[5]? = some entry ∧ slot? entry = some .free) := by
  intro requests target j
  have fits : j.Fits := by
    unfold Journal.Fits
    decide +kernel
  obtain ⟨-, -, -, -, -, latest, written⟩ := requested_file_cross_referenced "1.7" [] requests fits
  have steady : target.Steady := ⟨fun _ _ _ => Nat.succ_pos 2, rfl⟩
  obtain ⟨out, run⟩ := (written target).1 steady
  have short : out.bytes.length < 10 ^ 10 := by
    rw [bytes_of_ok run]
    decide +kernel
  obtain ⟨entries, start, whole⟩ := (written target).2 out run short
  have nine : entries.length = 9 := by
    obtain ⟨others, sized⟩ := whole.size
    have first : (9 : Int) = entries.length := by
      injection sized with sized
      injection sized with sized
      injection (Prod.ext_iff.1 sized).2
    omega
  refine ⟨out, entries, start, run, whole, ?_, whole.free 5 ?_ ?_⟩
  · exact (latest _ _ (by decide) (by decide)).2 rfl
  · omega
  · decide +kernel

end File

end Folio.Pdf
