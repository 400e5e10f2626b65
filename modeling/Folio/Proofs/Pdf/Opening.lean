import Folio.Proofs.Pdf.Emission
import Folio.Proofs.Pdf.ReadBack

/-! # Opening a file

The text of a file can be opened: its last number leads to the table of places, every row of the
table says where an object begins, and the trailer follows the table.
-/

namespace Folio.Pdf

theorem behind?_append (text rest : Bytes) : behind? text (text ++ rest) = some rest := by
  rw [behind?, if_pos (List.prefix_append _ _), List.drop_left]

theorem word_line {w rest : Bytes} (some : w ≠ []) (regular : Regular w) (ended : Ended rest) :
    word (ascii "\n" ++ (w ++ rest)) = (w, rest) :=
  (word_of_space (by decide) _).trans (word_append some regular ended)

theorem stops_line {w : Bytes} (some : w ≠ []) (regular : Regular w)
    (not_natural : natural? w = none) (ne_mark : w ≠ ascii "R") {rest : Bytes}
    (ended : Ended rest) : Stops (ascii "\n" ++ (w ++ rest)) := by
  have first := word_line some regular ended
  refine stops_of_word (ended_cons (by decide) _) ?_ (.inl ?_)
  · rw [first]
    exact ne_mark
  · rw [first]
    exact not_natural

theorem stops_endobj (rest : Bytes) : Stops (ascii "\nendobj\n" ++ rest) :=
  stops_line (w := ascii "endobj") (by decide) (by decide +kernel) (by decide +kernel) (by decide)
    (ended_cons (b := byteOf '\n') (by decide) rest)

theorem stops_stream (rest : Bytes) : Stops (ascii "\nstream\n" ++ rest) :=
  stops_line (w := ascii "stream") (by decide) (by decide +kernel) (by decide +kernel) (by decide)
    (ended_cons (b := byteOf '\n') (by decide) rest)

theorem stops_startxref (rest : Bytes) : Stops (ascii "\nstartxref\n" ++ rest) :=
  stops_line (w := ascii "startxref") (by decide) (by decide +kernel) (by decide +kernel)
    (by decide) (ended_cons (b := byteOf '\n') (by decide) rest)

theorem startOf?_append (front : Bytes) (n : Nat) :
    startOf? (front ++ ascii ("\nstartxref\n" ++ toString n ++ "\n%%EOF")) = some n := by
  have numeral := numeral_toString n
  have tail : (front ++ ascii ("\nstartxref\n" ++ toString n ++ "\n%%EOF")).reverse =
      (ascii "\n%%EOF").reverse ++ ((ascii (toString n)).reverse ++
        ((ascii "\nstartxref\n").reverse ++ front.reverse)) := by
    simp only [ascii_append, List.reverse_append, List.append_assoc]
  have digits : ∀ b ∈ (ascii (toString n)).reverse, isDigit b = true :=
    fun b mem => numeral.all_digits b (List.mem_reverse.1 mem)
  have stop : ((ascii "\nstartxref\n").reverse ++ front.reverse).takeWhile isDigit = [] :=
    List.takeWhile_cons_of_neg (by decide)
  have go : ((ascii "\nstartxref\n").reverse ++ front.reverse).dropWhile isDigit =
      (ascii "\nstartxref\n").reverse ++ front.reverse :=
    List.dropWhile_cons_of_neg (by decide)
  rw [startOf?, tail, behind?_append]
  simp only [Option.bind_eq_bind, Option.bind_some, List.takeWhile_append_of_pos digits,
    List.dropWhile_append_of_pos digits, stop, go, behind?_append, List.append_nil,
    List.reverse_reverse, numeral.natural]

section Table

def slotOf : Option Nat → Slot
  | some place => .used place 0
  | none => .free

theorem length_placeEntry {place : Option Nat} (fits : ∀ n ∈ place, n < 10 ^ 10) :
    (placeEntry place).length = 20 := by
  cases place with
  | none => rfl
  | some n =>
    rw [placeEntry, ascii_append, List.length_append, length_padded (by decide) (fits n rfl)]
    rfl

theorem slot?_placeEntry {place : Option Nat} (fits : ∀ n ∈ place, n < 10 ^ 10) :
    slot? (placeEntry place) = some (slotOf place) := by
  cases place with
  | none => decide +kernel
  | some n =>
    have digits : (ascii (padded 10 n)).length = 10 := length_padded (by decide) (fits n rfl)
    have generation : natural? ((ascii "00000 n \n").take 5) = some 0 := by decide +kernel
    have entry : placeEntry (some n) = ascii (padded 10 n) ++ (ascii " " ++ ascii "00000 n \n") :=
      ascii_append _ _
    have mark : (ascii "00000 n \n").drop 5 = ascii " n \n" := rfl
    rw [entry, slot?, List.take_left' digits, List.drop_left' digits, (numeral_padded 10 n).natural,
      behind?_append]
    simp only [Option.bind_eq_bind, Option.bind_some, generation, mark, if_true]
    rfl

theorem slots?_flatMap {places : List (Option Nat)}
    (fits : ∀ place ∈ places, ∀ n ∈ place, n < 10 ^ 10) (rest : Bytes) :
    slots? places.length (places.flatMap placeEntry ++ rest) =
      some (places.map slotOf, rest) := by
  induction places with
  | nil => rfl
  | cons place places ih =>
    obtain ⟨first, others⟩ := List.forall_mem_cons.1 fits
    have length := length_placeEntry first
    rw [List.flatMap_cons, List.append_assoc, List.length_cons, slots?, List.take_left' length,
      List.drop_left' length, slot?_placeEntry first, ih others]
    rfl

/-- The rows of the table in order: the first is that of zero. -/
def rows (size : Nat) (place : Nat → Option Nat) : List (Option Nat) :=
  none :: (List.range' 1 (size - 1)).map place

theorem getElem?_rows {size number : Nat} (place : Nat → Option Nat) (pos : 0 < number)
    (below : number < size) : (rows size place)[number]? = some (place number) := by
  obtain ⟨number, rfl⟩ := Nat.exists_eq_add_of_le' pos
  rw [rows, List.getElem?_cons_succ, List.getElem?_map,
    List.getElem?_range' (by omega : number < size - 1), Option.map_some]
  congr 2
  omega

theorem length_rows {size : Nat} (pos : 0 < size) (place : Nat → Option Nat) :
    (rows size place).length = size := by
  rw [rows, List.length_cons, List.length_map, List.length_range']
  omega

theorem tableText_eq_rows (size : Nat) (place : Nat → Option Nat) :
    tableText size place =
      ascii ("xref\n0 " ++ toString size ++ "\n") ++ (rows size place).flatMap placeEntry := by
  rw [tableText, rows, List.flatMap_cons, List.flatMap_map]

theorem rows_fit (size : Nat) {place : Nat → Option Nat}
    (fits : ∀ number, ∀ n ∈ place number, n < 10 ^ 10) :
    ∀ row ∈ rows size place, ∀ n ∈ row, n < 10 ^ 10 := by
  intro row mem
  rcases List.mem_cons.1 mem with rfl | mem
  · simp
  · obtain ⟨number, _, rfl⟩ := List.mem_map.1 mem
    exact fits number

theorem table?_append {size : Nat} (pos : 0 < size) {place : Nat → Option Nat}
    (fits : ∀ number, ∀ n ∈ place number, n < 10 ^ 10) (rest : Bytes) :
    table? (tableText size place ++ rest) = some ((rows size place).map slotOf, rest) := by
  have numeral := numeral_toString size
  have first (behind : Bytes) : word (ascii (toString size) ++ (ascii "\n" ++ behind)) =
      (ascii (toString size), ascii "\n" ++ behind) :=
    numeral.word (ended_cons (by decide) _)
  have whole := slots?_flatMap (rows_fit size fits) rest
  rw [length_rows pos] at whole
  rw [table?, tableText_eq_rows, ascii_append, ascii_append]
  simp only [List.append_assoc, behind?_append, Option.bind_eq_bind, Option.bind_some, first,
    numeral.natural, whole]

end Table

theorem dictOf?_bytes {entries : List (Bytes × Object)} (readable : EntriesReadable entries)
    {rest : Bytes} (stops : Stops rest) :
    dictOf? ((Object.dict entries).bytes ++ rest) =
      some (Ordered.ofList (entryValues entries), rest) := by
  rw [dictOf?, Object.read_append (o := .dict entries) readable stops, Object.value]

namespace File

variable {version : String} {f : File}

def trailerEntries (f : File) : List (Bytes × Object) :=
  [(ascii "Size", .int f.closed.size), (ascii "Root", .ref catalogId)] ++
    f.infoId.toList.map fun id => (ascii "Info", .ref id)

theorem trailer_readable (f : File) : EntriesReadable f.trailerEntries := by
  have size : PlainName (ascii "Size") := by decide +kernel
  have root : PlainName (ascii "Root") := by decide +kernel
  have info : PlainName (ascii "Info") := by decide +kernel
  cases f with
  | mk objects highest pageIds infoId =>
    cases infoId with
    | none => exact ⟨⟨size, trivial⟩, ⟨root, trivial⟩, trivial⟩
    | some id => exact ⟨⟨size, trivial⟩, ⟨root, trivial⟩, ⟨info, trivial⟩, trivial⟩

def opened (version : String) (f : File) : Opened where
  bytes := f.text version
  slots := (rows f.closed.size (f.place? version)).map slotOf
  trailer := Ordered.ofList (entryValues f.trailerEntries)

theorem root_opened : refAt? "Root" (f.opened version).trailer = some catalogId := by
  cases f with
  | mk objects highest pageIds infoId => cases infoId <;> rfl

theorem size_opened : intAt? "Size" (f.opened version).trailer = some (f.closed.size : Int) := by
  cases f with
  | mk objects highest pageIds infoId => cases infoId <;> rfl

theorem info_opened :
    (f.opened version).trailer.lookup (ascii "Info") = f.infoId.map .ref := by
  cases f with
  | mk objects highest pageIds infoId => cases infoId <;> rfl

theorem read?_text (sized : 0 < f.closed.size) (short : (f.text version).length < 10 ^ 10) :
    Opened.read? (f.text version) = some (f.opened version) := by
  have fits : ∀ number, ∀ n ∈ f.place? version number, n < 10 ^ 10 := fun _ _ found =>
    Nat.lt_trans (place?_lt found) short
  have start : startOf? (f.text version) = some (f.start version) := by
    rw [text]
    simp only [← List.append_assoc]
    exact startOf?_append _ _
  have behind : (f.text version).drop (f.start version) =
      tableText f.closed.size (f.place? version) ++ (ascii "trailer\n" ++ (f.closed.trailer.bytes ++
        ascii ("\nstartxref\n" ++ toString (f.start version) ++ "\n%%EOF"))) := by
    have length : (header version ++ objectsText f.closed.objects).length = f.start version :=
      List.length_append
    rw [text, ← List.append_assoc, List.drop_left' length]
  have stops : Stops (ascii ("\nstartxref\n" ++ toString (f.start version) ++ "\n%%EOF")) := by
    rw [String.append_assoc, ascii_append]
    exact stops_startxref _
  have trailer : dictOf? (f.closed.trailer.bytes ++
      ascii ("\nstartxref\n" ++ toString (f.start version) ++ "\n%%EOF")) =
        some (Ordered.ofList (entryValues f.trailerEntries), _) :=
    dictOf?_bytes f.trailer_readable stops
  simp only [Opened.read?, start, Option.bind_eq_bind, Option.bind_some, behind,
    table?_append sized fits, behind?_append, trailer]
  rfl

/-- An object is found under its number, with nothing but its bytes before the mark of its end. -/
theorem body?_of_mem (nodup : (f.closed.objects.map fun entry => entry.1.number).Nodup)
    {id : ObjectId} {object : Object} (mem : (id, object) ∈ f.closed.objects)
    (generation : id.generation = 0) (pos : 0 < id.number) (below : id.number < f.closed.size) :
    ∃ rest, (f.opened version).body? id =
      some (object.bytes ++ (ascii "\nendobj\n" ++ rest)) := by
  obtain ⟨front, behind, split⟩ := List.append_of_mem mem
  have last : ∀ entry ∈ behind, entry.1.number ≠ id.number := by
    rw [split, List.map_append, List.map_cons, List.nodup_append, List.nodup_cons] at nodup
    intro entry other same
    exact nodup.2.1.1 (List.mem_map.2 ⟨entry, other, same⟩)
  obtain ⟨place, rest, found, text⟩ := object_at version split last
  have slot : (f.opened version).slots[id.number]? = some (.used place 0) := by
    rw [opened, List.getElem?_map, getElem?_rows _ pos below, found]
    rfl
  refine ⟨rest, ?_⟩
  simp only [Opened.body?, slot, generation, if_true]
  show behind? (objectHead id) ((f.text version).drop place) = _
  rw [text, objectText, List.append_assoc, List.append_assoc, behind?_append]

end File

end Folio.Pdf
