import Folio.Proofs.Ordered
import Folio.Proofs.Pdf.Atom
import Folio.Proofs.Pdf.Strings

/-! # Reading back

What is written as a value is read as that value, with the entries of dictionaries in order, real
numbers to three places and the ends of lines in strings as line feeds. The reader stops where
the value stops, provided that what follows could not belong to it.
-/

namespace Folio.Pdf

def thousandths (m : Number.Magnitude) : Nat :=
  Number.roundHalfEven (m.quotient.1 * 10 ^ 3) m.quotient.2

/-- A finite number to three places. -/
def realValue (x : Float32) : Value :=
  match Number.ofSingle x with
  | .finite negative m => .real negative (thousandths m) 3
  | _ => .null

mutual

def Object.value : Object → Value
  | .null => .null
  | .bool b => .bool b
  | .int n => .int n
  | .real x => realValue x
  | .name n => .name n
  | .literal s => .string (lineFeeds false s)
  | .hex s => .string s
  | .array items => .array (itemValues items)
  | .dict entries => .dict (Ordered.ofList (entryValues entries))
  | .stream entries content =>
    .dict (Ordered.ofList (entryValues entries ++ [(ascii "Length", .int content.length)]))
  | .ref id => .ref id

def itemValues : List Object → List Value
  | [] => []
  | item :: rest => item.value :: itemValues rest

def entryValues : List (Bytes × Object) → List (Bytes × Value)
  | [] => []
  | (key, value) :: rest => (key, value.value) :: entryValues rest

end

mutual

/-- What can be read back: finite numbers and plain names, with no stream inside. -/
def Object.Readable : Object → Prop
  | .real x => x.isFinite = true
  | .name n => PlainName n
  | .array items => ItemsReadable items
  | .dict entries => EntriesReadable entries
  | .stream _ _ => False
  | _ => True

def ItemsReadable : List Object → Prop
  | [] => True
  | item :: rest => item.Readable ∧ ItemsReadable rest

def EntriesReadable : List (Bytes × Object) → Prop
  | [] => True
  | (key, value) :: rest => (PlainName key ∧ value.Readable) ∧ EntriesReadable rest

end

theorem itemsReadable_iff {items : List Object} :
    ItemsReadable items ↔ ∀ item ∈ items, item.Readable := by
  induction items with
  | nil => simp [ItemsReadable]
  | cons item rest ih => rw [ItemsReadable, ih, List.forall_mem_cons]

theorem entriesReadable_iff {entries : List (Bytes × Object)} :
    EntriesReadable entries ↔ ∀ entry ∈ entries, PlainName entry.1 ∧ entry.2.Readable := by
  induction entries with
  | nil => simp [EntriesReadable]
  | cons entry rest ih => rw [EntriesReadable, ih, List.forall_mem_cons]

theorem entryBytes_eq_map (entries : List (Bytes × Object)) :
    entryBytes entries = entries.map (Prod.map id Object.bytes) := by
  induction entries with
  | nil => rfl
  | cons entry rest ih => rw [entryBytes, ih, List.map_cons]; rfl

theorem entryValues_eq_map (entries : List (Bytes × Object)) :
    entryValues entries = entries.map (Prod.map id Object.value) := by
  induction entries with
  | nil => rfl
  | cons entry rest ih => rw [entryValues, ih, List.map_cons]; rfl

theorem nodup_ofList {α : Type} (entries : List (Bytes × α)) :
    ((Ordered.ofList entries).map Prod.fst).Nodup := by
  have trans {a b c : Bytes} (first : a < b) (second : b < c) : a < c := List.lt_trans first second
  have total {a b : Bytes} (not_lt : ¬ a < b) (ne : a ≠ b) : b < a :=
    Std.lt_of_le_of_ne (List.not_lt.1 not_lt) ne.symm
  have sorted := Ordered.sorted_ofList trans total entries
  refine List.pairwise_map.2 (sorted.imp ?_)
  intro entry other below same
  rw [same] at below
  exact List.lt_irrefl _ below

/-- An object whose bytes are read as its value wherever a value may stop. -/
structure Object.Reads (o : Object) : Prop where
  shape : Shape o.value o.bytes
  read : ∀ {bound : Nat} {rest : Bytes}, o.bytes.length ≤ bound → Stops rest →
    value? bound (o.bytes ++ rest) = some (o.value, rest)

section Words

variable {o : Object}

theorem reads_of_spelling (h : Spelling o.bytes o.value) : o.Reads where
  shape := .word h
  read := by
    intro bound rest fits stops
    have pos : 0 < bound := Nat.lt_of_lt_of_le (List.length_pos_iff.2 h.ne_nil) fits
    rw [value?_append h.ne_nil h.regular pos, h.atom? stops.ended]

theorem reads_of_numeral {n : Nat} (h : Numeral o.bytes n) (value : o.value = .int n) :
    o.Reads where
  shape := value ▸ .natural h
  read := by
    intro bound rest fits stops
    have pos : 0 < bound := Nat.lt_of_lt_of_le (List.length_pos_iff.2 h.ne_nil) fits
    rw [value?_append h.ne_nil h.regular pos, h.atom? stops, value]

theorem reads_int (n : Int) : (Object.int n).Reads := by
  cases n with
  | ofNat n => exact reads_of_numeral (n := n) (numeral_toString n) rfl
  | negSucc n =>
    refine reads_of_spelling ?_
    have bytes : (Object.int (.negSucc n)).bytes = ascii "-" ++ ascii (toString (n + 1)) :=
      ascii_append "-" (toString (n + 1))
    rw [bytes]
    exact spelling_negative (numeral_toString (n + 1))

theorem ascii_fixed (negative : Bool) (m : Number.Magnitude) :
    ascii (Number.fixed 3 (.finite negative m)) =
      signBytes negative ++ (ascii (toString (thousandths m / 10 ^ 3)) ++
        byteOf '.' :: ascii (padded 3 (thousandths m % 10 ^ 3))) := by
  have sign : ascii (if negative then "-" else "") = signBytes negative := by
    cases negative <;> rfl
  have point : ascii "." = [byteOf '.'] := rfl
  have fraction (n : Nat) : ascii (padded 3 n) =
      ascii (Number.zeros (3 - (Nat.toDigits 10 n).length)) ++
        ascii (String.ofList (Nat.toDigits 10 n)) := by
    rw [← ascii_append, ascii, ascii, toList_padded]
    simp [Number.zeros]
  simp only [Number.fixed, ascii_append, sign, point, fraction, List.append_assoc,
    List.cons_append, List.nil_append]
  rfl

theorem reads_real {x : Float32} (h : x.isFinite = true) : (Object.real x).Reads := by
  obtain ⟨negative, m, decoded⟩ := Number.ofSingle_of_isFinite h
  have spelling := spelling_fraction (numeral_toString (thousandths m / 10 ^ 3))
    (numeral_padded 3 (thousandths m % 10 ^ 3)) negative
  rw [length_padded (by decide) (Nat.mod_lt _ (by decide)), Nat.div_add_mod] at spelling
  refine reads_of_spelling ?_
  rw [Object.bytes, Object.value, realValue, decoded, ascii_fixed]
  exact spelling

theorem reads_null : Object.null.Reads :=
  reads_of_spelling ⟨by decide, by decide +kernel, by decide +kernel, by decide, rfl⟩

theorem reads_bool (b : Bool) : (Object.bool b).Reads := by
  cases b with
  | false =>
    exact reads_of_spelling ⟨by decide, by decide +kernel, by decide +kernel, by decide, rfl⟩
  | true =>
    exact reads_of_spelling ⟨by decide, by decide +kernel, by decide +kernel, by decide, rfl⟩

theorem reads_ref (id : ObjectId) : (Object.ref id).Reads := by
  have first := numeral_toString id.number
  have second := numeral_toString id.generation
  have bytes : (Object.ref id).bytes =
      ascii (toString id.number) ++ ascii " " ++ ascii (toString id.generation) ++ ascii " R" := by
    simp only [Object.bytes, ascii_append]
  refine ⟨bytes ▸ .reference first second, ?_⟩
  intro bound rest fits stops
  have pos : 0 < bound := by
    refine Nat.lt_of_lt_of_le (List.length_pos_iff.2 ?_) fits
    rw [bytes]
    exact List.append_ne_nil_of_right_ne_nil _ (by decide)
  have read := atom?_reference first second stops.ended
  rw [bytes, Object.value, ← read]
  simp only [List.append_assoc]
  exact value?_append first.ne_nil first.regular pos _

end Words

section Marks

variable {o : Object}

theorem reads_of_mark (b : UInt8) (bs : Bytes) (bytes : o.bytes = b :: bs)
    (mark : isSpace b = false ∧ b ≠ byteOf '%' ∧ b ≠ byteOf ']' ∧ isRegular b = false)
    (read : ∀ {bound : Nat} {rest : Bytes}, bs.length ≤ bound → Stops rest →
      value? (bound + 1) (b :: (bs ++ rest)) = some (o.value, rest)) : o.Reads where
  shape := bytes ▸ .marked mark.1 mark.2.1 mark.2.2.1 mark.2.2.2 bs
  read := by
    intro bound rest fits stops
    rw [bytes] at fits ⊢
    obtain ⟨bound, rfl⟩ := Nat.exists_eq_add_of_le' (Nat.le_trans (by simp) fits : 1 ≤ bound)
    exact read (Nat.le_of_succ_le_succ fits) stops

theorem value?_mark {b : UInt8} (space : isSpace b = false) (comment : b ≠ byteOf '%')
    (bound : Nat) (rest : Bytes) :
    value? (bound + 1) (b :: rest) =
      if b = byteOf '/' then some (.name (nameFrom rest).1, (nameFrom rest).2)
      else if b = byteOf '(' then (literal? 0 .nothing rest).map fun (s, rest) => (.string s, rest)
      else if b = byteOf '[' then (items? bound rest).map fun (vs, rest) => (.array vs, rest)
      else if b = byteOf '<' then
        if rest.head? = some (byteOf '<') then
          (entries? bound rest.tail).map fun (es, rest) => (.dict es, rest)
        else (hexString? rest).map fun (s, rest) => (.string s, rest)
      else atom? (b :: rest) := by
  simp only [value?, skip_of_mark space comment]

theorem reads_name {n : Bytes} (plain : PlainName n) : (Object.name n).Reads := by
  refine reads_of_mark (byteOf '/') n rfl (by decide) ?_
  intro bound rest _ stops
  rw [value?_mark (by decide) (by decide), if_pos rfl, nameFrom_append plain stops.ended]
  rfl

theorem reads_literal (s : Bytes) : (Object.literal s).Reads := by
  refine reads_of_mark (byteOf '(') (s.flatMap literalByte ++ [byteOf ')']) rfl
    (by decide) ?_
  intro bound rest _ _
  rw [value?_mark (by decide) (by decide), if_neg (by decide), if_pos rfl, List.append_assoc]
  exact congrArg (Option.map _) (literal?_flatMap s rest false)

theorem reads_hex (s : Bytes) : (Object.hex s).Reads := by
  refine reads_of_mark (byteOf '<') (s.flatMap hexPair ++ [byteOf '>']) rfl
    (by decide) ?_
  intro bound rest _ _
  rw [value?_mark (by decide) (by decide), if_neg (by decide), if_neg (by decide),
    if_neg (by decide), if_pos rfl, List.append_assoc]
  refine (if_neg (head?_hexString s rest)).trans ?_
  exact congrArg (Option.map _) (hexString?_flatMap s rest)

end Marks

section Brackets

theorem value?_space (bound : Nat) (rest : Bytes) :
    value? bound (ascii " " ++ rest) = value? bound rest := by
  cases bound with
  | zero => rfl
  | succ bound => simp only [value?, skip_space]

theorem items?_space (bound : Nat) (rest : Bytes) :
    items? bound (ascii " " ++ rest) = items? bound rest := by
  cases bound with
  | zero => rfl
  | succ bound => simp only [items?, skip_space]

theorem entries?_space (bound : Nat) (rest : Bytes) :
    entries? bound (ascii " " ++ rest) = entries? bound rest := by
  cases bound with
  | zero => rfl
  | succ bound => simp only [entries?, skip_space]

theorem items?_append {item : Object} (reads : item.Reads) {bound : Nat} {rest : Bytes}
    (fits : item.bytes.length ≤ bound) (stops : Stops rest) :
    items? (bound + 1) (item.bytes ++ rest) =
      (items? bound rest).map fun (vs, rest) => (item.value :: vs, rest) := by
  obtain ⟨b, bs, bytes, space, comment, bracket⟩ := reads.shape.exists_head
  have read := reads.read fits stops
  rw [bytes, List.cons_append] at read ⊢
  simp only [items?, skip_of_mark space comment, if_neg bracket, read, Option.bind_eq_bind,
    Option.bind_some, Option.pure_def, Option.map_eq_bind]
  rfl

theorem entries?_append {key : Bytes} {o : Object} (plain : PlainName key) (reads : o.Reads)
    {bound : Nat} {rest : Bytes} (fits : o.bytes.length ≤ bound) (stops : Stops rest) :
    entries? (bound + 1) (ascii "/" ++ key ++ ascii " " ++ o.bytes ++ rest) =
      (entries? bound rest).map fun (es, rest) => ((key, o.value) :: es, rest) := by
  have name : nameFrom (key ++ (ascii " " ++ (o.bytes ++ rest))) =
      (key, ascii " " ++ (o.bytes ++ rest)) := nameFrom_append plain (ended_space _)
  have start (more : Bytes) : skip (ascii "/" ++ more) = byteOf '/' :: more :=
    skip_of_mark (by decide) (by decide) more
  have other : byteOf '/' ≠ byteOf '>' := by decide
  simp only [List.append_assoc, entries?, start, if_neg other, if_true, name, value?_space,
    reads.read fits stops, Option.bind_eq_bind, Option.bind_some, Option.pure_def,
    Option.map_eq_bind]
  rfl

theorem Object.Reads.length_pos {o : Object} (h : o.Reads) : 0 < o.bytes.length := by
  obtain ⟨b, bs, bytes, _⟩ := h.shape.exists_head
  simp [bytes]

theorem stops_itemBytes {items : List Object} (reads : ∀ item ∈ items, item.Reads)
    (rest : Bytes) : Stops (ascii " " ++ (itemBytes items ++ (ascii "]" ++ rest))) := by
  have closing : Stops (ascii "]" ++ rest) :=
    stops_of_delimiter (by decide) (by decide) (by decide) rest
  induction items with
  | nil => exact closing.space
  | cons item more ih =>
    obtain ⟨first, others⟩ := List.forall_mem_cons.1 reads
    cases more with
    | nil => exact first.shape.stops closing
    | cons next more =>
      rw [itemBytes, List.append_assoc, List.append_assoc]
      · exact first.shape.stops (ih others)
      · exact List.cons_ne_nil _ _

theorem items?_itemBytes {items : List Object} (reads : ∀ item ∈ items, item.Reads)
    {bound : Nat} (fits : (itemBytes items).length < bound) (rest : Bytes) :
    items? bound (itemBytes items ++ (ascii "]" ++ rest)) = some (itemValues items, rest) := by
  have start : skip (ascii "]" ++ rest) = byteOf ']' :: rest :=
    skip_of_mark (by decide) (by decide) rest
  have closing : ∀ {bound}, 0 < bound → items? bound (ascii "]" ++ rest) = some ([], rest) := by
    intro bound pos
    obtain ⟨bound, rfl⟩ := Nat.exists_eq_add_of_le' pos
    simp only [items?, start, if_true]
  induction items generalizing bound with
  | nil => exact closing fits
  | cons item more ih =>
    obtain ⟨first, others⟩ := List.forall_mem_cons.1 reads
    have pos := first.length_pos
    obtain ⟨bound, rfl⟩ := Nat.exists_eq_add_of_le' (Nat.one_le_of_lt fits)
    cases more with
    | nil =>
      rw [itemBytes] at fits ⊢
      have stops : Stops (ascii "]" ++ rest) :=
        stops_of_delimiter (by decide) (by decide) (by decide) rest
      rw [items?_append first (by omega) stops, closing (by omega)]
      rfl
    | cons next more =>
      rw [itemBytes] at fits ⊢
      · simp only [List.length_append] at fits
        rw [List.append_assoc, List.append_assoc,
          items?_append first (by omega) (stops_itemBytes others rest), items?_space,
          ih others (by omega)]
        rfl
      · exact List.cons_ne_nil _ _
      · exact List.cons_ne_nil _ _

def entriesText (entries : List (Bytes × Object)) : Bytes :=
  entries.flatMap fun (key, o) => ascii "/" ++ key ++ ascii " " ++ o.bytes ++ ascii " "

theorem stops_entriesText (entries : List (Bytes × Object)) (rest : Bytes) :
    Stops (entriesText entries ++ (ascii ">>" ++ rest)) := by
  cases entries with
  | nil => exact stops_of_delimiter (by decide) (by decide) (by decide) _
  | cons entry more => exact stops_of_delimiter (by decide) (by decide) (by decide) _

theorem entries?_entriesText {entries : List (Bytes × Object)}
    (reads : ∀ entry ∈ entries, PlainName entry.1 ∧ entry.2.Reads)
    {bound : Nat} (fits : (entriesText entries).length < bound) (rest : Bytes) :
    entries? bound (entriesText entries ++ (ascii ">>" ++ rest)) =
      some (entryValues entries, rest) := by
  induction entries generalizing bound with
  | nil =>
    have start : skip (ascii ">>" ++ rest) = byteOf '>' :: byteOf '>' :: rest :=
      skip_of_mark (by decide) (by decide) _
    obtain ⟨bound, rfl⟩ := Nat.exists_eq_add_of_le' (Nat.one_le_of_lt fits)
    show entries? (bound + 1) (ascii ">>" ++ rest) = _
    simp only [entries?, start, if_true, List.head?_cons, List.tail_cons, entryValues]
  | cons entry more ih =>
    obtain ⟨key, o⟩ := entry
    obtain ⟨⟨plain, first⟩, others⟩ := List.forall_mem_cons.1 reads
    obtain ⟨bound, rfl⟩ := Nat.exists_eq_add_of_le' (Nat.one_le_of_lt fits)
    have text : entriesText ((key, o) :: more) =
        ascii "/" ++ key ++ ascii " " ++ o.bytes ++ (ascii " " ++ entriesText more) := by
      simp only [entriesText, List.flatMap_cons, List.append_assoc]
    have slash : (ascii "/").length = 1 := rfl
    rw [text] at fits ⊢
    simp only [List.length_append, slash] at fits
    have stops : Stops (ascii " " ++ (entriesText more ++ (ascii ">>" ++ rest))) :=
      (stops_entriesText more rest).space
    have step := entries?_append (o := o) plain first (by omega : _ ≤ bound) stops
    rw [entries?_space, ih others (by omega)] at step
    simp only [List.append_assoc] at step ⊢
    exact step

theorem reads_array {items : List Object} (reads : ∀ item ∈ items, item.Reads) :
    (Object.array items).Reads := by
  refine reads_of_mark (byteOf '[') (itemBytes items ++ ascii "]") rfl (by decide) ?_
  intro bound rest fits _
  rw [List.length_append] at fits
  rw [value?_mark (by decide) (by decide), if_neg (by decide), if_neg (by decide), if_pos rfl,
    List.append_assoc, items?_itemBytes reads (Nat.lt_of_succ_le fits)]
  rfl

theorem bytes_dict (entries : List (Bytes × Object)) :
    (Object.dict entries).bytes =
      ascii "<<" ++ entriesText (Ordered.ofList entries) ++ ascii ">>" := by
  rw [Object.bytes, enclosed, entryBytes_eq_map, ← Ordered.map_ofList, List.flatMap_map]
  rfl

theorem reads_dict {entries : List (Bytes × Object)}
    (reads : ∀ entry ∈ entries, PlainName entry.1 ∧ entry.2.Reads) :
    (Object.dict entries).Reads := by
  have placed : ∀ entry ∈ Ordered.ofList entries, PlainName entry.1 ∧ entry.2.Reads :=
    fun entry h => reads entry (Ordered.mem_ofList h)
  refine reads_of_mark (byteOf '<')
    (ascii "<" ++ entriesText (Ordered.ofList entries) ++ ascii ">>") (bytes_dict entries)
    (by decide) ?_
  intro bound rest fits _
  have values : entryValues (Ordered.ofList entries) = Ordered.ofList (entryValues entries) := by
    rw [entryValues_eq_map, entryValues_eq_map, Ordered.map_ofList]
  simp only [List.length_append] at fits
  have room : (entriesText (Ordered.ofList entries)).length < bound := by
    have marks : (ascii "<").length = 1 ∧ (ascii ">>").length = 2 := ⟨rfl, rfl⟩
    omega
  have inside := entries?_entriesText placed room rest
  rw [value?_mark (by decide) (by decide), if_neg (by decide), if_neg (by decide),
    if_neg (by decide), if_pos rfl, List.append_assoc, List.append_assoc]
  refine (if_pos rfl).trans ?_
  exact (congrArg (Option.map _) inside).trans (by rw [values]; rfl)

end Brackets

mutual

theorem Object.Readable.reads : ∀ {o : Object}, o.Readable → o.Reads
  | .null, _ => reads_null
  | .bool b, _ => reads_bool b
  | .int n, _ => reads_int n
  | .real _, h => reads_real h
  | .name _, h => reads_name h
  | .literal s, _ => reads_literal s
  | .hex s, _ => reads_hex s
  | .array _, h => reads_array (ItemsReadable.reads h)
  | .dict _, h => reads_dict (EntriesReadable.reads h)
  | .ref id, _ => reads_ref id

theorem ItemsReadable.reads :
    ∀ {items : List Object}, ItemsReadable items → ∀ item ∈ items, item.Reads
  | [], _ => by simp
  | _ :: _, h => List.forall_mem_cons.2 ⟨h.1.reads, ItemsReadable.reads h.2⟩

theorem EntriesReadable.reads : ∀ {entries : List (Bytes × Object)}, EntriesReadable entries →
    ∀ entry ∈ entries, PlainName entry.1 ∧ entry.2.Reads
  | [], _ => by simp
  | (_, _) :: _, h =>
    List.forall_mem_cons.2 ⟨⟨h.1.1, h.1.2.reads⟩, EntriesReadable.reads h.2⟩

end

theorem Object.read_append {o : Object} (h : o.Readable) {rest : Bytes} (stops : Stops rest) :
    Value.read (o.bytes ++ rest) = some (o.value, rest) :=
  h.reads.read (by simp) stops

end Folio.Pdf
