import Folio.Proofs.Pdf.Navigation
import Mathlib.Data.List.Forall2
import Mathlib.Tactic.Ring

/-! # Round trips

An object is written, a reader reads its bytes, and finds the same object. What it is to be the
same is said without regard to how objects are written: a dictionary has the same value under
every key, a number is the nearest with three places, and the length of a stream is that of its
content.
-/

namespace Folio

namespace Number

/-- A whole number that is nearest to a fraction, and even where two of them are. -/
structure Nearest (num den n : Nat) : Prop where
  below : 2 * num ≤ (2 * n + 1) * den
  above : 2 * n * den ≤ 2 * num + den
  tie : 2 * num = (2 * n + 1) * den ∨ 2 * n * den = 2 * num + den → n % 2 = 0

theorem nearest_roundHalfEven {num den : Nat} (pos : 0 < den) :
    Nearest num den (roundHalfEven num den) := by
  have split : den * (num / den) + num % den = num := Nat.div_add_mod num den
  have less : num % den < den := Nat.mod_lt num pos
  rw [roundHalfEven]
  generalize num / den = q at split ⊢
  generalize num % den = r at split less ⊢
  subst split
  have floor : (2 * q + 1) * den = 2 * (den * q) + den := by ring
  have low : 2 * q * den = 2 * (den * q) := by ring
  have ceiling : (2 * (q + 1) + 1) * den = 2 * (den * q) + 3 * den := by ring
  have high : 2 * (q + 1) * den = 2 * (den * q) + 2 * den := by ring
  have down (half : 2 * r ≤ den) (even : 2 * r = den → q % 2 = 0) :
      Nearest (den * q + r) den q := by
    constructor
    · omega
    · omega
    · intro tie
      apply even
      omega
  have up (half : den ≤ 2 * r) (even : 2 * r = den → q % 2 ≠ 0) :
      Nearest (den * q + r) den (q + 1) := by
    constructor
    · omega
    · omega
    · intro tie
      have odd := even (by omega)
      omega
  cases side : compare (2 * r) den with
  | lt =>
    have lt := Nat.compare_eq_lt.1 side
    exact down (by omega) (by omega)
  | gt =>
    have gt := Nat.compare_eq_gt.1 side
    exact up (by omega) (by omega)
  | eq =>
    have half := Nat.compare_eq_eq.1 side
    by_cases even : q % 2 = 0
    · rw [if_pos even]
      exact down (by omega) fun _ => even
    · rw [if_neg even]
      exact up (by omega) fun _ => even

theorem Magnitude.quotient_pos (m : Magnitude) : 0 < m.quotient.2 := by
  rw [quotient]
  split
  · exact Nat.one_pos
  · exact Nat.two_pow_pos _

end Number

namespace Pdf

inductive Found where
  | value (v : Value)
  | stream (entries : List (Bytes × Value)) (content : Bytes)

def lineEnd? : Bytes → Option Bytes
  | [] => none
  | b :: rest =>
    if b = byteOf '\n' then some rest
    else if b = byteOf '\r' then behind? (ascii "\n") rest
    else none

def content? (entries : List (Bytes × Value)) (bytes : Bytes) : Option (Bytes × Bytes) := do
  let bytes ← lineEnd? bytes
  let length ← intAt? "Length" entries
  let (mark, rest) := word (bytes.drop length.toNat)
  if mark = ascii "endstream" then some (bytes.take length.toNat, rest) else none

/-- Reads an object. A dictionary with the keyword of a stream behind it begins a stream. -/
def Found.read (bytes : Bytes) : Option (Found × Bytes) :=
  match Value.read bytes with
  | some (.dict entries, rest) =>
    if (word rest).1 = ascii "stream" then
      (content? entries (word rest).2).map fun (content, rest) => (.stream entries content, rest)
    else some (.value (.dict entries), rest)
  | some (v, rest) => some (.value v, rest)
  | none => none

/-- A value is the same as an object. The last entry of a key is the one that a dictionary has. -/
inductive Object.Same : Object → Value → Prop
  | null : Same .null .null
  | bool (b : Bool) : Same (.bool b) (.bool b)
  | int (n : Int) : Same (.int n) (.int n)
  | real {x : Float32} {negative : Bool} {m : Number.Magnitude} {digits : Nat}
      (decoded : Number.ofSingle x = .finite negative m)
      (nearest : Number.Nearest (1000 * m.quotient.1) m.quotient.2 digits) :
      Same (.real x) (.real negative digits 3)
  | name (n : Bytes) : Same (.name n) (.name n)
  | literal (s : Bytes) : Same (.literal s) (.string (lineFeeds false s))
  | hex (s : Bytes) : Same (.hex s) (.string s)
  | array {items : List Object} {vs : List Value} (same : List.Forall₂ Same items vs) :
      Same (.array items) (.array vs)
  | dict {entries : List (Bytes × Object)} {found : List (Bytes × Value)}
      (distinct : (found.map Prod.fst).Nodup)
      (same : ∀ key,
        Option.Rel Same (entries.reverse.lookup key) (found.lookup key)) :
      Same (.dict entries) (.dict found)
  | ref (id : ObjectId) : Same (.ref id) (.ref id)

def withLength (entries : List (Bytes × Object)) (content : Bytes) : List (Bytes × Object) :=
  entries ++ [(ascii "Length", .int content.length)]

/-- What is found is the same as an object. A stream has its length in its dictionary. -/
inductive Object.Stands : Object → Found → Prop
  | value {o : Object} {v : Value} (same : o.Same v) : Stands o (.value v)
  | stream {entries : List (Bytes × Object)} {content : Bytes} {found : List (Bytes × Value)}
      (same : (Object.dict (withLength entries content)).Same (.dict found)) :
      Stands (.stream entries content) (.stream found content)

/-- What can be read back where an object stands: also a stream, but with none inside. -/
def Object.Legible : Object → Prop
  | .stream entries _ => EntriesReadable entries
  | o => o.Readable

theorem nearest_thousandths (m : Number.Magnitude) :
    Number.Nearest (1000 * m.quotient.1) m.quotient.2 (thousandths m) := by
  rw [thousandths, Nat.mul_comm]
  exact Number.nearest_roundHalfEven m.quotient_pos

theorem same_real {x : Float32} (finite : x.isFinite = true) :
    (Object.real x).Same (realValue x) := by
  obtain ⟨negative, m, decoded⟩ := Number.ofSingle_of_isFinite finite
  rw [realValue, decoded]
  exact .real decoded (nearest_thousandths m)

theorem same_array {items : List Object} (same : ∀ item ∈ items, item.Same item.value) :
    (Object.array items).Same (.array (itemValues items)) := by
  apply Object.Same.array
  induction items with
  | nil => exact .nil
  | cons item rest ih =>
    obtain ⟨first, others⟩ := List.forall_mem_cons.1 same
    exact .cons first (ih others)

theorem lookup_entryValues (key : Bytes) (entries : List (Bytes × Object)) :
    (Ordered.ofList (entryValues entries)).lookup key =
      (entries.reverse.lookup key).map Object.value := by
  rw [Ordered.lookup_ofList, entryValues_eq_map, ← List.map_reverse,
    Ordered.lookup_map]

theorem same_dict {entries : List (Bytes × Object)}
    (same : ∀ entry ∈ entries, entry.2.Same entry.2.value) :
    (Object.dict entries).Same (.dict (Ordered.ofList (entryValues entries))) := by
  apply Object.Same.dict (nodup_ofList _)
  intro key
  rw [lookup_entryValues]
  cases found : entries.reverse.lookup key with
  | none => exact .none
  | some o => exact .some (same (key, o) (List.mem_reverse.1 (Ordered.mem_of_lookup found)))

mutual

theorem Object.Readable.same : ∀ {o : Object}, o.Readable → o.Same o.value
  | .null, _ => .null
  | .bool b, _ => .bool b
  | .int n, _ => .int n
  | .real _, h => same_real h
  | .name n, _ => .name n
  | .literal s, _ => .literal s
  | .hex s, _ => .hex s
  | .array _, h => same_array (ItemsReadable.same h)
  | .dict _, h => same_dict (EntriesReadable.same h)
  | .ref id, _ => .ref id

theorem ItemsReadable.same :
    ∀ {items : List Object}, ItemsReadable items → ∀ item ∈ items, item.Same item.value
  | [], _ => by simp
  | _ :: _, h => List.forall_mem_cons.2 ⟨h.1.same, ItemsReadable.same h.2⟩

theorem EntriesReadable.same : ∀ {entries : List (Bytes × Object)}, EntriesReadable entries →
    ∀ entry ∈ entries, entry.2.Same entry.2.value
  | [], _ => by simp
  | (_, _) :: _, h => List.forall_mem_cons.2 ⟨h.1.2.same, EntriesReadable.same h.2⟩

end

theorem word_newline : word (ascii "\n") = ([], []) := by decide +kernel

theorem stops_newline : Stops (ascii "\n") := by
  have ended : Ended (ascii "\n") := ended_cons (by decide) _
  apply stops_of_word ended
  · rw [word_newline]
    decide
  · left
    rw [word_newline]
    rfl

theorem content?_bytes {entries : List (Bytes × Value)} {content : Bytes}
    (length : intAt? "Length" entries = some (content.length : Int)) {rest : Bytes}
    (ended : Ended rest) :
    content? entries (ascii "\n" ++ (content ++ (ascii "\nendstream" ++ rest))) =
      some (content, rest) := by
  have line (bytes : Bytes) : lineEnd? (ascii "\n" ++ bytes) = some bytes := rfl
  have mark : word (ascii "\nendstream" ++ rest) = (ascii "endstream", rest) :=
    word_line (w := ascii "endstream") (by decide) (by decide +kernel) ended
  simp only [content?, line, length, Option.bind_eq_bind, Option.bind_some, Int.toNat_natCast,
    List.drop_left, List.take_left, mark, if_true]

theorem Found.read_bytes {o : Object} (h : o.Readable) :
    Found.read (o.bytes ++ ascii "\n") = some (.value o.value, ascii "\n") := by
  rw [Found.read, Object.read_append h stops_newline]
  cases o.value with
  | dict entries =>
    simp only [word_newline]
    exact if_neg (by decide)
  | null | bool | int | real | name | string | array | ref => rfl

theorem readable_withLength {entries : List (Bytes × Object)} (h : EntriesReadable entries)
    (content : Bytes) : EntriesReadable (withLength entries content) := by
  have key : PlainName (ascii "Length") := by decide +kernel
  apply entriesReadable_iff.2
  intro entry mem
  rcases List.mem_append.1 mem with old | new
  · exact entriesReadable_iff.1 h entry old
  · rw [List.mem_singleton.1 new]
    exact ⟨key, trivial⟩

theorem Found.read_stream {entries : List (Bytes × Object)} (h : EntriesReadable entries)
    (content : Bytes) :
    Found.read ((Object.stream entries content).bytes ++ ascii "\n") =
      some (.stream (Ordered.ofList (entryValues (withLength entries content))) content,
        ascii "\n") := by
  have text : (Object.stream entries content).bytes ++ ascii "\n" =
      (Object.dict (withLength entries content)).bytes ++
        (ascii "\nstream\n" ++ (content ++ (ascii "\nendstream" ++ ascii "\n"))) := by
    simp only [bytes_stream, withLength, List.append_assoc]
  have keyword (rest : Bytes) :
      word (ascii "\nstream\n" ++ rest) = (ascii "stream", ascii "\n" ++ rest) :=
    word_line (w := ascii "stream") (by decide) (by decide +kernel)
      (ended_cons (b := byteOf '\n') (by decide) rest)
  have length : intAt? "Length" (Ordered.ofList (entryValues (withLength entries content))) =
      some (content.length : Int) := by
    rw [intAt?, lookup_entryValues, withLength, List.reverse_append]
    rfl
  have behind := content?_bytes length (ended_cons (b := byteOf '\n') (by decide) [])
  have dict := Object.read_append (o := .dict _) (readable_withLength h content)
    (stops_stream (content ++ (ascii "\nendstream" ++ ascii "\n")))
  rw [Found.read, text, dict]
  simp only [Object.value, keyword, if_true]
  rw [show ascii "\n" = [byteOf '\n'] from rfl] at behind ⊢
  rw [behind]
  rfl

/-- What is written for an object is read back as the same object, with nothing left but the line
end behind it. -/
theorem Object.written_object_read_back {o : Object} (h : o.Legible) :
    ∃ found, Found.read (o.bytes ++ ascii "\n") = some (found, ascii "\n") ∧ o.Stands found := by
  cases o with
  | stream entries content =>
    refine ⟨_, Found.read_stream h content, ?_⟩
    exact .stream (same_dict (EntriesReadable.same (readable_withLength h content)))
  | null | bool | int | real | name | literal | hex | array | dict | ref =>
    exact ⟨_, Found.read_bytes h, .value (Object.Readable.same h)⟩

def tangled : Object :=
  .stream
    [(ascii "Length", .int 3),
     (ascii "Kids",
      .array [.int 4, .int 0, .keyword "R", .ref ⟨4, 0⟩, .int (-7), .null, .array []]),
     (ascii "Box", .dict [(ascii "B", .real (-0.0625)), (ascii "A", .bool true)]),
     (ascii "Note", .literal (ascii "a)\r\nb\\(\r")),
     (ascii "Mark", .hex (ascii ">>\nendstream"))]
    (ascii ">>\nendstream\nendobj")

theorem tangled_read_back :
    ∃ found, Found.read (tangled.bytes ++ ascii "\n") = some (found, ascii "\n") ∧
      tangled.Stands found := by
  have keys : ∀ key ∈ ["Length", "Kids", "Box", "Note", "Mark", "A", "B", "R"],
      PlainName (ascii key) := by decide +kernel
  have kids : ItemsReadable
      [.int 4, .int 0, .keyword "R", .ref ⟨4, 0⟩, .int (-7), .null, .array []] :=
    ⟨trivial, trivial, keys "R" (by decide), trivial, trivial, trivial, trivial, trivial⟩
  have small : (-0.0625 : Float32).isFinite = true := by decide +kernel
  have box : EntriesReadable [(ascii "B", .real (-0.0625)), (ascii "A", .bool true)] :=
    ⟨⟨keys "B" (by decide), small⟩, ⟨keys "A" (by decide), trivial⟩, trivial⟩
  refine Object.written_object_read_back (o := tangled) ?_
  exact ⟨⟨keys "Length" (by decide), trivial⟩, ⟨keys "Kids" (by decide), kids⟩,
    ⟨keys "Box" (by decide), box⟩, ⟨keys "Note" (by decide), trivial⟩,
    ⟨keys "Mark" (by decide), trivial⟩, trivial⟩

end Pdf

end Folio
