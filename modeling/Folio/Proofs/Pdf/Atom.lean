import Folio.Proofs.Pdf.Word

/-! # Atoms

A value is written either with a mark in front or as words. A whole number without a sign is read
as such only where the two words behind it do not make it a reference, so what may follow a value
is said once here and shown to hold wherever another value follows.
-/

namespace Folio.Pdf

/-- What may follow a value: nothing that its last word, or a reference it begins, could take. -/
structure Stops (rest : Bytes) : Prop where
  ended : Ended rest
  generation : generation? rest = none
  mark : (word rest).1 ≠ ascii "R"

structure Spelling (w : Bytes) (v : Value) : Prop where
  ne_nil : w ≠ []
  regular : Regular w
  not_natural : natural? w = none
  ne_mark : w ≠ ascii "R"
  value : wordValue? w = some v

inductive Shape : Value → Bytes → Prop
  /-- Something that begins with a mark of its own. -/
  | marked {v : Value} {b : UInt8} (space : isSpace b = false) (comment : b ≠ byteOf '%')
      (bracket : b ≠ byteOf ']') (delimiter : isRegular b = false) (bs : Bytes) : Shape v (b :: bs)
  | word {v : Value} {w : Bytes} (spelling : Spelling w v) : Shape v w
  | natural {digits : Bytes} {n : Nat} (numeral : Numeral digits n) : Shape (.int n) digits
  | reference {number generation : Bytes} {id : ObjectId} (first : Numeral number id.number)
      (second : Numeral generation id.generation) :
      Shape (.ref id) (number ++ ascii " " ++ generation ++ ascii " R")

section Spaces

theorem ended_space (rest : Bytes) : Ended (ascii " " ++ rest) :=
  ended_cons (by decide) rest

theorem skip_space (rest : Bytes) : skip (ascii " " ++ rest) = skip rest :=
  skip_of_space (by decide) rest

theorem word_space (rest : Bytes) : word (ascii " " ++ rest) = word rest :=
  word_of_space (by decide) rest

theorem generation?_space (rest : Bytes) : generation? (ascii " " ++ rest) = generation? rest := by
  rw [generation?, word_space, generation?]

theorem generation?_of_not_natural {rest : Bytes} (h : natural? (word rest).1 = none) :
    generation? rest = none := by
  simp only [generation?, h]

theorem generation?_of_ne_mark {rest : Bytes} (h : (word (word rest).2).1 ≠ ascii "R") :
    generation? rest = none := by
  simp only [generation?, if_neg h]
  split <;> rfl

theorem stops_of_word {rest : Bytes} (ended : Ended rest) (mark : (word rest).1 ≠ ascii "R")
    (second : natural? (word rest).1 = none ∨ (word (word rest).2).1 ≠ ascii "R") :
    Stops rest where
  ended := ended
  mark := mark
  generation := second.elim generation?_of_not_natural generation?_of_ne_mark

theorem stops_of_delimiter {b : UInt8} (space : isSpace b = false) (comment : b ≠ byteOf '%')
    (delimiter : isRegular b = false) (rest : Bytes) : Stops (b :: rest) := by
  have none : word (b :: rest) = ([], b :: rest) := word_of_delimiter space comment delimiter rest
  refine stops_of_word (ended_cons delimiter rest) ?_ (.inl ?_)
  · rw [none]
    exact List.cons_ne_nil _ _ ∘ Eq.symm
  · rw [none]
    rfl

theorem stops_space {rest : Bytes} (mark : (word rest).1 ≠ ascii "R")
    (generation : generation? rest = none) : Stops (ascii " " ++ rest) where
  ended := ended_space rest
  mark := by rwa [word_space]
  generation := by rwa [generation?_space]

theorem Stops.space {rest : Bytes} (stops : Stops rest) : Stops (ascii " " ++ rest) :=
  stops_space stops.mark stops.generation

end Spaces

section Numbers

theorem Numeral.ne_mark {digits : Bytes} {n : Nat} (h : Numeral digits n) :
    digits ≠ ascii "R" := by
  rintro rfl
  exact absurd (h.all_digits (byteOf 'R') (by decide)) (by decide)

theorem Numeral.append {front behind : Bytes} {m n : Nat} (first : Numeral front m)
    (second : Numeral behind n) : Numeral (front ++ behind) (10 ^ behind.length * m + n) where
  ne_nil := by simp [first.ne_nil]
  all_digits := by
    intro b hb
    exact (List.mem_append.1 hb).elim (first.all_digits b) (second.all_digits b)
  spelled_eq := by
    have left := first.spelled_eq
    have right := second.spelled_eq
    rw [spelled] at left right
    rw [spelled, List.map_append, Nat.ofDigitChars_append, left,
      Nat.ofDigitChars_eq_ofDigitChars_zero, right, List.length_map]

theorem natural?_of_mem {w : Bytes} {b : UInt8} (mem : b ∈ w) (h : isDigit b = false) :
    natural? w = none := by
  rw [natural?, if_neg]
  rintro ⟨_, all⟩
  rw [List.all_eq_true.1 all b mem] at h
  cases h

theorem Numeral.takeWhile {digits : Bytes} {n : Nat} (h : Numeral digits n) (rest : Bytes)
    (behind : ∀ b ∈ rest.head?, isDigit b = false) :
    (digits ++ rest).takeWhile isDigit = digits ∧ (digits ++ rest).dropWhile isDigit = rest := by
  rw [List.takeWhile_append_of_pos h.all_digits, List.dropWhile_append_of_pos h.all_digits]
  cases rest with
  | nil => simp
  | cons b rest => simp [behind b rfl]

def signBytes (negative : Bool) : Bytes := if negative then ascii "-" else []

theorem unsigned_numeral {digits : Bytes} {n : Nat} (h : Numeral digits n) (negative : Bool)
    (rest : Bytes) :
    unsigned (signBytes negative ++ (digits ++ rest)) = (negative, digits ++ rest) := by
  obtain ⟨b, bs, rfl⟩ := List.exists_cons_of_ne_nil h.ne_nil
  have digit : isDigit b = true := h.all_digits b List.mem_cons_self
  have minus : b ≠ byteOf '-' := by rintro rfl; exact absurd digit (by decide)
  have plus : b ≠ byteOf '+' := by rintro rfl; exact absurd digit (by decide)
  cases negative with
  | true => rfl
  | false => simp [signBytes, unsigned, minus, plus]

theorem number?_whole {digits : Bytes} {n : Nat} (h : Numeral digits n) (negative : Bool) :
    number? (signBytes negative ++ digits) = some (.int (if negative then -(n : Int) else n)) := by
  have sign := unsigned_numeral h negative []
  rw [List.append_nil] at sign
  obtain ⟨front, behind⟩ := h.takeWhile [] (by simp)
  rw [List.append_nil] at front behind
  simp only [number?, sign, front, behind, h.natural, Option.map_some]

theorem number?_fraction {whole fraction : Bytes} {m n : Nat} (first : Numeral whole m)
    (second : Numeral fraction n) (negative : Bool) :
    number? (signBytes negative ++ (whole ++ byteOf '.' :: fraction)) =
      some (.real negative (10 ^ fraction.length * m + n) fraction.length) := by
  obtain ⟨front, behind⟩ := first.takeWhile (byteOf '.' :: fraction)
    (by rintro _ ⟨⟩; decide)
  simp only [number?, unsigned_numeral first, front, behind, if_true,
    (first.append second).natural, Option.map_some]

theorem wordValue?_of_mem {w : Bytes} {b : UInt8} (mem : b ∈ w)
    (foreign : b ∉ ascii "null" ++ ascii "true" ++ ascii "false") : wordValue? w = number? w := by
  simp only [List.mem_append, not_or] at foreign
  obtain ⟨⟨isNull, isTrue⟩, isFalse⟩ := foreign
  rw [wordValue?, if_neg (ne_of_mem_of_not_mem' mem isNull),
    if_neg (ne_of_mem_of_not_mem' mem isTrue), if_neg (ne_of_mem_of_not_mem' mem isFalse)]

theorem regular_signBytes (negative : Bool) : Regular (signBytes negative) := by
  cases negative <;> decide

theorem spelling_negative {digits : Bytes} {n : Nat} (h : Numeral digits n) :
    Spelling (ascii "-" ++ digits) (.int (-n)) where
  ne_nil := by simp [ascii]
  regular := by
    intro b hb
    exact (List.mem_append.1 hb).elim (regular_signBytes true b) (h.regular b)
  not_natural := natural?_of_mem (b := byteOf '-') (by simp [ascii]) (by decide)
  ne_mark := ne_of_mem_of_not_mem' (a := byteOf '-') (by simp [ascii]) (by decide)
  value := (wordValue?_of_mem (b := byteOf '-') (by simp [ascii]) (by decide)).trans
    (number?_whole h true)

theorem spelling_fraction {whole fraction : Bytes} {m n : Nat} (first : Numeral whole m)
    (second : Numeral fraction n) (negative : Bool) :
    Spelling (signBytes negative ++ (whole ++ byteOf '.' :: fraction))
      (.real negative (10 ^ fraction.length * m + n) fraction.length) where
  ne_nil := by simp [first.ne_nil]
  regular := by
    intro b hb
    simp only [List.mem_append, List.mem_cons] at hb
    rcases hb with sign | digit | rfl | digit
    · exact regular_signBytes negative b sign
    · exact first.regular b digit
    · decide
    · exact second.regular b digit
  not_natural := natural?_of_mem (b := byteOf '.') (by simp) (by decide)
  ne_mark := ne_of_mem_of_not_mem' (a := byteOf '.') (by simp) (by decide)
  value := (wordValue?_of_mem (b := byteOf '.') (by simp) (by decide)).trans
    (number?_fraction first second negative)

end Numbers

section Atoms

theorem Spelling.atom? {w rest : Bytes} {v : Value} (h : Spelling w v) (ended : Ended rest) :
    Pdf.atom? (w ++ rest) = some (v, rest) := by
  simp only [Pdf.atom?, word_append h.ne_nil h.regular ended, h.not_natural, h.value,
    Option.map_some]

theorem Numeral.atom? {digits rest : Bytes} {n : Nat} (h : Numeral digits n)
    (stops : Stops rest) : Pdf.atom? (digits ++ rest) = some (.int n, rest) := by
  simp only [Pdf.atom?, h.word stops.ended, h.natural, stops.generation]

theorem ended_mark (rest : Bytes) : Ended (ascii " R" ++ rest) := ended_cons (by decide) _

theorem generation?_numeral {digits rest : Bytes} {n : Nat} (h : Numeral digits n)
    (ended : Ended rest) :
    generation? (ascii " " ++ (digits ++ (ascii " R" ++ rest))) = some (n, rest) := by
  have mark : word (ascii " R" ++ rest) = (ascii "R", rest) :=
    (word_of_space (by decide) _).trans (word_append (w := ascii "R") (by decide) (by decide) ended)
  rw [generation?_space]
  simp only [generation?, h.word (ended_mark rest), mark, h.natural, if_true]

theorem atom?_reference {number generation rest : Bytes} {id : ObjectId}
    (first : Numeral number id.number) (second : Numeral generation id.generation)
    (ended : Ended rest) :
    Pdf.atom? (number ++ ascii " " ++ generation ++ ascii " R" ++ rest) =
      some (.ref id, rest) := by
  simp only [List.append_assoc]
  simp only [Pdf.atom?, first.word (ended_space _), first.natural,
    generation?_numeral second ended]

theorem Shape.exists_head {v : Value} {bytes : Bytes} (h : Shape v bytes) :
    ∃ b bs, bytes = b :: bs ∧ isSpace b = false ∧ b ≠ byteOf '%' ∧ b ≠ byteOf ']' := by
  have ofRegular : ∀ {w : Bytes} (rest : Bytes), w ≠ [] → Regular w →
      ∃ b bs, w ++ rest = b :: bs ∧ isSpace b = false ∧ b ≠ byteOf '%' ∧ b ≠ byteOf ']' := by
    intro w rest some regular
    obtain ⟨b, bs, rfl⟩ := List.exists_cons_of_ne_nil some
    obtain ⟨space, comment⟩ := mark_of_isRegular (regular b List.mem_cons_self)
    refine ⟨b, bs ++ rest, rfl, space, comment, ?_⟩
    rintro rfl
    exact absurd (regular _ List.mem_cons_self) (by decide)
  cases h with
  | marked space comment bracket _ bs => exact ⟨_, bs, rfl, space, comment, bracket⟩
  | word spelling => simpa using ofRegular [] spelling.ne_nil spelling.regular
  | natural numeral => simpa using ofRegular [] numeral.ne_nil numeral.regular
  | reference first second => simpa using ofRegular _ first.ne_nil first.regular

theorem Shape.stops {v : Value} {bytes rest : Bytes} (h : Shape v bytes) (stops : Stops rest) :
    Stops (ascii " " ++ (bytes ++ rest)) := by
  cases h with
  | marked space comment _ delimiter bs =>
    exact (stops_of_delimiter space comment delimiter (bs ++ rest)).space
  | word spelling =>
    have first := word_append spelling.ne_nil spelling.regular stops.ended
    refine stops_space ?_ (generation?_of_not_natural ?_)
    · rw [first]
      exact spelling.ne_mark
    · rw [first]
      exact spelling.not_natural
  | natural numeral =>
    have first := numeral.word stops.ended
    refine stops_space ?_ (generation?_of_ne_mark ?_)
    · rw [first]
      exact numeral.ne_mark
    · rw [first]
      exact stops.mark
  | @reference number generation id one two =>
    simp only [List.append_assoc]
    have first := one.word (ended_space (generation ++ (ascii " R" ++ rest)))
    have second := two.word (ended_mark rest)
    refine stops_space ?_ (generation?_of_ne_mark ?_)
    · rw [first]
      exact one.ne_mark
    · rw [first, word_space, second]
      exact two.ne_mark

theorem value?_of_isRegular {b : UInt8} (regular : isRegular b = true) (bound : Nat)
    (rest : Bytes) : value? (bound + 1) (b :: rest) = Pdf.atom? (b :: rest) := by
  obtain ⟨space, comment⟩ := mark_of_isRegular regular
  have other : ∀ d, isRegular d = false → b ≠ d := by
    rintro _ delimiter rfl
    exact absurd regular (by simp [delimiter])
  simp only [value?, skip_of_mark space comment, other (byteOf '/') (by decide),
    other (byteOf '(') (by decide), other (byteOf '[') (by decide), other (byteOf '<') (by decide),
    if_false]

theorem value?_append {w : Bytes} (some : w ≠ []) (regular : Regular w)
    {bound : Nat} (pos : 0 < bound) (rest : Bytes) :
    value? bound (w ++ rest) = Pdf.atom? (w ++ rest) := by
  obtain ⟨b, bs, rfl⟩ := List.exists_cons_of_ne_nil some
  obtain ⟨bound, rfl⟩ := Nat.exists_eq_succ_of_ne_zero (Nat.ne_of_gt pos)
  exact value?_of_isRegular (regular b List.mem_cons_self) bound (bs ++ rest)

end Atoms

end Folio.Pdf
