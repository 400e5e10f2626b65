import Folio.Pdf.File
import Folio.Proofs.Number.Comparison
import Folio.Proofs.Pdf.Value

/-! # Words

A word is read back where no regular byte follows it, and the digits of a number spell that
number, also with zeros in front.
-/

namespace Folio.Pdf

theorem charOf_byteOf {c : Char} (h : c.toNat < 256) : charOf (byteOf c) = c := by
  simp [charOf, byteOf, Nat.mod_eq_of_lt h, Char.ofNat_toNat]

theorem toNat_lt_of_isDigit {c : Char} (h : c.isDigit = true) : c.toNat < 256 := by
  simp only [Char.isDigit, Bool.and_eq_true, decide_eq_true_eq, UInt32.le_iff_toNat_le] at h
  exact Nat.lt_of_le_of_lt h.2 (by decide)

theorem isDigit_byteOf {c : Char} (h : c.isDigit = true) : isDigit (byteOf c) = true := by
  rw [isDigit, charOf_byteOf (toNat_lt_of_isDigit h)]
  exact h

theorem isRegular_of_isDigit {b : UInt8} : isDigit b = true → isRegular b = true :=
  forall_byte (P := fun b => isDigit b = true → isRegular b = true) (by decide +kernel) b

structure Numeral (digits : Bytes) (n : Nat) : Prop where
  ne_nil : digits ≠ []
  all_digits : ∀ b ∈ digits, isDigit b = true
  spelled_eq : spelled digits = n

theorem Numeral.natural {digits : Bytes} {n : Nat} (h : Numeral digits n) :
    natural? digits = some n := by
  rw [natural?, if_pos ⟨h.ne_nil, List.all_eq_true.2 h.all_digits⟩, h.spelled_eq]

theorem numeral_of_chars {cs : List Char} (some : cs ≠ [])
    (digits : ∀ c ∈ cs, c.isDigit = true) :
    Numeral (cs.map byteOf) (Nat.ofDigitChars 10 cs 0) where
  ne_nil := by simpa using some
  all_digits := by
    intro b hb
    obtain ⟨c, hc, rfl⟩ := List.mem_map.1 hb
    exact isDigit_byteOf (digits c hc)
  spelled_eq := by
    have same : (cs.map byteOf).map charOf = cs := by
      rw [List.map_map]
      refine (List.map_congr_left fun c hc => ?_).trans (List.map_id cs)
      exact charOf_byteOf (toNat_lt_of_isDigit (digits c hc))
    rw [spelled, same]

theorem isDigit_toDigits {n : Nat} : ∀ c ∈ Nat.toDigits 10 n, c.isDigit = true :=
  fun _ hc => Nat.isDigit_of_mem_toDigits (by decide) (by decide) hc

theorem numeral_toString (n : Nat) : Numeral (ascii (toString n)) n := by
  have numeral := numeral_of_chars (Nat.toDigits_ne_nil (n := n) (b := 10)) isDigit_toDigits
  rw [Nat.ofDigitChars_ten_toDigits] at numeral
  simpa [ascii] using numeral

theorem toList_padded (width n : Nat) :
    (padded width n).toList =
      List.replicate (width - (Nat.toDigits 10 n).length) '0' ++ Nat.toDigits 10 n := by
  simp [padded, Number.zeros, ← String.length_toList]

theorem numeral_padded (width n : Nat) : Numeral (ascii (padded width n)) n := by
  have chars := toList_padded width n
  have some : (padded width n).toList ≠ [] := by
    rw [chars]
    exact List.append_ne_nil_of_right_ne_nil _ Nat.toDigits_ne_nil
  have digits : ∀ c ∈ (padded width n).toList, c.isDigit = true := by
    intro c hc
    rw [chars, List.mem_append] at hc
    rcases hc with zero | digit
    · rw [List.eq_of_mem_replicate zero]
      rfl
    · exact isDigit_toDigits c digit
  have value : Nat.ofDigitChars 10 (padded width n).toList 0 = n := by
    rw [chars, Nat.ofDigitChars_append, Nat.ofDigitChars_replicate_zero, Nat.mul_zero,
      Nat.ofDigitChars_ten_toDigits]
  have numeral := numeral_of_chars some digits
  rw [value] at numeral
  exact numeral

theorem length_padded {width n : Nat} (pos : 0 < width) (fits : n < 10 ^ width) :
    (ascii (padded width n)).length = width := by
  have le := (Nat.length_toDigits_le_iff (by decide : 1 < 10) pos).2 fits
  rw [ascii, List.length_map, toList_padded, List.length_append, List.length_replicate]
  omega

theorem skip_of_space {b : UInt8} (h : isSpace b = true) (rest : Bytes) :
    skip (b :: rest) = skip rest := by
  rw [skip, if_pos h]

theorem skip_of_mark {b : UInt8} (space : isSpace b = false) (comment : b ≠ byteOf '%')
    (rest : Bytes) : skip (b :: rest) = b :: rest := by
  rw [skip, if_neg (by simp [space]), if_neg comment]

theorem mark_of_isRegular {b : UInt8} :
    isRegular b = true → isSpace b = false ∧ b ≠ byteOf '%' :=
  forall_byte (P := fun b => isRegular b = true → isSpace b = false ∧ b ≠ byteOf '%')
    (by decide +kernel) b

def Regular (w : Bytes) : Prop := ∀ b ∈ w, isRegular b = true

instance : DecidablePred Regular := fun w => List.decidableBAll (fun b => isRegular b = true) w

/-- No word goes on here. -/
def Ended (rest : Bytes) : Prop := ∀ b ∈ rest.head?, isRegular b = false

theorem ended_cons {b : UInt8} (h : isRegular b = false) (rest : Bytes) : Ended (b :: rest) := by
  rintro _ ⟨⟩
  exact h

theorem regular_run {w rest : Bytes} (regular : Regular w)
    (ended : Ended rest) :
    (w ++ rest).takeWhile isRegular = w ∧ (w ++ rest).dropWhile isRegular = rest := by
  rw [List.takeWhile_append_of_pos regular, List.dropWhile_append_of_pos regular]
  cases rest with
  | nil => simp
  | cons b rest =>
    have stop : ¬ isRegular b = true := by simp [ended b rfl]
    rw [List.takeWhile_cons_of_neg stop, List.dropWhile_cons_of_neg stop, List.append_nil]
    exact ⟨rfl, rfl⟩

theorem word_append {w rest : Bytes} (some : w ≠ [])
    (regular : Regular w) (ended : Ended rest) :
    word (w ++ rest) = (w, rest) := by
  obtain ⟨b, bs, rfl⟩ := List.exists_cons_of_ne_nil some
  obtain ⟨space, comment⟩ := mark_of_isRegular (regular b List.mem_cons_self)
  obtain ⟨front, behind⟩ := regular_run regular ended
  rw [List.cons_append] at front behind ⊢
  rw [word, skip_of_mark space comment, front, behind]

theorem word_of_space {b : UInt8} (h : isSpace b = true) (rest : Bytes) :
    word (b :: rest) = word rest := by
  rw [word, skip_of_space h, word]

theorem word_of_delimiter {b : UInt8} (space : isSpace b = false) (comment : b ≠ byteOf '%')
    (delimiter : isRegular b = false) (rest : Bytes) : word (b :: rest) = ([], b :: rest) := by
  rw [word, skip_of_mark space comment, List.takeWhile_cons_of_neg (by simp [delimiter]),
    List.dropWhile_cons_of_neg (by simp [delimiter])]

theorem Numeral.regular {digits : Bytes} {n : Nat} (h : Numeral digits n) :
    Regular digits :=
  fun b hb => isRegular_of_isDigit (h.all_digits b hb)

theorem Numeral.word {digits rest : Bytes} {n : Nat} (h : Numeral digits n)
    (ended : Ended rest) : Pdf.word (digits ++ rest) = (digits, rest) :=
  word_append h.ne_nil h.regular ended

end Folio.Pdf
