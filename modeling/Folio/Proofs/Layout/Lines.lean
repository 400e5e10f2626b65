import Folio.Layout.Line
import Folio.Proofs.Text.Cutting

/-! # Blank lines

Words are of characters that are not white space, and a line of words has one at its front. So the
only blank line is the line without characters, which stands for a paragraph without words, and a
text that is not all white space has a line that is not blank.
-/

namespace Folio.Layout

def Line.IsBlank (line : Line) : Prop := ∀ c ∈ line.text.toList, Text.isBlank c = true

-- A search for an instance may find one that tries every character there is.
instance (line : Line) : Decidable line.IsBlank :=
  List.decidableBAll (Text.isBlank · = true) line.text.toList

def HasInk (text : String) : Prop := ∃ c ∈ text.toList, Text.isBlank c = false

theorem HasInk.append {text : String} (ink : HasInk text) (more : String) :
    HasInk (text ++ more) := by
  obtain ⟨c, mem, full⟩ := ink
  exact ⟨c, by simp [mem], full⟩

theorem hasInk_of_mem_wordsOf {paragraph : List Char} {word : String}
    (mem : word ∈ wordsOf paragraph) : HasInk word := by
  obtain ⟨w, listed, rfl⟩ := List.mem_map.1 mem
  obtain ⟨some, full⟩ := Text.words_spec paragraph w listed
  obtain ⟨c, cs, rfl⟩ := List.exists_cons_of_ne_nil some
  exact ⟨c, by simp, full c List.mem_cons_self⟩

variable (measure : String → Float32) (limit : Float32)

theorem hasInk_fill {current : String} (ink : HasInk current) {gaps : Nat} {words : List String}
    (inks : ∀ word ∈ words, HasInk word) {line : Line}
    (mem : line ∈ fill measure limit current gaps words) : HasInk line.text := by
  induction words generalizing current gaps with
  | nil =>
    obtain rfl := List.mem_singleton.1 mem
    exact ink
  | cons word rest ih =>
    obtain ⟨first, others⟩ := List.forall_mem_cons.1 inks
    rw [fill] at mem
    split at mem
    · exact ih ((ink.append " ").append word) others mem
    · rcases List.mem_cons.1 mem with rfl | mem
      · exact ink
      · exact ih first others mem

theorem isBlank_iff_of_mem_wrap {text : String} {line : Line}
    (mem : line ∈ wrap measure limit text) : line.IsBlank ↔ line.text = "" := by
  constructor
  · intro blank
    obtain ⟨paragraph, _, mem⟩ := List.mem_flatMap.1 mem
    have inks : ∀ word ∈ wordsOf paragraph, HasInk word := fun _ => hasInk_of_mem_wordsOf
    cases words : wordsOf paragraph with
    | nil =>
      rw [words] at mem
      obtain rfl := List.mem_singleton.1 mem
      rfl
    | cons word rest =>
      rw [words] at mem inks
      obtain ⟨first, others⟩ := List.forall_mem_cons.1 inks
      obtain ⟨c, mem, full⟩ := hasInk_fill measure limit first others mem
      cases full.symm.trans (blank c mem)
  · intro empty
    simp [Line.IsBlank, empty]

theorem fill_ne_nil (current : String) (gaps : Nat) (words : List String) :
    fill measure limit current gaps words ≠ [] := by
  induction words generalizing current gaps with
  | nil => exact List.cons_ne_nil _ _
  | cons word rest ih =>
    rw [fill]
    split
    · exact ih _ _
    · exact List.cons_ne_nil _ _

theorem exists_mem_wrapWords {words : List String} (inks : ∀ word ∈ words, HasInk word) :
    (∃ line ∈ wrapWords measure limit words, line.text ≠ "") ↔ words ≠ [] := by
  constructor
  · rintro ⟨line, mem, some⟩ rfl
    obtain rfl := List.mem_singleton.1 mem
    exact some rfl
  · intro some
    obtain ⟨word, rest, rfl⟩ := List.exists_cons_of_ne_nil some
    obtain ⟨first, others⟩ := List.forall_mem_cons.1 inks
    obtain ⟨line, mem⟩ := List.exists_mem_of_ne_nil _ (fill_ne_nil measure limit word 0 rest)
    refine ⟨line, mem, ?_⟩
    intro empty
    obtain ⟨c, ink, _⟩ := hasInk_fill measure limit first others mem
    rw [empty] at ink
    cases ink

/-- A text has a line with characters just if it has ink. -/
theorem exists_mem_wrap {text : String} :
    (∃ line ∈ wrap measure limit text, line.text ≠ "") ↔ HasInk text := by
  have inks (paragraph : List Char) : ∀ word ∈ wordsOf paragraph, HasInk word :=
    fun _ => hasInk_of_mem_wordsOf
  have worded (paragraph : List Char) :
      wordsOf paragraph ≠ [] ↔ ∃ c ∈ paragraph, Text.isBlank c = false := by
    rw [wordsOf, Ne, List.map_eq_nil_iff, Text.words_eq_nil_iff]
    simp
  constructor
  · rintro ⟨line, mem, some⟩
    obtain ⟨paragraph, listed, mem⟩ := List.mem_flatMap.1 mem
    have words := (exists_mem_wrapWords measure limit (inks paragraph)).1 ⟨line, mem, some⟩
    obtain ⟨c, mem, full⟩ := (worded paragraph).1 words
    exact ⟨c, Text.mem_of_mem_lines listed mem, full⟩
  · rintro ⟨c, mem, full⟩
    obtain ⟨paragraph, listed, mem⟩ := Text.exists_mem_lines mem full
    have words := (worded paragraph).2 ⟨c, mem, full⟩
    obtain ⟨line, mem, some⟩ := (exists_mem_wrapWords measure limit (inks paragraph)).2 words
    exact ⟨line, List.mem_flatMap.2 ⟨paragraph, listed, mem⟩, some⟩

theorem map_filter_cons {α : Type} (f : Line → α) (line : Line) (rest : List Line) :
    ((line :: rest).filter fun line => line.text ≠ "").map f =
      (if line.text = "" then [] else [f line]) ++
        (rest.filter fun line => line.text ≠ "").map f := by
  by_cases empty : line.text = ""
  · simp [empty]
  · simp [empty]

end Folio.Layout
