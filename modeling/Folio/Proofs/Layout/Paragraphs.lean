import Folio.Layout.Page
import Folio.Layout.Line
import Folio.Proofs.Text.Cutting
import Mathlib.Data.List.Forall2
import Mathlib.Data.List.SplitBy

/-! # Paragraphs

The lines of a wrapped text come in groups, one to a paragraph, and the mark on a line says where
a group ends. Nothing of a paragraph is lost in its lines but the white space between its words,
which is one space within a line and none at its ends, so the spaces of a line can be counted by
its words as well as by its bytes.
-/

namespace Folio.Layout

def joined (words : List String) : String := " ".intercalate words

def IsWord (word : String) : Prop := word ≠ "" ∧ ∀ c ∈ word.toList, Text.isBlank c = false

def Line.words (line : Line) : List String := wordsOf line.text.toList

theorem isWord_of_mem_wordsOf {paragraph : List Char} :
    ∀ word ∈ wordsOf paragraph, IsWord word := by
  intro word mem
  obtain ⟨w, listed, rfl⟩ := List.mem_map.1 mem
  obtain ⟨some, full⟩ := Text.words_spec paragraph w listed
  exact ⟨by simpa using some, by simpa using full⟩

theorem joined_singleton (word : String) : joined [word] = word := String.intercalate_singleton

theorem joined_concat {words : List String} (some : words ≠ []) (word : String) :
    joined (words ++ [word]) = joined words ++ " " ++ word := by
  rw [joined, String.intercalate_append_of_ne_nil some (List.cons_ne_nil word []),
    String.intercalate_singleton, joined]

theorem toList_joined_cons (word next : String) (rest : List String) :
    (joined (word :: next :: rest)).toList =
      word.toList ++ ' ' :: (joined (next :: rest)).toList := by
  simp [joined]

theorem wordsOf_joined {words : List String} (all : ∀ word ∈ words, IsWord word) :
    wordsOf (joined words).toList = words := by
  induction words with
  | nil => rfl
  | cons word rest ih =>
    obtain ⟨⟨some, full⟩, others⟩ := List.forall_mem_cons.1 all
    have alone : Text.words word.toList = [word.toList] :=
      Text.words_of_full (by simpa using some) full
    cases rest with
    | nil => simp [joined_singleton, wordsOf, alone]
    | cons next rest =>
      have behind := ih others
      rw [wordsOf] at behind ⊢
      rw [toList_joined_cons, Text.words_append_blank (by decide), alone, List.map_append, behind]
      simp

theorem count_space_joined {words : List String} (all : ∀ word ∈ words, IsWord word) :
    (joined words).toList.count ' ' = words.length - 1 := by
  have spaceless {word : String} (full : IsWord word) : word.toList.count ' ' = 0 := by
    apply List.count_eq_zero.2
    intro mem
    exact absurd (full.2 ' ' mem) (by decide)
  induction words with
  | nil => rfl
  | cons word rest ih =>
    obtain ⟨first, others⟩ := List.forall_mem_cons.1 all
    cases rest with
    | nil => rw [joined_singleton, spaceless first]; rfl
    | cons next rest =>
      rw [toList_joined_cons, List.count_append, List.count_cons_self, spaceless first, ih others]
      simp

theorem byteOf_inj {c d : Char} (left : c.toNat ≤ 255) (right : d.toNat ≤ 255) :
    byteOf c = byteOf d ↔ c = d := by
  constructor
  · intro same
    have fits : c.toNat < UInt8.size ∧ d.toNat < UInt8.size :=
      ⟨Nat.lt_succ_of_le left, Nat.lt_succ_of_le right⟩
    have value := congrArg UInt8.toNat same
    rw [byteOf, byteOf, UInt8.toNat_ofNat_of_lt' fits.1, UInt8.toNat_ofNat_of_lt' fits.2] at value
    exact Char.toNat_inj.1 value
  · rintro rfl
    rfl

theorem count_latin {d : Char} (low : d.toNat ≤ 255) (other : d ≠ '?') (text : String) :
    (latin text).count (byteOf d) = text.toList.count d := by
  have byte (c : Char) :
      (if c.toNat ≤ 255 then byteOf c else byteOf '?') = byteOf d ↔ c = d := by
    by_cases narrow : c.toNat ≤ 255
    · rw [if_pos narrow, byteOf_inj narrow low]
    · rw [if_neg narrow, byteOf_inj (by decide) low]
      refine iff_of_false other.symm ?_
      rintro rfl
      exact narrow low
  rw [latin, List.count, List.countP_map, List.count]
  apply List.countP_congr
  intro c _
  simpa using byte c

section

variable (measure : String → Float32) (limit : Float32)

/-- The words fit on a line. A single word has a line whether it fits or not. -/
def Fits (words : List String) : Prop := words.length = 1 ∨ measure (joined words) ≤ limit

def lineOf (words : List String) (ends : Bool) : Line :=
  ⟨joined words, measure (joined words), words.length - 1, ends⟩

/-- The words of a paragraph in lines: a line ends where the next word would not fit. -/
inductive Fills : List String → List Line → Prop
  | last {words : List String} (some : words ≠ []) (fits : Fits measure limit words) :
      Fills words [lineOf measure words true]
  | more {words : List String} {next : String} {rest : List String} {lines : List Line}
      (some : words ≠ []) (fits : Fits measure limit words)
      (wide : ¬ measure (joined (words ++ [next])) ≤ limit) (fills : Fills (next :: rest) lines) :
      Fills (words ++ next :: rest) (lineOf measure words false :: lines)

theorem fills_fill {taken : List String} (some : taken ≠ []) (fits : Fits measure limit taken)
    (words : List String) :
    Fills measure limit (taken ++ words)
      (fill measure limit (joined taken) (taken.length - 1) words) := by
  induction words generalizing taken with
  | nil =>
    rw [List.append_nil]
    exact .last some fits
  | cons word rest ih =>
    rw [fill, ← joined_concat some]
    by_cases more : measure (joined (taken ++ [word])) ≤ limit
    · have gaps : taken.length - 1 + 1 = (taken ++ [word]).length - 1 := by
        have pos := List.length_pos_iff.2 some
        rw [List.length_append, List.length_singleton]
        omega
      rw [if_pos more, gaps, List.append_cons]
      exact ih (by simp) (.inr more)
    · rw [if_neg more]
      have behind := ih (List.cons_ne_nil word []) (.inl rfl)
      rw [joined_singleton] at behind
      exact .more some fits more behind

theorem fills_wrapWords {words : List String} (some : words ≠ []) :
    Fills measure limit words (wrapWords measure limit words) := by
  obtain ⟨word, rest, rfl⟩ := List.exists_cons_of_ne_nil some
  have fills := fills_fill measure limit (List.cons_ne_nil word []) (.inl rfl) rest
  rwa [joined_singleton] at fills

end

variable {measure : String → Float32} {limit : Float32}

/-- The last line ends a paragraph, and no line before it does. -/
def Closed (lines : List Line) : Prop :=
  ∃ front last, lines = front ++ [last] ∧ last.endsParagraph = true ∧
    ∀ line ∈ front, line.endsParagraph = false

def paragraphs (lines : List Line) : List (List Line) :=
  lines.splitBy fun line _ => !line.endsParagraph

theorem Closed.ne_nil {lines : List Line} (closed : Closed lines) : lines ≠ [] := by
  obtain ⟨front, last, rfl, _⟩ := closed
  simp

theorem closed_of_fills {words : List String} {lines : List Line}
    (fills : Fills measure limit words lines) : Closed lines := by
  induction fills with
  | last => exact ⟨[], _, rfl, rfl, by simp⟩
  | more _ _ _ _ ih =>
    obtain ⟨front, last, rfl, ends, others⟩ := ih
    exact ⟨_ :: front, last, rfl, ends, List.forall_mem_cons.2 ⟨rfl, others⟩⟩

theorem closed_wrapWords (words : List String) : Closed (wrapWords measure limit words) := by
  by_cases none : words = []
  · subst none
    exact ⟨[], _, rfl, rfl, by simp⟩
  · exact closed_of_fills (fills_wrapWords measure limit none)

theorem paragraphs_flatten {groups : List (List Line)} (closed : ∀ group ∈ groups, Closed group) :
    paragraphs groups.flatten = groups := by
  apply List.splitBy_flatten
  · exact fun empty => (closed [] empty).ne_nil rfl
  · intro group mem
    obtain ⟨front, last, rfl, _, unmarked⟩ := closed group mem
    apply List.Pairwise.isChain
    refine List.pairwise_append.2 ⟨?_, List.pairwise_singleton _ _, ?_⟩
    · apply List.pairwise_of_forall_mem_list
      intro line mem _ _
      simp [unmarked line mem]
    · intro line mem _ _
      simp [unmarked line mem]
  · apply List.Pairwise.isChain
    apply List.pairwise_of_forall_mem_list
    intro group mem next mem'
    refine ⟨(closed group mem).ne_nil, (closed next mem').ne_nil, ?_⟩
    obtain ⟨front, last, rfl, ends, _⟩ := closed group mem
    simp [ends]

/-- The groups of a wrapped text are its paragraphs, each wrapped by itself. -/
theorem paragraphs_wrap (text : String) :
    paragraphs (wrap measure limit text) =
      (Text.lines text.toList).map fun paragraph =>
        wrapWords measure limit (wordsOf paragraph) := by
  rw [wrap, List.flatMap_def]
  apply paragraphs_flatten
  intro group mem
  obtain ⟨paragraph, _, rfl⟩ := List.mem_map.1 mem
  exact closed_wrapWords _

structure Line.Sound (measure : String → Float32) (line : Line) : Prop where
  text : line.text = joined line.words
  gaps : line.gaps = line.text.toList.count ' '
  bytes : line.gaps = (latin line.text).count 32
  width : line.width = measure line.text

structure Holds (measure : String → Float32) (lines : List Line) (paragraph : List Char) :
    Prop where
  closed : Closed lines
  words : lines.flatMap Line.words = wordsOf paragraph
  sound : ∀ line ∈ lines, line.Sound measure
  wordless : wordsOf paragraph = [] → ∃ line, lines = [line] ∧ line.text = ""

theorem words_lineOf {words : List String} (all : ∀ word ∈ words, IsWord word) (ends : Bool) :
    (lineOf measure words ends).words = words := wordsOf_joined all

theorem sound_lineOf {words : List String} (all : ∀ word ∈ words, IsWord word) (ends : Bool) :
    (lineOf measure words ends).Sound measure where
  text := by rw [words_lineOf all]; rfl
  gaps := (count_space_joined all).symm
  bytes := by
    have space : (32 : UInt8) = byteOf ' ' := rfl
    rw [space, count_latin (by decide) (by decide)]
    exact (count_space_joined all).symm
  width := rfl

theorem Fills.sound {words : List String} {lines : List Line}
    (fills : Fills measure limit words lines) (all : ∀ word ∈ words, IsWord word) :
    lines.flatMap Line.words = words ∧ ∀ line ∈ lines, line.Sound measure := by
  induction fills with
  | last =>
    refine ⟨?_, ?_⟩
    · rw [List.flatMap_singleton, words_lineOf all]
    · intro line mem
      rw [List.mem_singleton.1 mem]
      exact sound_lineOf all true
  | more _ _ _ _ ih =>
    obtain ⟨first, others⟩ := List.forall_mem_append.1 all
    obtain ⟨words, sound⟩ := ih others
    refine ⟨?_, List.forall_mem_cons.2 ⟨sound_lineOf first false, sound⟩⟩
    rw [List.flatMap_cons, words_lineOf first, words]

theorem holds_wrapWords (measure : String → Float32) (limit : Float32) (paragraph : List Char) :
    Holds measure (wrapWords measure limit (wordsOf paragraph)) paragraph := by
  by_cases none : wordsOf paragraph = []
  · rw [none]
    exact
      { closed := closed_wrapWords []
        words := none.symm
        sound := by
          intro line mem
          rw [List.mem_singleton.1 mem]
          exact sound_lineOf (List.forall_mem_nil IsWord) true
        wordless := fun _ => ⟨_, rfl, rfl⟩ }
  · obtain ⟨words, sound⟩ := (fills_wrapWords measure limit none).sound isWord_of_mem_wordsOf
    exact
      { closed := closed_wrapWords _
        words := words
        sound := sound
        wordless := fun empty => absurd empty none }

theorem sound_of_mem_wrap {text : String} {line : Line} (mem : line ∈ wrap measure limit text) :
    line.Sound measure := by
  obtain ⟨paragraph, _, mem⟩ := List.mem_flatMap.1 mem
  exact (holds_wrapWords measure limit paragraph).sound line mem

/-- A wrapped text has a group of lines for each of its paragraphs, in their order. -/
theorem wrapped_text_keeps_words (measure : String → Float32) (limit : Float32) (text : String) :
    List.Forall₂ (Holds measure) (paragraphs (wrap measure limit text))
      (Text.lines text.toList) := by
  rw [paragraphs_wrap, List.forall₂_map_left_iff, List.forall₂_same]
  intro paragraph _
  exact holds_wrapWords measure limit paragraph

end Folio.Layout
