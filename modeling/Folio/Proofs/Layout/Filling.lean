import Folio.Proofs.Layout.Paragraphs
import Folio.Proofs.Number.Comparison

/-! # Filled lines

A line of more than one word is no wider than the limit, and it ends where the next word would have
made it so. Under a measure that does not shrink when words are added, this makes the fewest lines
there can be: a line of any other breaking that goes beyond a line here has more words than fit.
-/

namespace Folio.Layout

variable {measure : String → Float32} {limit : Float32}

/-- A width is at most another. What is no number counts as wider than everything, as it does
where a line is tried. -/
def NoWider (a b : Float32) : Prop := b.isNaN = true ∨ a ≤ b

/-- Words do not get narrower by another word at either end. -/
structure Widening (measure : String → Float32) : Prop where
  front : ∀ {word : String} {words : List String}, words ≠ [] →
    (∀ w ∈ word :: words, IsWord w) →
    NoWider (measure (joined words)) (measure (joined (word :: words)))
  back : ∀ {words : List String} {word : String}, words ≠ [] →
    (∀ w ∈ words ++ [word], IsWord w) →
    NoWider (measure (joined words)) (measure (joined (words ++ [word])))

theorem NoWider.le {a b : Float32} (noWider : NoWider a b) (fits : b ≤ limit) : a ≤ limit := by
  rcases noWider with none | le
  · rw [(Number.isNaN_of_le fits).1] at none
    cases none
  · exact Number.le_trans le fits

theorem Widening.le (widening : Widening measure) {words line : List String} (some : words ≠ [])
    (part : words <:+: line) (all : ∀ word ∈ line, IsWord word)
    (fits : measure (joined line) ≤ limit) : measure (joined words) ≤ limit := by
  obtain ⟨front, back, rfl⟩ := part
  induction back using List.reverseRecOn with
  | append_singleton back word ih =>
    rw [← List.append_assoc] at all fits
    refine ih (fun w mem => all w (List.mem_append_left _ mem)) ?_
    exact (widening.back (by simp [some]) all).le fits
  | nil =>
    rw [List.append_nil] at all fits
    induction front with
    | nil => exact fits
    | cons word front ih =>
      refine ih (fun w mem => all w (List.mem_cons_of_mem _ mem)) ?_
      exact (widening.front (by simp [some]) all).le fits

theorem Widening.alone (widening : Widening measure) {words : List String}
    (all : ∀ word ∈ words, IsWord word) (fits : Fits measure limit words) {word : String}
    (mem : word ∈ words) (wide : limit < measure word) : words = [word] := by
  rcases fits with single | fits
  · obtain ⟨only, rfl⟩ := List.length_eq_one_iff.1 single
    rw [List.mem_singleton.1 mem]
  · obtain ⟨front, back, rfl⟩ := List.append_of_mem mem
    have part : [word] <:+: front ++ word :: back := ⟨front, back, by simp⟩
    have narrow := widening.le (List.cons_ne_nil word []) part all fits
    rw [joined_singleton] at narrow
    exact absurd wide (Number.not_lt_of_le narrow)

def ruler (text : String) : Float32 := Float32.ofNat (min text.length 16)

theorem ruler_le {text other : String} (le : text.length ≤ other.length) :
    ruler text ≤ ruler other := by
  have marks : ∀ n : Fin 17, ∀ m : Fin 17, m ≤ n → Float32.ofNat m ≤ Float32.ofNat n := by
    decide +kernel
  have short (text : String) : min text.length 16 < 17 := by omega
  exact marks ⟨_, short other⟩ ⟨_, short text⟩ (Fin.mk_le_mk.2 (by omega))

theorem widening_ruler : Widening ruler where
  front := by
    intro word words some _
    refine .inr (ruler_le ?_)
    rw [joined, joined, String.intercalate_cons_of_ne_nil some, String.length_append]
    omega
  back := by
    intro words word some _
    refine .inr (ruler_le ?_)
    rw [joined_concat some, String.append_assoc, String.length_append]
    omega

/-- The words of a paragraph in lines that they may have. -/
structure Breaks (measure : String → Float32) (limit : Float32) (words : List String)
    (lines : List (List String)) : Prop where
  flatten : lines.flatten = words
  ne_nil : ∀ line ∈ lines, line ≠ []
  fits : ∀ line ∈ lines, Fits measure limit line

theorem Fills.breaks {words : List String} {lines : List Line}
    (fills : Fills measure limit words lines) (all : ∀ word ∈ words, IsWord word) :
    Breaks measure limit words (lines.map Line.words) := by
  induction fills with
  | last some fits =>
    rw [List.map_singleton, words_lineOf all]
    exact ⟨by simp, List.forall_mem_singleton.2 some, List.forall_mem_singleton.2 fits⟩
  | more some fits _ _ ih =>
    obtain ⟨first, others⟩ := List.forall_mem_append.1 all
    obtain ⟨flatten, someBehind, fitsBehind⟩ := ih others
    rw [List.map_cons, words_lineOf first]
    exact
      { flatten := by rw [List.flatten_cons, flatten]
        ne_nil := List.forall_mem_cons.2 ⟨some, someBehind⟩
        fits := List.forall_mem_cons.2 ⟨fits, fitsBehind⟩ }

theorem fits_of_mem_wrap {text : String} {line : Line} (mem : line ∈ wrap measure limit text) :
    line.words = [] ∨ Fits measure limit line.words := by
  obtain ⟨paragraph, _, mem⟩ := List.mem_flatMap.1 mem
  by_cases none : wordsOf paragraph = []
  · rw [none] at mem
    obtain rfl := List.mem_singleton.1 mem
    exact .inl rfl
  · have breaks := (fills_wrapWords measure limit none).breaks isWord_of_mem_wordsOf
    exact .inr (breaks.fits _ (List.mem_map_of_mem mem))

theorem text_of_mem_wrap {text : String} {line : Line} (mem : line ∈ wrap measure limit text) :
    line.text = joined line.words := (sound_of_mem_wrap mem).text

/-- The next line begins with a word that does not fit on this one. -/
def Full (measure : String → Float32) (limit : Float32) (line next : Line) : Prop :=
  ∃ word more, next.words = word :: more ∧ ¬ measure (line.text ++ " " ++ word) ≤ limit

theorem Fills.head {first : String} {rest : List String} {lines : List Line}
    (fills : Fills measure limit (first :: rest) lines)
    (all : ∀ word ∈ first :: rest, IsWord word) :
    ∃ line behind more, lines = line :: behind ∧ line.words = first :: more := by
  generalize split : first :: rest = words at fills all
  cases fills with
  | last => exact ⟨_, [], rest, rfl, (words_lineOf all true).trans split.symm⟩
  | @more words next _ lines some =>
    obtain ⟨word, more, rfl⟩ := List.exists_cons_of_ne_nil some
    obtain ⟨rfl, _⟩ := List.cons.inj split
    exact ⟨_, lines, more, rfl, words_lineOf (List.forall_mem_append.1 all).1 false⟩

theorem Fills.isChain_full {words : List String} {lines : List Line}
    (fills : Fills measure limit words lines) (all : ∀ word ∈ words, IsWord word) :
    lines.IsChain (Full measure limit) := by
  induction fills with
  | last => exact .singleton _
  | @more words next rest lines some _ wide fills ih =>
    obtain ⟨_, others⟩ := List.forall_mem_append.1 all
    obtain ⟨line, behind, more, rfl, begins⟩ := fills.head others
    refine .cons_cons ⟨next, more, begins, ?_⟩ (ih others)
    rw [joined_concat some] at wide
    exact wide

/-- A line of several words is within the limit, the first word of the next line of its paragraph
would not be, and where adding words does not make narrower, a word that is too wide by itself is
alone on its line. -/
theorem lines_filled_greedily (measure : String → Float32) (limit : Float32) (text : String) :
    (∀ line ∈ wrap measure limit text, 1 < line.words.length → measure line.text ≤ limit) ∧
      (∀ lines ∈ paragraphs (wrap measure limit text), lines.IsChain (Full measure limit)) ∧
      (Widening measure → ∀ line ∈ wrap measure limit text, ∀ word ∈ line.words,
        limit < measure word → line.words = [word]) := by
  refine ⟨?_, ?_, ?_⟩
  · intro line mem several
    rcases fits_of_mem_wrap mem with none | fits
    · simp [none] at several
    · rw [text_of_mem_wrap mem]
      exact fits.resolve_left (Nat.ne_of_gt several)
  · intro lines mem
    rw [paragraphs_wrap] at mem
    obtain ⟨paragraph, _, rfl⟩ := List.mem_map.1 mem
    by_cases none : wordsOf paragraph = []
    · rw [none]
      exact .singleton _
    · exact (fills_wrapWords measure limit none).isChain_full isWord_of_mem_wordsOf
  · intro widening line mem word listed wide
    rcases fits_of_mem_wrap mem with none | fits
    · simp [none] at listed
    · exact widening.alone isWord_of_mem_wordsOf fits listed wide

theorem ruled_lines_filled :
    let lines := wrap ruler 5 "a bc supercalifragilistic b\r\n\nto be"
    Widening ruler ∧ 5 < ruler "supercalifragilistic" ∧
      lines.map Line.text = ["a bc", "supercalifragilistic", "b", "", "to be"] ∧
      (∀ line ∈ lines, 1 < line.words.length → ruler line.text ≤ 5) ∧
      (∀ group ∈ paragraphs lines, group.IsChain (Full ruler 5)) ∧
      ∀ line ∈ lines, "supercalifragilistic" ∈ line.words →
        line.words = ["supercalifragilistic"] := by
  intro lines
  have wide : 5 < ruler "supercalifragilistic" := by decide +kernel
  obtain ⟨within, full, alone⟩ :=
    lines_filled_greedily ruler 5 "a bc supercalifragilistic b\r\n\nto be"
  exact ⟨widening_ruler, wide, by decide +kernel, within, full,
    fun line mem listed => alone widening_ruler line mem _ listed wide⟩

/-- Of words at the end of a list in two parts, the later ones are at the end of the second part,
or the earlier ones stand in the first part with the next word behind them. -/
theorem suffix_or_infix {words rest line behind : List String} {next : String}
    (last : words ++ next :: rest <:+ line ++ behind) :
    next :: rest <:+ behind ∨ words ++ [next] <:+: line := by
  have later : next :: rest <:+ line ++ behind := (List.suffix_append _ _).trans last
  rcases List.suffix_or_suffix_of_suffix later (List.suffix_append line behind) with
    inside | ⟨taken, split⟩
  · exact .inl inside
  · cases taken with
    | nil => exact .inl ⟨[], split.symm⟩
    | cons word more =>
      obtain ⟨rfl, rfl⟩ := List.cons.inj split
      obtain ⟨front, whole⟩ := last
      refine .inr ⟨front, more, (List.append_left_inj behind).1 ?_⟩
      rw [← whole]
      simp

/-- Greedy lines stay ahead: words at the end of another breaking have at most as many lines as it
has. If the first line here ends within a line there, that line takes in all its words and the next
one, which do not fit. -/
theorem Fills.length_le (widening : Widening measure) {words : List String} {lines : List Line}
    (fills : Fills measure limit words lines) {cut : List (List String)}
    (all : ∀ word ∈ cut.flatten, IsWord word) (fits : ∀ line ∈ cut, Fits measure limit line)
    (last : words <:+ cut.flatten) : lines.length ≤ cut.length := by
  induction fills generalizing cut with
  | last some =>
    cases cut with
    | nil => exact absurd (List.suffix_nil.1 last) some
    | cons => simp
  | @more words next rest lines some _ wide _ ih =>
    cases cut with
    | nil => simp at last
    | cons line cut =>
      obtain ⟨fit, fits⟩ := List.forall_mem_cons.1 fits
      rw [List.flatten_cons] at all last
      obtain ⟨here, behind⟩ := List.forall_mem_append.1 all
      rcases suffix_or_infix last with later | part
      · exact Nat.succ_le_succ (ih behind fits later)
      · have several : line.length ≠ 1 := by
          have pos := List.length_pos_iff.2 some
          have long := part.length_le
          rw [List.length_append, List.length_singleton] at long
          omega
        have nonempty : words ++ [next] ≠ [] := by simp
        exact absurd (widening.le nonempty part here (fit.resolve_left several)) wide

/-- Every paragraph with words is broken into lines that its words may have, and no other way to
break them takes fewer lines. -/
theorem wrapping_takes_fewest_lines (widening : Widening measure) (limit : Float32)
    (text : String) :
    List.Forall₂
      (fun lines paragraph => wordsOf paragraph ≠ [] →
        Breaks measure limit (wordsOf paragraph) (lines.map Line.words) ∧
          ∀ cut, Breaks measure limit (wordsOf paragraph) cut → lines.length ≤ cut.length)
      (paragraphs (wrap measure limit text)) (Text.lines text.toList) := by
  rw [paragraphs_wrap, List.forall₂_map_left_iff, List.forall₂_same]
  intro paragraph _ some
  have fills := fills_wrapWords measure limit some
  refine ⟨fills.breaks isWord_of_mem_wordsOf, ?_⟩
  intro cut breaks
  apply fills.length_le widening _ breaks.fits
  · exact breaks.flatten ▸ List.suffix_rfl
  · rw [breaks.flatten]
    exact isWord_of_mem_wordsOf

theorem ruled_lines_fewest :
    let text := "a bc supercalifragilistic b\r\n\nto be"
    let words := ["a", "bc", "supercalifragilistic", "b"]
    Widening ruler ∧ (Text.lines text.toList).map wordsOf = [words, [], ["to", "be"]] ∧
      (paragraphs (wrap ruler 5 text)).map List.length = [3, 1, 1] ∧
      Breaks ruler 5 words [["a", "bc"], ["supercalifragilistic"], ["b"]] ∧
      ∀ cut, Breaks ruler 5 words cut → 3 ≤ cut.length := by
  intro text words
  have fewest := wrapping_takes_fewest_lines widening_ruler 5 text
  have paragraphs : Text.lines text.toList =
      ["a bc supercalifragilistic b".toList, [], "to be".toList] := by decide +kernel
  have spelled : wordsOf "a bc supercalifragilistic b".toList = words := by decide +kernel
  have lines : (wrapWords ruler 5 words).map Line.words =
      [["a", "bc"], ["supercalifragilistic"], ["b"]] := by decide +kernel
  rw [paragraphs_wrap, paragraphs, List.map_cons] at fewest
  obtain ⟨first, _⟩ := List.forall₂_cons.1 fewest
  rw [spelled, lines] at first
  obtain ⟨breaks, least⟩ := first (by decide)
  have three : (wrapWords ruler 5 words).length = 3 := by decide +kernel
  refine ⟨widening_ruler, by decide +kernel, by decide +kernel, breaks, ?_⟩
  intro cut other
  exact three ▸ least cut other

end Folio.Layout
