import Folio.Text.Blank
import Mathlib.Data.List.Basic
import Mathlib.Data.List.DropRight

/-! # Cutting texts

Words are cut at every blank and lines at every line feed, so a text in two parts has the words or
the lines of both. Characters without a blank among them are one word, and characters without a
line feed are one line. A text that was trimmed has no blank at either end.
-/

namespace Folio.Text

theorem words_spec (cs : List Char) :
    ∀ w ∈ words cs, w ≠ [] ∧ ∀ c ∈ w, isBlank c = false := by
  fun_induction words cs with
  | case1 => simp
  | case2 c cs blank ih => exact ih
  | case3 c full => simpa using full
  | case4 c full d cs blank ih =>
    intro w mem
    rcases List.mem_cons.1 mem with rfl | mem
    · simpa using full
    · exact ih w mem
  | case5 c full d cs blank none ih =>
    rw [none]
    simpa using full
  | case6 c full d cs blank w ws some ih =>
    rw [some] at ih ⊢
    obtain ⟨first, others⟩ := List.forall_mem_cons.1 ih
    refine List.forall_mem_cons.2 ⟨⟨List.cons_ne_nil _ _, ?_⟩, others⟩
    exact List.forall_mem_cons.2 ⟨by simpa using full, first.2⟩

theorem words_eq_nil_iff {cs : List Char} : words cs = [] ↔ ∀ c ∈ cs, isBlank c = true := by
  fun_induction words cs with
  | case1 => simp
  | case2 c cs blank ih => rw [ih, List.forall_mem_cons, and_iff_right blank]
  | case3 c full => simpa using full
  | case4 c full d cs blank ih => simp [full]
  | case5 c full d cs blank none => simp [none, full]
  | case6 c full d cs blank w ws some => simp [some, full]

theorem words_cons_blank {c : Char} (blank : isBlank c = true) (cs : List Char) :
    words (c :: cs) = words cs := by
  rw [words.eq_def]
  exact if_pos blank

theorem words_cons_cons_blank {c d : Char} (full : ¬ isBlank c = true) (blank : isBlank d = true)
    (cs : List Char) : words (c :: d :: cs) = [c] :: words cs := by
  rw [words.eq_def]
  simp only [if_neg full, if_pos blank, words_cons_blank blank]

theorem words_cons_cons {c d : Char} (full : ¬ isBlank c = true) (more : ¬ isBlank d = true)
    {cs w : List Char} {ws : List (List Char)} (words_eq : words (d :: cs) = w :: ws) :
    words (c :: d :: cs) = (c :: w) :: ws := by
  rw [words.eq_def]
  simp only [if_neg full, if_neg more, words_eq]

theorem words_append_blank {b : Char} (blank : isBlank b = true) (front behind : List Char) :
    words (front ++ b :: behind) = words front ++ words behind := by
  fun_induction words front with
  | case1 => exact words_cons_blank blank behind
  | case2 c cs first ih => rw [List.cons_append, words_cons_blank first, ih]
  | case3 c full => exact words_cons_cons_blank full blank behind
  | case4 c full d cs second ih =>
    rw [List.cons_append, words_cons_blank second] at ih
    rw [List.cons_append, List.cons_append, words_cons_cons_blank full second, ih,
      List.cons_append]
  | case5 c full d cs more none ih =>
    exact absurd (words_eq_nil_iff.1 none d List.mem_cons_self) more
  | case6 c full d cs more w ws some ih =>
    rw [some] at ih ⊢
    exact words_cons_cons full more ih

theorem words_of_full {w : List Char} (some : w ≠ []) (full : ∀ c ∈ w, isBlank c = false) :
    words w = [w] := by
  fun_induction words w with
  | case1 => exact absurd rfl some
  | case2 c cs blank ih => exact absurd blank (by simp [full c List.mem_cons_self])
  | case3 => rfl
  | case4 c _ d cs blank ih => exact absurd blank (by simp [full d])
  | case5 c _ d cs more none ih =>
    exact absurd (words_eq_nil_iff.1 none d List.mem_cons_self) more
  | case6 c _ d cs _ w ws listed ih =>
    have rest := ih (List.cons_ne_nil d cs) fun c mem => full c (List.mem_cons_of_mem _ mem)
    rw [listed] at rest ⊢
    obtain ⟨rfl, rfl⟩ := List.cons.inj rest
    rfl

theorem exists_mem_lines {cs : List Char} {c : Char} (mem : c ∈ cs) (full : isBlank c = false) :
    ∃ line ∈ lines cs, c ∈ line := by
  have other : c ≠ '\n' ∧ c ≠ '\r' := by
    constructor
    · rintro rfl
      cases full
    · rintro rfl
      cases full
  fun_induction lines cs with
  | case1 => cases mem
  | case2 cs ih =>
    obtain ⟨line, listed, mem⟩ := ih ((List.mem_cons.1 mem).resolve_left other.1)
    exact ⟨line, List.mem_cons_of_mem _ listed, mem⟩
  | case3 d cs feed ret ih =>
    have behind : c ≠ d := ret.1 ▸ other.2
    exact ih ((List.mem_cons.1 mem).resolve_left behind)
  | case4 d cs feed ret none ih =>
    refine ⟨[d], List.mem_singleton.2 rfl, ?_⟩
    rcases List.mem_cons.1 mem with rfl | mem
    · exact List.mem_singleton.2 rfl
    · obtain ⟨line, listed, _⟩ := ih mem
      rw [none] at listed
      cases listed
  | case5 d cs feed ret line more some ih =>
    rcases List.mem_cons.1 mem with rfl | mem
    · exact ⟨_, List.mem_cons_self, List.mem_cons_self⟩
    · obtain ⟨other, listed, mem⟩ := ih mem
      rw [some] at listed
      rcases List.mem_cons.1 listed with rfl | listed
      · exact ⟨_, List.mem_cons_self, List.mem_cons_of_mem _ mem⟩
      · exact ⟨other, List.mem_cons_of_mem _ listed, mem⟩

theorem sublist_of_mem_lines {cs line : List Char} (listed : line ∈ lines cs) :
    line.Sublist cs := by
  fun_induction lines cs generalizing line with
  | case1 => cases listed
  | case2 cs ih =>
    rcases List.mem_cons.1 listed with rfl | listed
    · exact List.nil_sublist _
    · exact (ih listed).cons _
  | case3 d cs feed ret ih => exact (ih listed).cons d
  | case4 d cs feed ret none ih =>
    obtain rfl := List.mem_singleton.1 listed
    exact (List.nil_sublist cs).cons_cons d
  | case5 d cs feed ret first more some ih =>
    rw [some] at ih
    rcases List.mem_cons.1 listed with rfl | listed
    · exact (ih List.mem_cons_self).cons_cons d
    · exact (ih (List.mem_cons_of_mem _ listed)).cons d

theorem mem_of_mem_lines {cs line : List Char} (listed : line ∈ lines cs) {c : Char}
    (mem : c ∈ line) : c ∈ cs := (sublist_of_mem_lines listed).subset mem

theorem isBlank_of_getLast?_trimmed {cs : List Char} {c : Char}
    (last : (trimmed cs).getLast? = some c) : isBlank c = false := by
  have first := List.head?_dropWhile_not isBlank (cs.dropWhile isBlank).reverse
  rw [trimmed, List.getLast?_reverse] at last
  rwa [last] at first

theorem isBlank_of_head?_trimmed {cs : List Char} {c : Char}
    (first : (trimmed cs).head? = some c) : isBlank c = false := by
  have front : trimmed cs <+: cs.dropWhile isBlank := List.rdropWhile_prefix _ _
  obtain ⟨behind, split⟩ := front
  have kept := List.head?_dropWhile_not isBlank cs
  rwa [← split, List.head?_append, first] at kept

theorem trimmed_eq_nil_iff {cs : List Char} :
    trimmed cs = [] ↔ ∀ c ∈ cs, isBlank c = true := by
  constructor
  · intro none
    rw [trimmed, List.reverse_eq_nil_iff, List.dropWhile_eq_nil_iff] at none
    rw [← List.dropWhile_eq_nil_iff]
    by_contra some
    have full := List.head_dropWhile_not isBlank some
    rw [none _ (List.mem_reverse.2 (List.head_mem some))] at full
    cases full
  · intro blank
    rw [trimmed, List.dropWhile_eq_nil_iff.2 blank]
    rfl

theorem trim_eq_empty_iff {s : String} : trim s = "" ↔ ∀ c ∈ s.toList, isBlank c = true := by
  rw [← trimmed_eq_nil_iff, trim, ← String.toList_inj, String.toList_ofList]
  rfl

/-- What is left of a text is not white space alone. -/
theorem trimmed_eq_nil_of_blank {cs : List Char} (blank : ∀ c ∈ trimmed cs, isBlank c = true) :
    trimmed cs = [] := by
  cases left : trimmed cs with
  | nil => rfl
  | cons c rest =>
    have full : isBlank c = false := isBlank_of_head?_trimmed (by rw [left]; rfl)
    rw [blank c (left ▸ List.mem_cons_self)] at full
    cases full

end Folio.Text
