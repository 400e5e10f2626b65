import Folio.Layout.Page
import Folio.Proofs.Number.Comparison
import Mathlib.Data.List.Forall2

/-! # Text state

A reader of a page keeps a font, a fill colour and a word spacing from one text to the next, and
forgets the place when a text begins. What a page remembers to have set is what the reader has,
so a page may leave out what would set it again.
-/

namespace Folio.Layout

structure Shown where
  string : Bytes
  x : Float32
  baseline : Float32
  font : String
  size : Float32
  fill : Float32 × Float32 × Float32
  wordSpacing : Float32

/-- What a reader knows between two instructions. -/
structure TextState where
  inText : Bool := false
  /-- The start of the line, which is the origin when a text begins. -/
  line : Option (Float32 × Float32) := none
  font : Option (String × Float32) := none
  fill : Float32 × Float32 × Float32 := (0, 0, 0)
  wordSpacing : Float32 := 0

namespace TextState

/-- Carries out an instruction. A string shows only in a text, with a font and at a place. -/
def step (s : TextState) : Instruction → Option (TextState × List Shown)
  | .beginText => if s.inText then none else some ({ s with inText := true, line := none }, [])
  | .endText => if s.inText then some ({ s with inText := false }, []) else none
  | .font name size => some ({ s with font := some (name, size) }, [])
  | .fill red green blue => some ({ s with fill := (red, green, blue) }, [])
  | .wordSpacing width => some ({ s with wordSpacing := width }, [])
  | .moveTo x y =>
    let line :=
      match s.line with
      | none => (x, y)
      | some (x₀, y₀) => (x₀ + x, y₀ + y)
    if s.inText then some ({ s with line := some line }, []) else none
  | .showText string =>
    match s.inText, s.line, s.font with
    | true, some (x, baseline), some (font, size) =>
      some (s, [⟨string, x, baseline, font, size, s.fill, s.wordSpacing⟩])
    | _, _, _ => none

def run (s : TextState) : List Instruction → Option (TextState × List Shown)
  | [] => some (s, [])
  | instruction :: rest => do
    let (s, front) ← s.step instruction
    let (s, behind) ← run s rest
    return (s, front ++ behind)

theorem run_append {s t u : TextState} {front behind : List Instruction}
    {shown more : List Shown} (first : s.run front = some (t, shown))
    (second : t.run behind = some (u, more)) :
    s.run (front ++ behind) = some (u, shown ++ more) := by
  induction front generalizing s shown with
  | nil =>
    obtain ⟨rfl, rfl⟩ := Prod.mk.inj (Option.some.inj first)
    exact second
  | cons instruction rest ih =>
    rw [run] at first
    cases stepped : s.step instruction with
    | none => simp [stepped] at first
    | some result =>
      obtain ⟨middle, new⟩ := result
      cases later : middle.run rest with
      | none => simp [stepped, later] at first
      | some result =>
        obtain ⟨last, others⟩ := result
        simp only [stepped, later, Option.bind_eq_bind, Option.bind_some, Option.pure_def,
          Option.some.injEq, Prod.mk.injEq] at first
        obtain ⟨rfl, rfl⟩ := first
        have whole := ih later
        simp only [List.cons_append, run, stepped, whole, Option.bind_eq_bind, Option.bind_some,
          Option.pure_def, List.append_assoc]

theorem run_singleton {s t : TextState} {instruction : Instruction} {shown : List Shown}
    (stepped : s.step instruction = some (t, shown)) : s.run [instruction] = some (t, shown) := by
  simp [run, stepped]

end TextState

def TextRun.shown (run : TextRun) : Shown where
  string := latin run.text
  x := run.x
  baseline := run.baseline
  font := run.font
  size := run.size
  fill := run.color.unit
  wordSpacing := run.wordSpacing

def visible (runs : List TextRun) : List Shown :=
  (runs.filter fun run => !run.text.isEmpty).map TextRun.shown

theorem visible_cons (run : TextRun) (rest : List TextRun) :
    visible (run :: rest) = (if run.text.isEmpty then [] else [run.shown]) ++ visible rest := by
  rw [visible, List.filter_cons]
  by_cases empty : run.text.isEmpty = true
  · simp [visible, empty]
  · simp [visible, empty]

/-- Two strings that look the same: their numbers compare as equal. -/
structure Shown.Same (a b : Shown) : Prop where
  string : a.string = b.string
  x : (a.x == b.x) = true
  baseline : (a.baseline == b.baseline) = true
  font : a.font = b.font
  size : (a.size == b.size) = true
  fill : a.fill = b.fill
  wordSpacing : (a.wordSpacing == b.wordSpacing) = true

structure TextRun.Proper (run : TextRun) : Prop where
  named : run.font ≠ ""
  x : run.x.isNaN = false
  baseline : run.baseline.isNaN = false
  size : run.size.isNaN = false
  wordSpacing : run.wordSpacing.isNaN = false

def TextRun.plainly (run : TextRun) : List Instruction :=
  if run.text.isEmpty then []
  else
    [.beginText, .font run.font run.size,
      .fill run.color.unit.1 run.color.unit.2.1 run.color.unit.2.2, .wordSpacing run.wordSpacing,
      .moveTo run.x run.baseline, .showText (latin run.text), .endText]

namespace Page

@[simp] theorem instructions_push (page : Page) (i : Instruction) :
    (page.push i).instructions = page.instructions ++ [i] :=
  List.reverse_cons

theorem font_setFont (page : Page) (name : String) (size : Float32) :
    (page.setFont name size).font = name := by
  rw [setFont]
  split
  · rename_i set
    exact (by simpa using set : page.font = name ∧ _).1
  · rfl

theorem size_setFont (page : Page) (name : String) {size : Float32} (number : size.isNaN = false) :
    ((page.setFont name size).size == size) = true := by
  rw [setFont]
  split
  · rename_i set
    exact (by simpa using set : _ ∧ (page.size == size) = true).2
  · exact Number.beq_self number

theorem color_setColor (page : Page) (color : Color) :
    (page.setColor color).color = some color := by
  rw [setColor]
  split
  · assumption
  · rfl

theorem font_setColor (page : Page) (color : Color) :
    (page.setColor color).font = page.font ∧ (page.setColor color).size = page.size := by
  rw [setColor]
  split
  · exact ⟨rfl, rfl⟩
  · exact ⟨rfl, rfl⟩

theorem wordSpacing_setWordSpacing (page : Page) {width : Float32} (number : width.isNaN = false) :
    ((page.setWordSpacing width).wordSpacing == width) = true := by
  rw [setWordSpacing]
  split
  · assumption
  · exact Number.beq_self number

theorem font_setWordSpacing (page : Page) (width : Float32) :
    (page.setWordSpacing width).font = page.font ∧
      (page.setWordSpacing width).size = page.size ∧
        (page.setWordSpacing width).color = page.color := by
  rw [setWordSpacing]
  split
  · exact ⟨rfl, rfl, rfl⟩
  · exact ⟨rfl, rfl, rfl⟩

end Page

/-- The page remembers what a reader of its instructions has, and the reader has seen these
strings. -/
structure Tracks (page : Page) (s : TextState) (shown : List Shown) : Prop where
  run : TextState.run {} page.instructions = some (s, shown)
  font : s.font = if page.font = "" then none else some (page.font, page.size)
  fill : ∀ color, page.color = some color → s.fill = color.unit
  wordSpacing : s.wordSpacing = page.wordSpacing

namespace Tracks

variable {page : Page} {s t : TextState} {shown new : List Shown}

theorem start : Tracks {} {} [] where
  run := rfl
  font := rfl
  fill := by
    intro color set
    cases set
  wordSpacing := rfl

theorem run_push (h : Tracks page s shown) {i : Instruction} (stepped : s.step i = some (t, new)) :
    TextState.run {} (page.push i).instructions = some (t, shown ++ new) := by
  rw [Page.instructions_push]
  exact TextState.run_append h.run (TextState.run_singleton stepped)

theorem push (h : Tracks page s shown) {i : Instruction} (stepped : s.step i = some (t, new))
    (font : t.font = s.font) (fill : t.fill = s.fill) (spacing : t.wordSpacing = s.wordSpacing) :
    Tracks (page.push i) t (shown ++ new) where
  run := h.run_push stepped
  font := font.trans h.font
  fill := fun color set => fill.trans (h.fill color set)
  wordSpacing := spacing.trans h.wordSpacing

theorem setFont (h : Tracks page s shown) {name : String} (named : name ≠ "") (size : Float32) :
    ∃ t, Tracks (page.setFont name size) t shown ∧ t.inText = s.inText ∧ t.line = s.line := by
  rw [Page.setFont]
  split
  · exact ⟨s, h, rfl, rfl⟩
  · refine ⟨{ s with font := some (name, size) }, ?_, rfl, rfl⟩
    have set := h.run_push (i := .font name size) rfl
    rw [List.append_nil] at set
    exact ⟨set, (if_neg named).symm, h.fill, h.wordSpacing⟩

theorem setColor (h : Tracks page s shown) (color : Color) :
    ∃ t, Tracks (page.setColor color) t shown ∧ t.inText = s.inText ∧ t.line = s.line := by
  rw [Page.setColor]
  split
  · exact ⟨s, h, rfl, rfl⟩
  · refine ⟨{ s with fill := color.unit }, ?_, rfl, rfl⟩
    have set := h.run_push (i := .fill color.unit.1 color.unit.2.1 color.unit.2.2) rfl
    rw [List.append_nil] at set
    refine ⟨set, h.font, ?_, h.wordSpacing⟩
    intro other same
    obtain rfl := Option.some.inj same
    rfl

theorem setWordSpacing (h : Tracks page s shown) (width : Float32) :
    ∃ t, Tracks (page.setWordSpacing width) t shown ∧ t.inText = s.inText ∧ t.line = s.line := by
  rw [Page.setWordSpacing]
  split
  · exact ⟨s, h, rfl, rfl⟩
  · refine ⟨{ s with wordSpacing := width }, ?_, rfl, rfl⟩
    have set := h.run_push (i := .wordSpacing width) rfl
    rw [List.append_nil] at set
    exact ⟨set, h.font, h.fill, rfl⟩

theorem moveTo_showText (h : Tracks page s shown) (inside : s.inText = true)
    (atOrigin : s.line = none) (named : page.font ≠ "") (x baseline : Float32) (string : Bytes) :
    ∃ t, Tracks (((page.push (.moveTo x baseline)).push (.showText string)).push .endText) t
        (shown ++ [⟨string, x, baseline, page.font, page.size, s.fill, page.wordSpacing⟩]) ∧
      t.inText = false := by
  have font : s.font = some (page.font, page.size) := h.font.trans (if_neg named)
  have moved : s.step (.moveTo x baseline) =
      some ({ s with line := some (x, baseline) }, []) := by
    simp only [TextState.step, atOrigin, inside, if_true]
  have shows : TextState.step { s with line := some (x, baseline) } (.showText string) =
      some ({ s with line := some (x, baseline) },
        [⟨string, x, baseline, page.font, page.size, s.fill, page.wordSpacing⟩]) := by
    simp only [TextState.step, inside, font, h.wordSpacing]
  have ends : TextState.step { s with line := some (x, baseline) } .endText =
      some ({ s with line := some (x, baseline), inText := false }, []) := by
    simp only [TextState.step, inside, if_true]
  have last := ((h.push moved rfl rfl rfl).push shows rfl rfl rfl).push ends rfl rfl rfl
  rw [List.append_nil, List.append_nil] at last
  exact ⟨_, last, rfl⟩

/-- Drawing a text shows its string at its place, in its font and its colour. Its other numbers
compare as equal to what they are meant to be if they are numbers at all. -/
theorem draw_named (h : Tracks page s shown) (outside : s.inText = false) {run : TextRun}
    (named : run.font ≠ "") :
    ∃ t size wordSpacing,
      Tracks (page.draw run) t (shown ++ if run.text.isEmpty then []
        else [{ run.shown with size := size, wordSpacing := wordSpacing }]) ∧
      t.inText = false ∧ (run.size.isNaN = false → (size == run.size) = true) ∧
      (run.wordSpacing.isNaN = false → (wordSpacing == run.wordSpacing) = true) := by
  rw [Page.draw]
  by_cases empty : run.text.isEmpty = true
  · rw [if_pos empty]
    refine ⟨s, run.size, run.wordSpacing, ?_, outside, Number.beq_self, Number.beq_self⟩
    rw [if_pos empty, List.append_nil]
    exact h
  · rw [if_neg empty]
    have began : s.step .beginText = some ({ s with inText := true, line := none }, []) := by
      simp [TextState.step, outside]
    have first := h.push began rfl rfl rfl
    rw [List.append_nil] at first
    obtain ⟨s₁, first, inside₁, origin₁⟩ := first.setFont named run.size
    obtain ⟨s₂, second, inside₂, origin₂⟩ := first.setColor run.color
    obtain ⟨s₃, third, inside₃, origin₃⟩ := second.setWordSpacing run.wordSpacing
    -- What the page remembers now is what the text asks for.
    set middle := ((page.push .beginText).setFont run.font run.size).setColor run.color
    have keeps := middle.font_setWordSpacing run.wordSpacing
    have colored := ((page.push .beginText).setFont run.font run.size).font_setColor run.color
    have font : (middle.setWordSpacing run.wordSpacing).font = run.font := by
      rw [keeps.1, colored.1, Page.font_setFont]
    have color : (middle.setWordSpacing run.wordSpacing).color = some run.color := by
      rw [keeps.2.2]
      exact Page.color_setColor _ _
    obtain ⟨t, last, outside⟩ := third.moveTo_showText
      (inside₃.trans (inside₂.trans inside₁)) (origin₃.trans (origin₂.trans origin₁))
      (by rw [font]; exact named) run.x run.baseline (latin run.text)
    rw [font, third.fill _ color] at last
    refine ⟨t, (middle.setWordSpacing run.wordSpacing).size, _, ?_, outside, fun number => ?_,
      middle.wordSpacing_setWordSpacing⟩
    · rw [if_neg empty]
      exact last
    · rw [keeps.2.1, colored.2]
      exact Page.size_setFont _ _ number

theorem draw (h : Tracks page s shown) (outside : s.inText = false) {run : TextRun}
    (proper : run.Proper) :
    ∃ t new, Tracks (page.draw run) t (shown ++ new) ∧ t.inText = false ∧
      List.Forall₂ Shown.Same new (if run.text.isEmpty then [] else [run.shown]) := by
  obtain ⟨t, size, wordSpacing, last, outside, sized, spaced⟩ := h.draw_named outside proper.named
  refine ⟨t, _, last, outside, ?_⟩
  split
  · exact .nil
  · refine .cons ?_ .nil
    exact
      { string := rfl
        x := Number.beq_self proper.x
        baseline := Number.beq_self proper.baseline
        font := rfl
        size := sized proper.size
        fill := rfl
        wordSpacing := spaced proper.wordSpacing }

theorem foldl_draw (h : Tracks page s shown) (outside : s.inText = false) {runs : List TextRun}
    (proper : ∀ run ∈ runs, run.Proper) :
    ∃ t new, Tracks (runs.foldl Page.draw page) t (shown ++ new) ∧ t.inText = false ∧
      List.Forall₂ Shown.Same new (visible runs) := by
  induction runs generalizing page s shown with
  | nil =>
    refine ⟨s, [], ?_, outside, .nil⟩
    rw [List.append_nil]
    exact h
  | cons run rest ih =>
    obtain ⟨first, others⟩ := List.forall_mem_cons.1 proper
    obtain ⟨middle, new, step, outside, same⟩ := h.draw outside first
    obtain ⟨t, more, later, outside, others⟩ := ih step outside others
    rw [List.append_assoc] at later
    refine ⟨t, new ++ more, later, outside, ?_⟩
    rw [visible_cons]
    exact List.rel_append same others

end Tracks

theorem run_plainly (runs : List TextRun) {s : TextState} (outside : s.inText = false) :
    ∃ t, s.run (runs.flatMap TextRun.plainly) = some (t, visible runs) ∧ t.inText = false := by
  induction runs generalizing s with
  | nil => exact ⟨s, rfl, outside⟩
  | cons run rest ih =>
    have step : ∃ t, s.run run.plainly = some (t, if run.text.isEmpty then [] else [run.shown]) ∧
        t.inText = false := by
      rw [TextRun.plainly]
      by_cases empty : run.text.isEmpty = true
      · rw [if_pos empty, if_pos empty]
        exact ⟨s, rfl, outside⟩
      · rw [if_neg empty, if_neg empty]
        refine ⟨{ s with
          line := some (run.x, run.baseline)
          font := some (run.font, run.size)
          fill := run.color.unit
          wordSpacing := run.wordSpacing }, ?_, outside⟩
        simp [TextState.run, TextState.step, outside, TextRun.shown]
    obtain ⟨middle, first, outside⟩ := step
    obtain ⟨t, later, outside⟩ := ih outside
    rw [List.flatMap_cons, visible_cons]
    exact ⟨t, TextState.run_append first later, outside⟩

/-- Leaving out what is set already never changes what a page shows. -/
theorem elided_state_shows {runs : List TextRun} (proper : ∀ run ∈ runs, run.Proper) :
    ∃ s t shown,
      TextState.run {} (runs.foldl Page.draw {}).instructions = some (s, shown) ∧
      List.Forall₂ Shown.Same shown (visible runs) ∧
      TextState.run {} (runs.flatMap TextRun.plainly) = some (t, visible runs) := by
  obtain ⟨s, shown, tracks, _, same⟩ := Tracks.start.foldl_draw rfl proper
  obtain ⟨t, plain, _⟩ := run_plainly runs (s := {}) rfl
  exact ⟨s, t, shown, tracks.run, same, plain⟩

theorem elided_state_shows_repeated :
    let runs : List TextRun :=
      [⟨"one", 72, 700, "F1", 12, .black, 0⟩, ⟨"", 72, 690, "F2", 9, ⟨255, 0, 0⟩, 1⟩,
       ⟨"two", 72, 680, "F1", 12, .black, 0⟩]
    (runs.foldl Page.draw {}).instructions.length = 10 ∧
      ∃ s t shown,
        TextState.run {} (runs.foldl Page.draw {}).instructions = some (s, shown) ∧
        List.Forall₂ Shown.Same shown (visible runs) ∧
        TextState.run {} (runs.flatMap TextRun.plainly) = some (t, visible runs) := by
  intro runs
  refine ⟨by decide +kernel, elided_state_shows ?_⟩
  intro run mem
  simp only [runs, List.mem_cons, List.not_mem_nil, or_false] at mem
  rcases mem with rfl | rfl | rfl
  · exact ⟨by decide, by decide +kernel, by decide +kernel, by decide +kernel, by decide +kernel⟩
  · exact ⟨by decide, by decide +kernel, by decide +kernel, by decide +kernel, by decide +kernel⟩
  · exact ⟨by decide, by decide +kernel, by decide +kernel, by decide +kernel, by decide +kernel⟩

end Folio.Layout
