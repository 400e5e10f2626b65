import Folio.Proofs.Number.Comparison
import Folio.Proofs.Session.Carried
import Mathlib.Data.List.GetD

/-! # Pages and margins

The lines of a text go down a page from the cursor. A line that is past the top margin and would
cross the bottom margin begins a page and stands at the top of it, however tall it is. So every
line has a place, no line begins two pages, and what is new on a page are the lines whose places
are there.
-/

namespace Folio.Compositor

open Layout (Line TextRun Page)

structure Spot where
  /-- The number of the page, counted from one. -/
  page : Nat
  /-- How far the top of the line is below the top of the page. -/
  top : Float32
  /-- The page was begun for this line. -/
  fresh : Bool

structure Column where
  margin : Float32
  bottom : Float32
  height : Float32

namespace Column

/-- A line with its top here is not past the top margin, or it does not cross the bottom margin. -/
def Clears (column : Column) (top : Float32) : Prop :=
  ¬ top > column.margin ∨ ¬ top + column.height > column.bottom

/-- Lines one after the other, from the last page and the cursor before them to those behind them.
A line that clears the margins at the cursor stands there, and any other one at the top of a page
that is begun for it. -/
inductive Runs (column : Column) : Nat → Float32 → List Spot → Nat → Float32 → Prop
  | done (page : Nat) (cursor : Float32) : Runs column page cursor [] page cursor
  | here {page last : Nat} {cursor after : Float32} {spots : List Spot}
      (clears : column.Clears cursor)
      (rest : Runs column page (cursor + column.height) spots last after) :
      Runs column page cursor (⟨page, cursor, false⟩ :: spots) last after
  | turned {page last : Nat} {cursor after : Float32} {spots : List Spot}
      (crosses : ¬ column.Clears cursor)
      (rest : Runs column (page + 1) (column.margin + column.height) spots last after) :
      Runs column page cursor (⟨page + 1, column.margin, true⟩ :: spots) last after

variable {column : Column} {page last : Nat} {cursor after : Float32} {spots : List Spot}

theorem clears_margin (column : Column) : column.Clears column.margin :=
  .inl (Number.lt_irrefl column.margin)

theorem Runs.clears (runs : column.Runs page cursor spots last after) :
    ∀ spot ∈ spots, column.Clears spot.top := by
  induction runs with
  | done => exact List.forall_mem_nil _
  | here clears _ ih => exact List.forall_mem_cons.2 ⟨clears, ih⟩
  | turned _ _ ih => exact List.forall_mem_cons.2 ⟨column.clears_margin, ih⟩

theorem Runs.last_eq (runs : column.Runs page cursor spots last after) :
    last = page + spots.countP Spot.fresh := by
  induction runs with
  | done => rfl
  | here _ _ ih => rw [ih, List.countP_cons_of_neg Bool.false_ne_true]
  | turned _ _ ih =>
    rw [ih, List.countP_cons_of_pos rfl]
    omega

end Column

def column (s : Compositor) (style : Style) : Column where
  margin := s.margin
  bottom := s.page.height - s.margin
  height := style.lineHeight

def pageAt (s : Compositor) (earlier : Nat) : Page := s.pages.reverse.getD earlier {}

def runAt (s : Compositor) (style : Style) (line : Line) (spot : Spot) : TextRun :=
  ({ s with cursor := spot.top } : Compositor).run style line

def runsOn (s : Compositor) (style : Style) (page : Nat) (placed : List (Line × Spot)) :
    List TextRun :=
  (placed.filter fun one => one.2.page = page).map fun one => s.runAt style one.1 one.2

structure Laid (s t : Compositor) (style : Style) (lines : List Line) (spots : List Spot) :
    Prop where
  length : spots.length = lines.length
  runs : (s.column style).Runs s.pageCount s.cursor spots t.pageCount t.cursor
  pages : ∀ n, t.pageAt n =
    (s.runsOn style (n + 1) (lines.zip spots)).foldl Page.draw (s.pageAt n)

variable {s t : Compositor}

theorem overflows_iff (s : Compositor) (style : Style) :
    s.overflows style.lineHeight = true ↔ ¬ (s.column style).Clears s.cursor := by
  simp [overflows, Column.Clears, column]

theorem getD_concat {α : Type} (l : List α) (x d : α) (n : Nat) :
    (l ++ [x]).getD n d = if n = l.length then x else l.getD n d := by
  rcases Nat.lt_trichotomy n l.length with inside | rfl | outside
  · rw [List.getD_append _ _ _ _ inside, if_neg (Nat.ne_of_lt inside)]
  · rw [List.getD_append_right _ _ _ _ (Nat.le_refl _), if_pos rfl, Nat.sub_self]
    rfl
  · rw [if_neg (Nat.ne_of_gt outside), List.getD_eq_default _ _ (Nat.le_of_lt outside),
      List.getD_eq_default]
    rw [List.length_append, List.length_singleton]
    omega

theorem pageAt_startPage (s : Compositor) (n : Nat) : s.startPage.pageAt n = s.pageAt n := by
  rw [pageAt, pageAt, startPage, List.reverse_cons, getD_concat]
  split
  · rename_i last
    rw [List.getD_eq_default _ _ (Nat.le_of_eq last.symm)]
  · rfl

theorem pageAt_placeLine (some : s.pages ≠ []) (style : Style) (line : Line) (n : Nat) :
    (s.placeLine style line).pageAt n =
      if n + 1 = s.pageCount then (s.pageAt n).draw (s.run style line) else s.pageAt n := by
  obtain ⟨page, earlier, pages⟩ := List.exists_cons_of_ne_nil some
  have placed : (s.placeLine style line).pages = page.draw (s.run style line) :: earlier := by
    simp only [placeLine, pages]
  have last : n + 1 = s.pageCount ↔ n = earlier.reverse.length := by
    rw [pageCount, pages, List.length_cons, List.length_reverse]
    omega
  rw [pageAt, pageAt, placed, pages, List.reverse_cons, List.reverse_cons, getD_concat,
    getD_concat]
  by_cases here : n = earlier.reverse.length
  · rw [if_pos here, if_pos here, if_pos (last.2 here)]
  · rw [if_neg here, if_neg here, if_neg (mt last.1 here)]

theorem pageCount_placeLine (s : Compositor) (style : Style) (line : Line) :
    (s.placeLine style line).pageCount = s.pageCount := by
  cases pages : s.pages with
  | nil => simp only [pageCount, placeLine, pages]
  | cons page earlier => simp only [pageCount, placeLine, pages, List.length_cons]

theorem foldl_runsOn_cons (s : Compositor) (style : Style) (n : Nat) (line : Line) (spot : Spot)
    (placed : List (Line × Spot)) (page : Page) :
    (s.runsOn style n ((line, spot) :: placed)).foldl Page.draw page =
      (s.runsOn style n placed).foldl Page.draw
        (if n = spot.page then page.draw (s.runAt style line spot) else page) := by
  by_cases here : n = spot.page
  · rw [if_pos here, runsOn, List.filter_cons_of_pos (by simpa using here.symm)]
    rfl
  · rw [if_neg here, runsOn, List.filter_cons_of_neg (by simpa using Ne.symm here)]
    rfl

theorem Laid.here {style : Style} {line : Line} {lines : List Line} {spots : List Spot}
    (some : s.pages ≠ []) (clears : (s.column style).Clears s.cursor)
    (laid : (s.placeLine style line).Laid t style lines spots) :
    s.Laid t style (line :: lines) (⟨s.pageCount, s.cursor, false⟩ :: spots) where
  length := congrArg Nat.succ laid.length
  runs := by
    have runs := laid.runs
    rw [pageCount_placeLine] at runs
    exact .here clears runs
  pages := by
    intro n
    rw [List.zip_cons_cons, foldl_runsOn_cons, laid.pages, pageAt_placeLine some]
    rfl

theorem Laid.turned {style : Style} {line : Line} {lines : List Line} {spots : List Spot}
    (crosses : ¬ (s.column style).Clears s.cursor)
    (laid : (s.startPage.placeLine style line).Laid t style lines spots) :
    s.Laid t style (line :: lines) (⟨s.pageCount + 1, s.margin, true⟩ :: spots) where
  length := congrArg Nat.succ laid.length
  runs := by
    have runs := laid.runs
    rw [pageCount_placeLine] at runs
    exact .turned crosses runs
  pages := by
    intro n
    have fresh : s.startPage.pages ≠ [] := List.cons_ne_nil _ _
    rw [List.zip_cons_cons, foldl_runsOn_cons, laid.pages, pageAt_placeLine fresh,
      pageAt_startPage]
    rfl

theorem exists_laid (some : s.pages ≠ []) (style : Style) (lines : List Line) :
    ∃ spots, s.Laid (s.drawLines style lines).1 style lines spots := by
  induction lines generalizing s with
  | nil => exact ⟨[], rfl, .done _ _, fun _ => rfl⟩
  | cons line rest ih =>
    rw [drawLines]
    split
    · rename_i full
      have fresh : s.startPage.pages ≠ [] := List.cons_ne_nil _ _
      obtain ⟨spots, laid⟩ := ih (pages_placeLine_ne_nil fresh style line)
      exact ⟨_, .turned ((overflows_iff s style).1 full) laid⟩
    · rename_i clears
      obtain ⟨spots, laid⟩ := ih (pages_placeLine_ne_nil some style line)
      exact ⟨_, .here some (not_not.1 (mt (overflows_iff s style).2 clears)) laid⟩

/-- A text is drawn line by line, blank lines included: each at the cursor, or at the top of a page
begun for it where it would cross the bottom margin and is past the top margin. Nothing else begins
a page, and nothing else is drawn. -/
theorem lines_keep_to_margins (encode : Encoder) {text : String} {options : TextOptions}
    (accepted : ((backendWith encode).answer s (.draw (.drawText text options))).1 = .ok ()) :
    let t := ((backendWith encode).answer s (.draw (.drawText text options))).2
    let width := options.width.getD s.contentWidth
    let style := s.style (options.align.getD .left) width
    ∃ spots, s.Laid t style (s.linesOf text width) spots ∧
      (∀ spot ∈ spots, (s.column style).Clears spot.top) ∧
      t.pageCount = s.pageCount + spots.countP Spot.fresh := by
  intro t width style
  suffices found : ∃ spots, s.Laid t style (s.linesOf text width) spots by
    obtain ⟨spots, laid⟩ := found
    exact ⟨spots, laid, laid.runs.clears, laid.runs.last_eq⟩
  rcases answer_draw encode s (.drawText text options) with ⟨records, u, run, answer⟩ | ⟨e, answer⟩
  · have after : t = u := congrArg Prod.snd answer
    rw [after]
    cases (course_of_drawn run).2 with
    | nothingDrawn => exact ⟨[], rfl, .done _ _, fun _ => rfl⟩
    | @textDrawn _ _ align wide some settled =>
      obtain rfl := settled.align_eq
      obtain rfl := settled.width_eq
      have page : (s.fontNumber s.font).2.pages ≠ [] := by
        rw [pages_fontNumber]
        exact settled.page
      obtain ⟨spots, laid⟩ := exists_laid page style (s.linesOf text width)
      refine ⟨spots, laid.length, ?_, ?_⟩
      · have runs := laid.runs
        rw [fontNumber_snd] at runs ⊢
        exact runs
      · have pages := laid.pages
        rw [fontNumber_snd] at pages ⊢
        exact pages
  · rw [answer] at accepted
    cases accepted

theorem lines_keep_to_margins_tall :
    let options : Options := { size := .custom ⟨100, 60⟩, margin := 10 }
    let start : Compositor :=
      { page := ⟨100, 60⟩, margin := 10, info := options.info, cursor := 10, font := .helvetica,
        fontSize := 12 }
    let s := backend.after start
      [.draw .addPage, .draw (.drawText "one\n \nthree" {}), .draw (.setFontSize 50)]
    let request : Request := .draw (.drawText "four\n\nsix" {})
    let t := (backend.answer s request).2
    let style := s.style .left s.contentWidth
    create options = .ok start ∧ s.pageCount = 2 ∧ (s.column style).bottom = 50 ∧
      (backend.answer s request).1 = .ok () ∧ t.pageCount = 5 ∧
      ∃ spots, s.Laid t style (s.linesOf "four\n\nsix" s.contentWidth) spots ∧
        (∀ spot ∈ spots, (s.column style).Clears spot.top) ∧
        t.pageCount = s.pageCount + spots.countP Spot.fresh := by
  intro options start s request t style
  have accepted : (backend.answer s request).1 = .ok () := by decide +kernel
  exact ⟨by decide +kernel, by decide +kernel, by decide +kernel, accepted, by decide +kernel,
    lines_keep_to_margins _ accepted⟩

end Folio.Compositor
