import Folio.Proofs.Session.Room
import Folio.Proofs.Pdf.RoundTrip
import Folio.Proofs.Session.Lifecycle

/-! # The box of a page

The size of a page is accepted as it is, and written with three places. So a reader finds each
side within half a thousandth, and finds a side that is longer than nothing only where half a
thousandth is exceeded: half a thousandth itself is written as nothing, as the even one of two.
-/

namespace Folio

open Number

namespace Pdf

def Value.decimal? : Value → Option ℚ
  | .int n => some n
  | .real negative digits places => some (signed negative (digits / 10 ^ places))
  | _ => none

def boxAt? (entries : List (Bytes × Value)) : Option (List ℚ) :=
  match entries.lookup (ascii "MediaBox") with
  | some (.array items) => items.mapM Value.decimal?
  | _ => none

structure Side (side : Float32) (written : ℚ) : Prop where
  near : |written - value side| ≤ 1 / 2000
  pos : 0 < written ↔ 1 / 2000 < value side

def Boxed (page : Dimensions) (entries : List (Bytes × Value)) : Prop :=
  ∃ width height, boxAt? entries = some [0, 0, width, height] ∧
    Side page.width width ∧ Side page.height height

theorem cast_quotient (m : Magnitude) :
    (m.quotient.1 : ℚ) / m.quotient.2 = m.mantissa * scale m.exponent := by
  obtain ⟨mantissa, exponent, bottom⟩ := m
  cases exponent with
  | ofNat k =>
    show ((mantissa * 2 ^ k : Nat) : ℚ) / (1 : Nat) = mantissa * scale k
    rw [scale_natCast, Nat.cast_mul, Nat.cast_one, div_one]
  | negSucc k =>
    show (mantissa : ℚ) / (2 ^ (k + 1) : Nat) = mantissa * scale (Int.negSucc k)
    rw [Int.negSucc_eq, ← Nat.cast_succ, scale, zpow_neg, zpow_natCast, Nat.cast_pow,
      Nat.cast_ofNat, div_eq_mul_inv]

theorem nearestEven_of_nearest {num den n : Nat} (pos : 0 < den) (nearest : Nearest num den n) :
    NearestEven (num / den) n := by
  have den_pos : (0 : ℚ) < den := Nat.cast_pos.2 pos
  constructor
  · rw [le_div_iff₀ den_pos]
    have above : (2 * n * den : ℚ) ≤ 2 * num + den := by exact_mod_cast nearest.above
    linarith
  · rw [div_le_iff₀ den_pos]
    have below : (2 * num : ℚ) ≤ (2 * n + 1) * den := by exact_mod_cast nearest.below
    linarith
  · rw [div_eq_iff den_pos.ne', div_eq_iff den_pos.ne']
    rintro (low | high)
    · have same : (2 * n * den : ℚ) = 2 * num + den := by linarith
      exact nearest.tie (.inr (by exact_mod_cast same))
    · have same : (2 * num : ℚ) = (2 * n + 1) * den := by linarith
      exact nearest.tie (.inl (by exact_mod_cast same))

/-- Half a thousandth is as near to nothing as to one thousandth, and one is odd. -/
theorem pos_iff_of_nearest {v : ℚ} {n : Nat} (nearest : NearestEven (1000 * v) n) :
    0 < n ↔ 1 / 2000 < v := by
  have below := nearest.below
  have above := nearest.above
  constructor
  · intro some
    have one_le : (1 : ℚ) ≤ n := by exact_mod_cast some
    by_contra small
    have le_one : (n : ℚ) ≤ 1 := by linarith
    obtain rfl : n = 1 := Nat.le_antisymm (by exact_mod_cast le_one) some
    rw [Nat.cast_one] at below
    have even := nearest.tie (.inl (by rw [Nat.cast_one]; linarith))
    cases even
  · intro more
    have some : (0 : ℚ) < n := by linarith
    exact_mod_cast some

theorem exists_side {x : Float32} (finite : x.isFinite = true) (pos : 0 < x) :
    ∃ q, (realValue x).decimal? = some q ∧ Side x q := by
  obtain ⟨negative, m, decoded⟩ := ofSingle_of_isFinite finite
  have magnitude : value x = signed negative (m.quotient.1 / m.quotient.2) := by
    rw [cast_quotient]
    exact value_eq_of_ofSingle decoded
  have more := (zero_lt_iff.1 pos).2
  have nonneg : (0 : ℚ) ≤ m.quotient.1 / m.quotient.2 :=
    div_nonneg (Nat.cast_nonneg _) (Nat.cast_nonneg _)
  cases negative with
  | true =>
    rw [magnitude] at more
    exact absurd more (not_lt_of_ge (neg_nonpos_of_nonneg nonneg))
  | false =>
    change value x = m.quotient.1 / m.quotient.2 at magnitude
    have nearest := nearestEven_of_nearest m.quotient_pos (nearest_thousandths m)
    rw [Nat.cast_mul, Nat.cast_ofNat, mul_div_assoc, ← magnitude] at nearest
    have below := nearest.below
    have above := nearest.above
    refine ⟨thousandths m / 10 ^ 3, ?_, ?_, ?_⟩
    · rw [realValue, decoded]
      rfl
    · rw [abs_le]
      constructor
      · linarith
      · linarith
    · rw [← pos_iff_of_nearest nearest, div_pos_iff_of_pos_right (by norm_num), Nat.cast_pos]

theorem exists_boxed {page : Dimensions} {margin : Float32}
    (frame : Compositor.Frame page margin) (content : ObjectId) :
    ∃ entries, (Document.pageObject page content).value = .dict entries ∧ Boxed page entries := by
  obtain ⟨width, wide, side⟩ := exists_side frame.width frame.width_pos
  obtain ⟨height, high, side'⟩ := exists_side frame.height frame.height_pos
  refine ⟨_, rfl, width, height, ?_, side, side'⟩
  have found : boxAt? (Ordered.ofList (entryValues
      [(ascii "Type", .keyword "Page"), (ascii "Parent", .ref File.pagesId),
       (ascii "MediaBox", .array [.int 0, .int 0, .real page.width, .real page.height]),
       (ascii "Contents", .ref content), (ascii "Resources", .ref File.resourcesId)])) =
      [Value.int 0, .int 0, realValue page.width, realValue page.height].mapM Value.decimal? := by
    rw [boxAt?, lookup_entryValues]
    rfl
  refine found.trans ?_
  simp only [List.mapM_cons, List.mapM_nil, wide, high]
  rfl

namespace Document

theorem mem_pageObjects_of_leaf (page : Dimensions) {highest : Nat} {contents : List Bytes}
    {leaf : Leaf} (mem : leaf ∈ leaves highest contents) :
    (leaf.id, pageObject page leaf.contentId) ∈ pageObjects page highest contents := by
  induction contents generalizing highest with
  | nil => cases mem
  | cons content rest ih =>
    rw [pageObjects]
    rcases List.mem_cons.1 mem with rfl | mem
    · exact List.mem_cons_of_mem _ List.mem_cons_self
    · exact List.mem_cons_of_mem _ (List.mem_cons_of_mem _ (ih mem))

theorem boxed_of_leaf {d : Document} {margin : Float32} (few : d.objectCount < 2 ^ 32 - 1)
    (frame : Compositor.Frame d.page margin) {leaf : Leaf} (mem : leaf ∈ leaves 3 d.contents) :
    ∃ entries rest, d.opened.dict? leaf.id = some (entries, rest) ∧ Boxed d.page entries := by
  have object := mem_pageObjects_of_leaf d.page mem
  have stored : (leaf.id, pageObject d.page leaf.contentId) ∈ d.gathered.closed.objects := by
    rw [closed_gathered]
    simp [laterObjects, object]
  obtain ⟨rest, found⟩ := dict?_of_mem few stored (generation_pageObjects object)
    (pageObject_readable frame.width frame.height leaf.contentId)
  obtain ⟨entries, same, boxed⟩ := exists_boxed frame leaf.contentId
  cases same
  exact ⟨_, rest, found, boxed⟩

end Document

end Pdf

namespace Compositor

open Pdf

variable {s t : Compositor}

theorem Course.page_eq {what : Drawing} {records : List Record} (course : Course s what t records) :
    t.page = s.page := by
  cases course with
  | textDrawn => rw [kept_drawLines page (fun _ => rfl) (fun _ _ _ => rfl), fontNumber_snd]
  | pageAdded | fontSet | sizeSet | colorSet | nothingDrawn => rfl

theorem page_after (encode : Encoder) (s : Compositor) (requests : List Request) :
    ((backendWith encode).after s requests).page = s.page := by
  apply kept_after encode (P := fun t => t.page = s.page) ?step rfl
  case step =>
    intro request _ t u goes same
    cases goes with
    | drawn course => exact course.page_eq.trans same
    | finalized | abandoned | refused => exact same

/-- Every page of a document has a box from the origin whose sides are within half a thousandth of
the sides that were settled with the root, in the object of the page and where the file leads to it.
A side of the box is longer than nothing exactly if the page is longer than half a thousandth. -/
theorem page_boxes_near_size (encode : Encoder) {root : Markup.Element} {options : Options}
    (accepted : (Options.ofRoot root).1 = .ok options) (created : create options = .ok s)
    (requests : List Request) (contents : List Bytes) :
    let d := ((backendWith encode).after s requests).document contents
    (∀ content rest, ∃ entries,
      Value.read ((Document.pageObject d.page content).bytes ++ (ascii "\nendobj\n" ++ rest)) =
        some (.dict entries, ascii "\nendobj\n" ++ rest) ∧ Boxed options.page entries) ∧
    (d.objectCount < 2 ^ 32 - 1 → d.bytes.length < 10 ^ 10 → ∃ f tour,
      Opened.read? d.bytes = some f ∧ f.tour? = some tour ∧
        tour.leaves.length = contents.length ∧
        ∀ leaf ∈ tour.leaves, ∃ entries rest,
          f.dict? leaf.id = some (entries, rest) ∧ Boxed options.page entries) := by
  intro d
  have frame := frame_of_root accepted
  have page : d.page = options.page := by
    show ((backendWith encode).after s requests).page = options.page
    obtain ⟨font, _, _, _, rfl⟩ := of_create created
    exact page_after encode _ requests
  rw [← page] at frame ⊢
  constructor
  · intro content rest
    obtain ⟨entries, same, boxed⟩ := exists_boxed frame content
    refine ⟨entries, ?_, boxed⟩
    rw [← same]
    exact Object.read_append (Document.pageObject_readable frame.width frame.height content)
      (stops_endobj rest)
  · intro few short
    refine ⟨d.opened, _, Document.read?_bytes few short,
      Document.tour?_opened few frame.width frame.height, ?_, ?_⟩
    · have counted := congrArg List.length (Document.map_content_leaves 3 d.contents)
      rw [List.length_map] at counted
      exact counted
    · exact fun leaf mem => Document.boxed_of_leaf few frame mem

def bareRoot (size : String) : Markup.Element :=
  .mk "document" "" (.ofList [("size", size), ("margin", "0")]) []

def bareSession (width height : Float32) : Compositor :=
  { page := ⟨width, height⟩, margin := 0, info := ({} : Options).info, cursor := 0,
    font := .helvetica, fontSize := 12 }

theorem page_boxes_near_slender_size :
    let options : Options := { size := .custom ⟨0.0006, 3e38⟩, margin := 0 }
    let s := bareSession 0.0006 3e38
    let requests : List Request := [.draw .addPage, .draw .addPage]
    let d := (backend.after s requests).document [ascii "BT ET", []]
    (Options.ofRoot (bareRoot "0.0006x3e38")).1 = .ok options ∧ create options = .ok s ∧
      d.objectCount < 2 ^ 32 - 1 ∧ d.bytes.length < 10 ^ 10 ∧ ∃ f tour,
        Opened.read? d.bytes = some f ∧ f.tour? = some tour ∧ tour.leaves.length = 2 ∧
          ∀ leaf ∈ tour.leaves, ∃ entries rest,
            f.dict? leaf.id = some (entries, rest) ∧ Boxed options.page entries := by
  intro options s requests d
  have accepted : (Options.ofRoot (bareRoot "0.0006x3e38")).1 = .ok options := by decide +kernel
  have created : create options = .ok s := by decide +kernel
  have few : d.objectCount < 2 ^ 32 - 1 := by decide
  have short : d.bytes.length < 10 ^ 10 := by
    rw [Document.bytes, File.bytes_eq_text]
    decide +kernel
  have boxes := page_boxes_near_size (fun instructions => .ok (Layout.encode instructions)) accepted
    created requests [ascii "BT ET", []]
  exact ⟨accepted, created, few, short, boxes.2 few short⟩

/-- A page as wide as 0.0004 is accepted, and its box has a height but no width. -/
theorem thin_page_without_width :
    let options : Options := { size := .custom ⟨0.0004, 100⟩, margin := 0 }
    let s := bareSession 0.0004 100
    let d := (backend.after s [.draw .addPage]).document [[]]
    (Options.ofRoot (bareRoot "0.0004x100")).1 = .ok options ∧ create options = .ok s ∧
      ((Value.read (Document.pageObject d.page ⟨4, 0⟩).bytes).bind fun found =>
        match found.1 with
        | .dict entries => boxAt? entries
        | _ => none) = some [0, 0, 0, 100] := by
  decide +kernel

end Compositor

end Folio
