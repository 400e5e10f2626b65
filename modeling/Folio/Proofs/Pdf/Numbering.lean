import Folio.Pdf.File
import Folio.Proofs.Ordered

/-! # Numbering

The objects of a document are numbered without gaps in the order in which they stand in the file:
the resources, the list of pages, the catalog, then what is drawn on each page followed by the
page itself, and last what the document says about itself.
-/

namespace Folio.Pdf

theorem ObjectId.lt_irrefl (id : ObjectId) : ¬ id < id := by
  rintro (number | ⟨_, generation⟩)
  · exact Nat.lt_irrefl _ number
  · exact Nat.lt_irrefl _ generation

theorem ObjectId.lt_asymm {a b : ObjectId} : a < b → ¬ b < a := by
  rintro (h | ⟨h, i⟩) (j | ⟨j, k⟩) <;> omega

theorem ObjectId.lt_trans {a b c : ObjectId} : a < b → b < c → a < c := by
  rintro (h | ⟨h, i⟩) (j | ⟨j, k⟩)
  · exact .inl (Nat.lt_trans h j)
  · exact .inl (j ▸ h)
  · exact .inl (h ▸ j)
  · exact .inr ⟨h.trans j, Nat.lt_trans i k⟩

theorem ObjectId.lt_of_not_lt {a b : ObjectId} (not_lt : ¬ a < b) (ne : a ≠ b) : b < a := by
  obtain ⟨m, i⟩ := a
  obtain ⟨n, j⟩ := b
  rcases Nat.lt_trichotomy m n with below | same | above
  · exact absurd (.inl below) not_lt
  · refine .inr ⟨same.symm, ?_⟩
    rcases Nat.lt_trichotomy i j with below | equal | above
    · exact absurd (.inr ⟨same, below⟩) not_lt
    · exact absurd (by rw [same, equal]) ne
    · exact above
  · exact .inl above

theorem ObjectId.lt_of_number {a b : ObjectId} (h : a.number < b.number) : a < b := .inl h

theorem ObjectId.place_cons {first id : ObjectId} (below : first.number < id.number)
    (o object : Object) (rest : List (ObjectId × Object)) :
    Ordered.place id object ((first, o) :: rest) = (first, o) :: Ordered.place id object rest :=
  Ordered.place_cons_of_lt lt_irrefl lt_asymm (lt_of_number below) o object rest

namespace File

def Bounded (f : File) : Prop := ∀ entry ∈ f.objects, entry.1.number ≤ f.highest

/-- An object that is added stands behind all others, under the next number. -/
theorem add_eq {f : File} (bounded : f.Bounded) (room : f.highest + 1 < 2 ^ 32)
    (object : Object) :
    f.add object = (⟨f.highest + 1, 0⟩,
      { f with
        highest := f.highest + 1
        objects := f.objects ++ [(⟨f.highest + 1, 0⟩, object)] }) := by
  have next : f.next = f.highest + 1 := Nat.mod_eq_of_lt room
  have above : ∀ entry ∈ f.objects, entry.1 < (⟨f.highest + 1, 0⟩ : ObjectId) := by
    intro entry mem
    exact ObjectId.lt_of_number (Nat.lt_succ_of_le (bounded entry mem))
  have placed := Ordered.place_of_above ObjectId.lt_irrefl ObjectId.lt_asymm object above
  simp only [add, newId, next, placed]

theorem Bounded.snoc {f : File} (bounded : f.Bounded) (object : Object) :
    Bounded
      { f with
        highest := f.highest + 1
        objects := f.objects ++ [(⟨f.highest + 1, 0⟩, object)] } := by
  intro entry mem
  rcases List.mem_append.1 mem with old | new
  · exact Nat.le_succ_of_le (bounded entry old)
  · obtain rfl := List.mem_singleton.1 new
    exact Nat.le_refl _

end File

namespace Document

def pageObjects (page : Dimensions) : Nat → List Bytes → List (ObjectId × Object)
  | _, [] => []
  | highest, content :: rest =>
    (⟨highest + 1, 0⟩, .stream [] content) ::
      (⟨highest + 2, 0⟩, pageObject page ⟨highest + 1, 0⟩) :: pageObjects page (highest + 2) rest

def pageIds : Nat → List Bytes → List ObjectId
  | _, [] => []
  | highest, _ :: rest => ⟨highest + 2, 0⟩ :: pageIds (highest + 2) rest

theorem length_pageIds (highest : Nat) (contents : List Bytes) :
    (pageIds highest contents).length = contents.length := by
  induction contents generalizing highest with
  | nil => rfl
  | cons content rest ih => rw [pageIds, List.length_cons, ih, List.length_cons]

theorem foldl_addPage (page : Dimensions) (contents : List Bytes) {f : File}
    (bounded : f.Bounded) (room : f.highest + 2 * contents.length < 2 ^ 32) :
    contents.foldl (addPage page) f =
        { f with
          highest := f.highest + 2 * contents.length
          objects := f.objects ++ pageObjects page f.highest contents
          pageIds := f.pageIds ++ pageIds f.highest contents } ∧
      (contents.foldl (addPage page) f).Bounded := by
  induction contents generalizing f with
  | nil => simpa [pageObjects, pageIds] using bounded
  | cons content rest ih =>
    rw [List.length_cons] at room
    have first := File.add_eq bounded (by omega) (.stream [] content)
    have second := File.add_eq (bounded.snoc (.stream [] content))
      (by show f.highest + 1 + 1 < 2 ^ 32; omega) (pageObject page ⟨f.highest + 1, 0⟩)
    have step : addPage page f content =
        { f with
          highest := f.highest + 2
          objects := f.objects ++ [(⟨f.highest + 1, 0⟩, .stream [] content)] ++
            [(⟨f.highest + 2, 0⟩, pageObject page ⟨f.highest + 1, 0⟩)]
          pageIds := f.pageIds ++ [⟨f.highest + 2, 0⟩] } := by
      simp only [addPage, File.addContent, first, second]
    have more := (bounded.snoc (.stream [] content)).snoc (pageObject page ⟨f.highest + 1, 0⟩)
    obtain ⟨whole, known⟩ := ih (f := addPage page f content) (by rw [step]; exact more)
      (by rw [step]; show f.highest + 2 + 2 * rest.length < 2 ^ 32; omega)
    refine ⟨?_, known⟩
    have highest : f.highest + 2 * (rest.length + 1) = f.highest + 2 + 2 * rest.length := by
      omega
    rw [List.foldl_cons, whole, step, pageObjects, pageIds, List.length_cons, highest]
    simp only [List.append_assoc, List.cons_append, List.nil_append]

def infoId (d : Document) : ObjectId := ⟨3 + 2 * d.contents.length + 1, 0⟩

/-- The file before the list of pages and the catalog are put into it. -/
def gathered (d : Document) : File where
  objects :=
    (File.resourcesId, .dict [(ascii "Font", .dict d.fonts)]) ::
      pageObjects d.page 3 d.contents ++
        d.info.toList.map fun info => (d.infoId, .dict info)
  highest := 3 + 2 * d.contents.length + d.info.toList.length
  pageIds := pageIds 3 d.contents
  infoId := d.info.map fun _ => d.infoId

def objectCount (d : Document) : Nat := 3 + 2 * d.contents.length + d.info.toList.length

theorem file_eq_gathered {d : Document} (few : d.objectCount < 2 ^ 32) :
    d.file = d.gathered := by
  have bounded : (File.ofFonts d.fonts).Bounded := by
    intro entry mem
    obtain rfl := List.mem_singleton.1 mem
    show 1 ≤ 3
    decide
  rw [objectCount] at few
  obtain ⟨pages, known⟩ := foldl_addPage d.page d.contents bounded
    (by show 3 + 2 * d.contents.length < 2 ^ 32; omega)
  rw [pages] at known
  rw [file, gathered, pages]
  cases given : d.info with
  | none => simp [File.ofFonts]
  | some info =>
    rw [given, Option.toList_some, List.length_singleton] at few
    have last := File.add_eq known (by show 3 + 2 * d.contents.length + 1 < 2 ^ 32; omega)
      (.dict info)
    simp only [File.setInfo]
    rw [last]
    simp [File.ofFonts, infoId]

theorem map_number_pageObjects (page : Dimensions) (highest : Nat) (contents : List Bytes) :
    (pageObjects page highest contents).map (fun entry => entry.1.number) =
      List.range' (highest + 1) (2 * contents.length) := by
  induction contents generalizing highest with
  | nil => rfl
  | cons content rest ih =>
    rw [pageObjects, List.map_cons, List.map_cons, ih, List.length_cons, Nat.mul_add]
    rfl

def laterObjects (d : Document) : List (ObjectId × Object) :=
  pageObjects d.page 3 d.contents ++ d.info.toList.map fun info => (d.infoId, .dict info)

theorem map_number_laterObjects (d : Document) :
    d.laterObjects.map (fun entry => entry.1.number) = List.range' 4 (d.objectCount - 3) := by
  have info : (d.info.toList.map fun info => (d.infoId, Object.dict info)).map
      (fun entry => entry.1.number) =
        List.range' (4 + 2 * d.contents.length) d.info.toList.length := by
    cases d.info with
    | none => rfl
    | some info => simp [infoId]; omega
  rw [laterObjects, List.map_append, map_number_pageObjects, info, List.range'_append_1,
    objectCount]
  congr 1
  omega

theorem number_laterObjects {d : Document} {entry : ObjectId × Object}
    (mem : entry ∈ d.laterObjects) : 4 ≤ entry.1.number := by
  have listed := List.mem_map_of_mem (f := fun entry => entry.1.number) mem
  rw [map_number_laterObjects, List.mem_range'_1] at listed
  exact listed.1

theorem closed_gathered (d : Document) :
    d.gathered.closed =
      { d.gathered with
        objects :=
          (File.resourcesId, .dict [(ascii "Font", .dict d.fonts)]) ::
            (File.pagesId, d.gathered.pageTree) :: (File.catalogId, File.catalog) ::
              d.laterObjects } := by
  have above (id : ObjectId) (small : id.number < 4) :
      ∀ entry ∈ d.laterObjects, id < entry.1 := fun entry mem =>
    ObjectId.lt_of_number (Nat.lt_of_lt_of_le small (number_laterObjects mem))
  have tree := Ordered.place_of_below d.gathered.pageTree (above File.pagesId (by decide))
  have catalog := Ordered.place_of_below File.catalog (above File.catalogId (by decide))
  have three : 3 ≤ d.gathered.highest := by
    show 3 ≤ 3 + 2 * d.contents.length + d.info.toList.length
    omega
  have highest : max (max d.gathered.highest 2) 3 = d.gathered.highest := by omega
  have objects : d.gathered.objects =
      (File.resourcesId, .dict [(ascii "Font", .dict d.fonts)]) :: d.laterObjects := rfl
  have placed : Ordered.place File.catalogId File.catalog
      (Ordered.place File.pagesId d.gathered.pageTree d.gathered.objects) =
        (File.resourcesId, .dict [(ascii "Font", .dict d.fonts)]) ::
          (File.pagesId, d.gathered.pageTree) :: (File.catalogId, File.catalog) ::
            d.laterObjects := by
    rw [objects, ObjectId.place_cons (by decide), tree, ObjectId.place_cons (by decide),
      ObjectId.place_cons (by decide), catalog]
  have closed : d.gathered.closed =
      { d.gathered with
        highest := max (max d.gathered.highest 2) 3
        objects := Ordered.place File.catalogId File.catalog
          (Ordered.place File.pagesId d.gathered.pageTree d.gathered.objects) } := rfl
  rw [closed, placed, highest]

theorem map_number_closed (d : Document) :
    d.gathered.closed.objects.map (fun entry => entry.1.number) =
      List.range' 1 d.objectCount := by
  have count : d.objectCount = (d.objectCount - 3) + 1 + 1 + 1 := by
    rw [objectCount]
    omega
  rw [closed_gathered, List.map_cons, List.map_cons, List.map_cons, map_number_laterObjects, count]
  rfl

end Document

end Folio.Pdf
