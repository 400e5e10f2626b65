import Folio.Proofs.Pdf.Numbering
import Folio.Proofs.Pdf.Opening
import Folio.Session.Compositor
import Mathlib.Order.Bounds.Basic

/-! # What a reader finds

The references in the file of a document lead to what the document holds. They go by the numbers
that the objects were given, and the table of places has the place of each of them, so neither the
number of pages nor the bytes drawn on them matter.
-/

namespace Folio.Pdf

theorem bytes_stream (entries : List (Bytes × Object)) (content : Bytes) :
    (Object.stream entries content).bytes =
      (Object.dict (entries ++ [(ascii "Length", .int content.length)])).bytes ++
        (ascii "\nstream\n" ++ (content ++ ascii "\nendstream")) := by
  simp only [Object.bytes, entryBytes_eq_map, List.map_append, List.map_cons, List.map_nil,
    Prod.map_apply, id, List.append_assoc]
  rfl

section Objects

variable {f : Opened} {id : ObjectId} {rest : Bytes}

theorem Opened.dict?_of_body? {entries : List (Bytes × Object)}
    (readable : EntriesReadable entries)
    (body : f.body? id = some ((Object.dict entries).bytes ++ (ascii "\nendobj\n" ++ rest))) :
    f.dict? id = some (Ordered.ofList (entryValues entries), ascii "\nendobj\n" ++ rest) := by
  rw [Opened.dict?, body]
  exact dictOf?_bytes readable (stops_endobj rest)

theorem Opened.stream?_of_body? {content : Bytes}
    (body : f.body? id =
      some ((Object.stream [] content).bytes ++ (ascii "\nendobj\n" ++ rest))) :
    f.stream? id = some content := by
  have key : PlainName (ascii "Length") := by decide +kernel
  have readable : EntriesReadable [(ascii "Length", .int content.length)] :=
    ⟨⟨key, trivial⟩, trivial⟩
  have dict : f.dict? id =
      some (Ordered.ofList (entryValues [(ascii "Length", .int content.length)]),
        ascii "\nstream\n" ++
          (content ++ (ascii "\nendstream" ++ (ascii "\nendobj\n" ++ rest)))) := by
    simp only [Opened.dict?, body, Option.bind_eq_bind, Option.bind_some, bytes_stream,
      List.append_assoc, List.nil_append]
    exact dictOf?_bytes readable (stops_stream _)
  have length : intAt? "Length"
      (Ordered.ofList (entryValues [(ascii "Length", .int content.length)])) =
        some (content.length : Int) := rfl
  simp only [Opened.stream?, dict, Option.bind_eq_bind, Option.bind_some, length, behind?_append,
    Int.toNat_natCast, List.drop_left, List.take_left, Option.pure_def]

end Objects

namespace Document

def leaves : Nat → List Bytes → List Leaf
  | _, [] => []
  | highest, content :: rest =>
    { id := ⟨highest + 2, 0⟩
      parent := File.pagesId
      resources := File.resourcesId
      contentId := ⟨highest + 1, 0⟩
      content := content } :: leaves (highest + 2) rest

theorem map_content_leaves (highest : Nat) (contents : List Bytes) :
    (leaves highest contents).map Leaf.content = contents := by
  induction contents generalizing highest with
  | nil => rfl
  | cons content rest ih => rw [leaves, List.map_cons, ih]

theorem fixed_leaves {highest : Nat} {contents : List Bytes} {leaf : Leaf}
    (mem : leaf ∈ leaves highest contents) :
    leaf.parent = File.pagesId ∧ leaf.resources = File.resourcesId := by
  induction contents generalizing highest with
  | nil => cases mem
  | cons content rest ih =>
    rcases List.mem_cons.1 mem with rfl | mem
    · exact ⟨rfl, rfl⟩
    · exact ih mem

theorem pairwise_leaves (highest : Nat) (contents : List Bytes) :
    (leaves highest contents).Pairwise fun a b => a.id ≠ b.id ∧ a.contentId ≠ b.contentId := by
  have above : ∀ (contents : List Bytes) (highest : Nat), ∀ leaf ∈ leaves highest contents,
      highest < leaf.id.number ∧ highest < leaf.contentId.number := by
    intro contents
    induction contents with
    | nil => simp [leaves]
    | cons content rest ih =>
      intro highest leaf mem
      rcases List.mem_cons.1 mem with rfl | mem
      · exact ⟨by simp, by simp⟩
      · have later := ih (highest + 2) leaf mem
        exact ⟨by omega, by omega⟩
  induction contents generalizing highest with
  | nil => exact .nil
  | cons content rest ih =>
    refine .cons (fun leaf mem => ?_) (ih (highest + 2))
    have later := above rest (highest + 2) leaf mem
    constructor
    · rintro same
      simp [← same] at later
    · rintro same
      simp [← same] at later

section Objects

variable {d : Document} {id : ObjectId}

def opened (d : Document) : Opened := d.gathered.opened version

theorem size_gathered (few : d.objectCount < 2 ^ 32 - 1) :
    d.gathered.closed.size = d.objectCount + 1 := by
  rw [File.size, File.next, closed_gathered]
  exact Nat.mod_eq_of_lt (by show d.objectCount + 1 < 2 ^ 32; omega)

theorem body?_of_mem (few : d.objectCount < 2 ^ 32 - 1) {object : Object}
    (mem : (id, object) ∈ d.gathered.closed.objects) (generation : id.generation = 0) :
    ∃ rest, d.opened.body? id = some (object.bytes ++ (ascii "\nendobj\n" ++ rest)) := by
  have listed := List.mem_map_of_mem (f := fun entry => entry.1.number) mem
  rw [map_number_closed, List.mem_range'_1] at listed
  refine File.body?_of_mem ?_ mem generation listed.1 ?_
  · rw [map_number_closed]
    exact List.nodup_range'
  · rw [size_gathered few, Nat.add_comm]
    exact listed.2

theorem dict?_of_mem (few : d.objectCount < 2 ^ 32 - 1) {entries : List (Bytes × Object)}
    (mem : (id, .dict entries) ∈ d.gathered.closed.objects) (generation : id.generation = 0)
    (readable : EntriesReadable entries) :
    ∃ rest, d.opened.dict? id = some (Ordered.ofList (entryValues entries), rest) := by
  obtain ⟨rest, body⟩ := body?_of_mem few mem generation
  exact ⟨_, Opened.dict?_of_body? readable body⟩

theorem stream?_of_mem (few : d.objectCount < 2 ^ 32 - 1) {content : Bytes}
    (mem : (id, .stream [] content) ∈ d.gathered.closed.objects) (generation : id.generation = 0) :
    d.opened.stream? id = some content := by
  obtain ⟨rest, body⟩ := body?_of_mem few mem generation
  exact Opened.stream?_of_body? body

end Objects

section Pages

variable {d : Document}

theorem pageObject_readable {page : Dimensions} (width : page.width.isFinite = true)
    (height : page.height.isFinite = true) (content : ObjectId) :
    (pageObject page content).Readable := by
  have type : PlainName (ascii "Type") ∧ PlainName (ascii "Page") := by decide +kernel
  have parent : PlainName (ascii "Parent") := by decide +kernel
  have box : PlainName (ascii "MediaBox") := by decide +kernel
  have contents : PlainName (ascii "Contents") := by decide +kernel
  have resources : PlainName (ascii "Resources") := by decide +kernel
  exact ⟨type, ⟨parent, trivial⟩, ⟨box, trivial, trivial, width, height, trivial⟩,
    ⟨contents, trivial⟩, ⟨resources, trivial⟩, trivial⟩

theorem leaf?_of_mem (few : d.objectCount < 2 ^ 32 - 1) (width : d.page.width.isFinite = true)
    (height : d.page.height.isFinite = true) {id contentId : ObjectId} {content : Bytes}
    (mem : (id, pageObject d.page contentId) ∈ d.gathered.closed.objects)
    (drawn : (contentId, .stream [] content) ∈ d.gathered.closed.objects)
    (generation : id.generation = 0) (generation' : contentId.generation = 0) :
    d.opened.leaf? id =
      some ⟨id, File.pagesId, File.resourcesId, contentId, content⟩ := by
  obtain ⟨rest, dict⟩ :=
    dict?_of_mem few mem generation (pageObject_readable width height contentId)
  have stream := stream?_of_mem few drawn generation'
  -- Looking up the three references in the dictionary is a computation.
  have found : d.opened.leaf? id =
      (d.opened.stream? contentId).bind fun content =>
        some ⟨id, File.pagesId, File.resourcesId, contentId, content⟩ := by
    rw [Opened.leaf?, dict]
    rfl
  rw [found, stream]
  rfl

theorem mapM_leaf? (few : d.objectCount < 2 ^ 32 - 1) (width : d.page.width.isFinite = true)
    (height : d.page.height.isFinite = true) (highest : Nat) (contents : List Bytes)
    (mem : ∀ entry ∈ pageObjects d.page highest contents, entry ∈ d.gathered.closed.objects) :
    (pageIds highest contents).mapM d.opened.leaf? = some (leaves highest contents) := by
  induction contents generalizing highest with
  | nil => rfl
  | cons content rest ih =>
    obtain ⟨drawn, mem⟩ := List.forall_mem_cons.1 mem
    obtain ⟨page, others⟩ := List.forall_mem_cons.1 mem
    rw [pageIds, List.mapM_cons, leaf?_of_mem few width height page drawn rfl rfl,
      ih (highest + 2) others]
    rfl

def treeEntries (ids : List ObjectId) : List (Bytes × Object) :=
  [(ascii "Type", .keyword "Pages"), (ascii "Kids", .array (ids.map .ref)),
   (ascii "Count", .int ids.length)]

theorem treeEntries_readable (ids : List ObjectId) : EntriesReadable (treeEntries ids) := by
  have type : PlainName (ascii "Type") ∧ PlainName (ascii "Pages") := by decide +kernel
  have kids : PlainName (ascii "Kids") := by decide +kernel
  have count : PlainName (ascii "Count") := by decide +kernel
  have refs : ItemsReadable (ids.map .ref) := by
    rw [itemsReadable_iff]
    intro item mem
    obtain ⟨id, _, rfl⟩ := List.mem_map.1 mem
    trivial
  exact ⟨type, ⟨kids, refs⟩, ⟨count, trivial⟩, trivial⟩

theorem mapM_refOf? (ids : List ObjectId) :
    (itemValues (ids.map .ref)).mapM refOf? = some ids := by
  induction ids with
  | nil => rfl
  | cons id ids ih =>
    rw [List.map_cons, itemValues, List.mapM_cons, ih]
    rfl

theorem refsAt?_treeEntries (ids : List ObjectId) :
    refsAt? "Kids" (Ordered.ofList (entryValues (treeEntries ids))) = some ids :=
  mapM_refOf? ids

theorem intAt?_treeEntries (ids : List ObjectId) :
    intAt? "Count" (Ordered.ofList (entryValues (treeEntries ids))) = some (ids.length : Int) :=
  rfl

def catalogEntries : List (Bytes × Object) :=
  [(ascii "Type", .keyword "Catalog"), (ascii "Pages", .ref File.pagesId)]

theorem catalogEntries_readable : EntriesReadable catalogEntries := by
  have type : PlainName (ascii "Type") ∧ PlainName (ascii "Catalog") := by decide +kernel
  have pages : PlainName (ascii "Pages") := by decide +kernel
  exact ⟨type, ⟨pages, trivial⟩, trivial⟩

theorem refAt?_catalogEntries :
    refAt? "Pages" (Ordered.ofList (entryValues catalogEntries)) = some File.pagesId := rfl

theorem tour?_opened (few : d.objectCount < 2 ^ 32 - 1) (width : d.page.width.isFinite = true)
    (height : d.page.height.isFinite = true) :
    d.opened.tour? =
      some ⟨File.pagesId, (pageIds 3 d.contents).length, leaves 3 d.contents⟩ := by
  have stored : d.gathered.closed.objects =
      (File.resourcesId, .dict [(ascii "Font", .dict d.fonts)]) ::
        (File.pagesId, .dict (treeEntries (pageIds 3 d.contents))) ::
          (File.catalogId, .dict catalogEntries) :: d.laterObjects := by
    rw [closed_gathered]
    rfl
  have root : refAt? "Root" d.opened.trailer = some File.catalogId := File.root_opened
  have inCatalog : (File.catalogId, .dict catalogEntries) ∈ d.gathered.closed.objects := by
    simp [stored]
  have inTree : (File.pagesId, .dict (treeEntries (pageIds 3 d.contents))) ∈
      d.gathered.closed.objects := by
    simp [stored]
  obtain ⟨_, catalog⟩ := dict?_of_mem few inCatalog rfl catalogEntries_readable
  obtain ⟨_, tree⟩ := dict?_of_mem few inTree rfl (treeEntries_readable (pageIds 3 d.contents))
  have pages := mapM_leaf? few width height 3 d.contents fun entry mem => by
    simp [stored, laterObjects, mem]
  simp only [Opened.tour?, root, catalog, refAt?_catalogEntries, tree, intAt?_treeEntries,
    refsAt?_treeEntries, pages, Option.bind_eq_bind, Option.bind_some, Option.pure_def]

theorem resources_opened (few : d.objectCount < 2 ^ 32 - 1) (readable : EntriesReadable d.fonts) :
    ∃ entries rest, d.opened.dict? File.resourcesId = some (entries, rest) ∧
      entries.lookup (ascii "Font") = some (Object.dict d.fonts).value := by
  have key : PlainName (ascii "Font") := by decide +kernel
  have entries : EntriesReadable [(ascii "Font", .dict d.fonts)] := ⟨⟨key, readable⟩, trivial⟩
  have mem : (File.resourcesId, .dict [(ascii "Font", .dict d.fonts)]) ∈
      d.gathered.closed.objects := by
    rw [closed_gathered]
    exact List.mem_cons_self
  obtain ⟨rest, dict⟩ := dict?_of_mem few mem rfl entries
  exact ⟨_, rest, dict, rfl⟩

end Pages

section Numbers

variable {d : Document}

theorem generation_pageObjects {page : Dimensions} {highest : Nat} {contents : List Bytes}
    {entry : ObjectId × Object} (mem : entry ∈ pageObjects page highest contents) :
    entry.1.generation = 0 := by
  induction contents generalizing highest with
  | nil => cases mem
  | cons content rest ih =>
    rcases List.mem_cons.1 mem with rfl | mem
    · rfl
    · rcases List.mem_cons.1 mem with rfl | mem
      · rfl
      · exact ih mem

theorem generation_closed {entry : ObjectId × Object}
    (mem : entry ∈ d.gathered.closed.objects) : entry.1.generation = 0 := by
  rw [closed_gathered] at mem
  simp only [List.mem_cons, laterObjects, List.mem_append, List.mem_map] at mem
  rcases mem with rfl | rfl | rfl | page | ⟨info, _, rfl⟩
  · rfl
  · rfl
  · rfl
  · exact generation_pageObjects page
  · rfl

theorem isGreatest_objectCount (few : d.objectCount < 2 ^ 32 - 1) :
    IsGreatest {n | ∃ generation, (d.opened.body? ⟨n, generation⟩).isSome} d.objectCount := by
  constructor
  · have counted : d.objectCount ∈ List.range' 1 d.objectCount := by
      rw [List.mem_range'_1, objectCount]
      omega
    rw [← map_number_closed] at counted
    obtain ⟨⟨⟨number, generation⟩, object⟩, mem, rfl⟩ := List.mem_map.1 counted
    obtain ⟨rest, body⟩ := body?_of_mem few mem (generation_closed mem)
    exact ⟨generation, by rw [body]; rfl⟩
  · rintro n ⟨generation, found⟩
    have length : d.opened.slots.length = d.objectCount + 1 := by
      rw [opened, File.opened, List.length_map, size_gathered few, length_rows (Nat.succ_pos _)]
    by_contra above
    have beyond : d.opened.slots[n]? = none := List.getElem?_eq_none (by omega)
    simp [Opened.body?, beyond] at found

end Numbers

end Document

theorem fontObject_readable (font : Font) : (Compositor.fontObject font).Readable := by
  have type : PlainName (ascii "Type") ∧ PlainName (ascii "Font") := by decide +kernel
  have subtype : PlainName (ascii "Subtype") ∧ PlainName (ascii "Type1") := by decide +kernel
  have base : PlainName (ascii "BaseFont") := by decide +kernel
  have encoding : PlainName (ascii "Encoding") ∧ PlainName (ascii "WinAnsiEncoding") := by
    decide +kernel
  have name : PlainName (ascii font.name) := by cases font <;> decide +kernel
  cases latin : font.isLatin with
  | true =>
    simp only [Compositor.fontObject, latin, if_true]
    exact ⟨type, subtype, ⟨base, name⟩, encoding, trivial⟩
  | false =>
    simp only [Compositor.fontObject, latin]
    exact ⟨type, subtype, ⟨base, name⟩, trivial⟩

theorem fontDict_readable (fonts : List Font) : EntriesReadable (Compositor.fontDict fonts) := by
  rw [entriesReadable_iff]
  intro entry mem
  obtain ⟨⟨font, index⟩, _, rfl⟩ := List.mem_map.1 mem
  refine ⟨?_, fontObject_readable font⟩
  intro b mem
  change b ∈ ascii ("F" ++ toString (index + 1)) at mem
  rw [ascii_append] at mem
  rcases List.mem_append.1 mem with letter | digit
  · rw [List.mem_singleton.1 letter]
    decide +kernel
  · exact isPlain_of_isDigit ((numeral_toString (index + 1)).all_digits b digit)

theorem Document.info_opened (d : Document) :
    refAt? "Info" d.opened.trailer = d.info.map fun _ => d.infoId := by
  have found : d.opened.trailer.lookup (ascii "Info") = d.gathered.infoId.map .ref :=
    File.info_opened
  rw [refAt?, found, Document.gathered]
  cases d.info <;> rfl

theorem Document.mem_closed_of_info {d : Document} {info : Dict} (given : d.info = some info) :
    (d.infoId, .dict info) ∈ d.gathered.closed.objects := by
  rw [Document.closed_gathered]
  simp [Document.laterObjects, given]

theorem Document.read?_bytes {d : Document} (few : d.objectCount < 2 ^ 32 - 1)
    (short : d.bytes.length < 10 ^ 10) : Opened.read? d.bytes = some d.opened := by
  have bytes : d.bytes = d.gathered.text Document.version := by
    rw [Document.bytes, Document.file_eq_gathered (by omega), File.bytes_eq_text]
  have sized : 0 < d.gathered.closed.size := by
    rw [Document.size_gathered few]
    exact Nat.succ_pos _
  rw [bytes] at short ⊢
  exact File.read?_text sized short

/-- A reader finds in the file all that the document holds. -/
structure Shows (f : Opened) (tour : Tour) (d : Document) : Prop where
  contents : tour.leaves.map Leaf.content = d.contents
  once : tour.leaves.Pairwise fun a b => a.id ≠ b.id ∧ a.contentId ≠ b.contentId
  count : tour.count = d.contents.length
  parent : ∀ leaf ∈ tour.leaves, leaf.parent = tour.pagesId
  /-- All pages have the same resources, with the fonts of the document. -/
  resources : ∃ id entries rest, (∀ leaf ∈ tour.leaves, leaf.resources = id) ∧
    f.dict? id = some (entries, rest) ∧
      entries.lookup (ascii "Font") = some (Object.dict d.fonts).value
  size : ∃ largest : Nat, intAt? "Size" f.trailer = some (largest + 1 : Int) ∧
    IsGreatest {n | ∃ generation, (f.body? ⟨n, generation⟩).isSome} largest
  info : (refAt? "Info" f.trailer).isSome ↔ d.info.isSome
  /-- What the document says about itself stands behind its head byte for byte. -/
  info_body : ∀ info, d.info = some info → ∃ id rest, refAt? "Info" f.trailer = some id ∧
    f.body? id = some ((Object.dict info).bytes ++ (ascii "\nendobj\n" ++ rest))

/-- Every document can be found again in its file. -/
theorem document_navigable {d : Document} {fonts : List Font}
    (built : d.fonts = Compositor.fontDict fonts) (width : d.page.width.isFinite = true)
    (height : d.page.height.isFinite = true) (few : d.objectCount < 2 ^ 32 - 1)
    (short : d.bytes.length < 10 ^ 10) :
    ∃ f tour, Opened.read? d.bytes = some f ∧ f.tour? = some tour ∧ Shows f tour d := by
  refine ⟨d.opened, _, Document.read?_bytes few short, Document.tour?_opened few width height, ?_⟩
  obtain ⟨entries, rest, resources, font⟩ :=
    Document.resources_opened few (built ▸ fontDict_readable fonts)
  exact
    { contents := Document.map_content_leaves 3 d.contents
      once := Document.pairwise_leaves 3 d.contents
      count := by rw [Document.length_pageIds]
      parent := fun leaf mem => (Document.fixed_leaves mem).1
      resources :=
        ⟨File.resourcesId, entries, rest, fun leaf mem => (Document.fixed_leaves mem).2,
          resources, font⟩
      size := by
        refine ⟨d.objectCount, ?_, Document.isGreatest_objectCount few⟩
        have given : intAt? "Size" d.opened.trailer = some (d.gathered.closed.size : Int) :=
          File.size_opened
        rw [given, Document.size_gathered few]
        rfl
      info := by
        rw [Document.info_opened, Option.isSome_map]
      info_body := by
        intro info given
        obtain ⟨rest, body⟩ :=
          Document.body?_of_mem few (Document.mem_closed_of_info given) rfl
        exact ⟨d.infoId, rest, by rw [Document.info_opened, given]; rfl, body⟩ }

/-- Keywords of the file format in what is drawn mislead nobody. -/
theorem navigable_keywords :
    let d : Document :=
      { contents := [ascii "BT ET", ascii "4 0 obj\nendstream\nendobj\nxref\n0 1"]
        page := ⟨612, 792⟩
        fonts := Compositor.fontDict [.helvetica, .symbol]
        info := some [(ascii "Title", .literal (ascii "A (short) title"))] }
    d.bytes.length < 10 ^ 10 ∧
      ∃ f tour, Opened.read? d.bytes = some f ∧ f.tour? = some tour ∧ Shows f tour d := by
  intro d
  have short : d.bytes.length < 10 ^ 10 := by
    rw [Document.bytes, File.bytes_eq_text]
    decide +kernel
  have fonts : d.fonts = Compositor.fontDict [.helvetica, .symbol] := rfl
  exact ⟨short,
    document_navigable fonts (by decide +kernel) (by decide +kernel) (by decide) short⟩

end Folio.Pdf
