import Folio.Markup.Document
import Folio.Proofs.Layout.Paragraphs
import Folio.Proofs.Pdf.Navigation
import Folio.Tag.Root

/-! # Information in a file

What a document says about itself stands in a dictionary of its own, to which the trailer refers. A
reader finds the keys of the entries that are present there, and under each of them the bytes of its
value. Only a carriage return does not come through: it is written as it is, and a reader takes it
for the end of a line.
-/

namespace Folio

namespace Info

def keys : List String := ["Author", "Creator", "Keywords", "Producer", "Subject", "Title"]

theorem keys_entries (info : Info) : (info.entries.map Prod.fst).Sublist keys := by
  have kept (all : List (String × Option String)) :
      ((all.filterMap fun entry => entry.2.map fun v => (entry.1, v)).map Prod.fst).Sublist
        (all.map Prod.fst) := by
    induction all with
    | nil => exact .slnil
    | cons entry rest ih =>
      obtain ⟨key, _ | value⟩ := entry
      · exact .cons key ih
      · exact .cons_cons key ih
  exact kept _

end Info

namespace Pdf

open Layout (latin)

theorem lineFeeds_eq_self_iff {s : Bytes} : lineFeeds false s = s ↔ byteOf '\r' ∉ s := by
  induction s with
  | nil => simp [lineFeeds]
  | cons b s ih =>
    rw [lineFeeds]
    by_cases ret : b = byteOf '\r'
    · rw [if_pos ret, ret]
      exact iff_of_false (fun same => absurd (List.cons.inj same).1 (by decide)) (by simp)
    · have same : b :: lineFeeds false s = b :: s ↔ byteOf '\r' ∉ b :: s := by
        rw [List.cons_inj_right, ih, List.mem_cons, not_or]
        exact (and_iff_right (Ne.symm ret)).symm
      rw [if_neg ret, if_neg (by simp)]
      exact same

/-- The value comes through as it is just if it holds no carriage return. -/
theorem lineFeeds_latin_iff {value : String} :
    lineFeeds false (latin value) = latin value ↔ '\r' ∉ value.toList := by
  have counted := Layout.count_latin (d := '\r') (by decide) (by decide) value
  rw [lineFeeds_eq_self_iff, ← List.count_eq_zero, counted, List.count_eq_zero]

def Opened.information? (f : Opened) : Option (List (Bytes × Value)) :=
  match refAt? "Info" f.trailer with
  | none => some []
  | some id => (f.dict? id).map Prod.fst

structure Tells (entries : List (Bytes × Value)) (info : Info) : Prop where
  once : (entries.map Prod.fst).Nodup
  present : ∀ key, (entries.lookup key).isSome ↔ ∃ entry ∈ info.entries, ascii entry.1 = key
  /-- Every end of a line is told as a line feed. -/
  told : ∀ entry ∈ info.entries,
    entries.lookup (ascii entry.1) = some (.string (lineFeeds false (latin entry.2)))
  exact : ∀ entry ∈ info.entries,
    (entries.lookup (ascii entry.1) = some (.string (latin entry.2)) ↔
      '\r' ∉ entry.2.toList)

def written (info : Info) : Dict :=
  info.entries.map fun entry => (ascii entry.1, .literal (latin entry.2))

theorem values_written (info : Info) :
    entryValues (written info) = info.entries.map fun entry =>
      (ascii entry.1, .string (lineFeeds false (latin entry.2))) := by
  rw [entryValues_eq_map, written, List.map_map]
  rfl

theorem written_readable (info : Info) : EntriesReadable (written info) := by
  have plain : ∀ key ∈ Info.keys, PlainName (ascii key) := by decide +kernel
  rw [entriesReadable_iff]
  intro entry mem
  obtain ⟨⟨key, value⟩, listed, rfl⟩ := List.mem_map.1 mem
  exact ⟨plain key (info.keys_entries.subset (List.mem_map_of_mem listed)), trivial⟩

theorem nodup_values (info : Info) : ((entryValues (written info)).map Prod.fst).Nodup := by
  have distinct : (Info.keys.map ascii).Nodup := by decide +kernel
  have keys : (entryValues (written info)).map Prod.fst =
      (info.entries.map Prod.fst).map ascii := by
    rw [values_written, List.map_map, List.map_map]
    rfl
  rw [keys]
  exact distinct.sublist (info.keys_entries.map ascii)

theorem tells_written (info : Info) :
    Tells (Ordered.ofList (entryValues (written info))) info := by
  have told : ∀ entry ∈ info.entries,
      (Ordered.ofList (entryValues (written info))).lookup (ascii entry.1) =
        some (.string (lineFeeds false (latin entry.2))) := by
    intro entry mem
    apply Ordered.lookup_ofList_of_mem (nodup_values info)
    rw [values_written]
    exact List.mem_map_of_mem mem
  refine { once := nodup_ofList _, told := told, present := ?_, exact := ?_ }
  · intro key
    constructor
    · intro found
      obtain ⟨value, found⟩ := Option.isSome_iff_exists.1 found
      have mem := Ordered.mem_ofList (Ordered.mem_of_lookup found)
      rw [values_written] at mem
      obtain ⟨entry, listed, same⟩ := List.mem_map.1 mem
      exact ⟨entry, listed, congrArg Prod.fst same⟩
    · rintro ⟨entry, listed, rfl⟩
      rw [told entry listed]
      rfl
  · intro entry mem
    rw [told entry mem, Option.some.injEq, Value.string.injEq]
    exact lineFeeds_latin_iff

theorem infoDict_eq_none {info : Info} :
    Compositor.infoDict info = none ↔ info.entries = [] := by
  rw [Compositor.infoDict, Info.isEmpty]
  cases info.entries with
  | nil => simp
  | cons => simp

theorem eq_written {info : Info} {dict : Dict} (said : Compositor.infoDict info = some dict) :
    dict = written info := by
  rw [Compositor.infoDict] at said
  split at said
  · cases said
  · exact (Option.some.inj said).symm

theorem information?_opened {d : Document} {info : Info}
    (said : d.info = Compositor.infoDict info) (few : d.objectCount < 2 ^ 32 - 1) :
    d.opened.information? = some (Ordered.ofList (entryValues (written info))) := by
  rw [Opened.information?, Document.info_opened]
  cases given : d.info with
  | none =>
    have nothing : written info = [] := by
      rw [written, infoDict_eq_none.1 (said.symm.trans given)]
      rfl
    rw [nothing]
    rfl
  | some dict =>
    obtain rfl := eq_written (said.symm.trans given)
    obtain ⟨rest, found⟩ :=
      Document.dict?_of_mem few (Document.mem_closed_of_info given) rfl (written_readable info)
    show (d.opened.dict? d.infoId).map Prod.fst = _
    rw [found]
    rfl

end Pdf

namespace Compositor

open Pdf

/-- What a session writes of the information of its document is read back, in the dictionary and
through the trailer of the file: the keys of the entries that are present, and under each the bytes
of its value with every end of a line as a line feed, which are those bytes just if there is no
carriage return among the characters. -/
theorem information_read_back (s : Compositor) (contents : List Bytes) :
    let d := s.document contents
    (d.info = none ↔ s.info.entries = []) ∧
      (∀ dict, d.info = some dict → ∀ rest, ∃ entries,
        Value.read ((Object.dict dict).bytes ++ (ascii "\nendobj\n" ++ rest)) =
          some (.dict entries, ascii "\nendobj\n" ++ rest) ∧ Tells entries s.info) ∧
      (d.objectCount < 2 ^ 32 - 1 → d.bytes.length < 10 ^ 10 → ∃ f entries,
        Opened.read? d.bytes = some f ∧ f.information? = some entries ∧ Tells entries s.info) := by
  intro d
  refine ⟨infoDict_eq_none, ?_, ?_⟩
  · intro dict said rest
    obtain rfl := eq_written said
    refine ⟨_, ?_, tells_written s.info⟩
    exact Object.read_append (o := .dict _) (written_readable s.info) (stops_endobj rest)
  · intro few short
    exact ⟨d.opened, _, Document.read?_bytes few short, information?_opened rfl few,
      tells_written s.info⟩

theorem information_read_back_marked :
    let s : Compositor :=
      { page := ⟨612, 792⟩, margin := 72, cursor := 72, font := .helvetica, fontSize := 12
        info := { title := some ")(\\(\n✓", author := some "é\r\nè\r", creator := some "" } }
    let d := s.document [ascii "BT ET"]
    d.info.isSome ∧ d.objectCount < 2 ^ 32 - 1 ∧ d.bytes.length < 10 ^ 10 ∧
      ∃ f entries, Opened.read? d.bytes = some f ∧ f.information? = some entries ∧
        Tells entries s.info ∧
        entries.lookup (ascii "Title") = some (.string (ascii ")(\\(\n?")) ∧
        entries.lookup (ascii "Author") = some (.string (ascii "é\nè\n")) := by
  intro s d
  have few : d.objectCount < 2 ^ 32 - 1 := by decide
  have short : d.bytes.length < 10 ^ 10 := by
    rw [Document.bytes, File.bytes_eq_text]
    decide +kernel
  obtain ⟨_, _, file⟩ := information_read_back s [ascii "BT ET"]
  obtain ⟨f, entries, opens, found, tells⟩ := file few short
  exact ⟨rfl, few, short, f, entries, opens, found, tells,
    tells.told ("Title", ")(\\(\n✓") (by decide), tells.told ("Author", "é\r\nè\r") (by decide)⟩

/-- A title with a carriage return, which an attribute can have, is read back with a line feed. -/
theorem carriage_return_read_as_feed :
    let info : Info := { title := some "a\rb", producer := some "xmlpdf" }
    ((Markup.parse {} "<document title='a&#13;b'/>").toOption.bind fun parsed =>
        (Options.ofRoot parsed.1).1.toOption).map Options.info = some info ∧
      infoDict info = some (written info) ∧
      ∃ entries, Value.read (Object.dict (written info)).bytes = some (.dict entries, []) ∧
        entries.lookup (ascii "Title") = some (.string (ascii "a\nb")) ∧
        Layout.latin "a\rb" ≠ ascii "a\nb" := by
  intro info
  have read : ((Markup.parse {} "<document title='a&#13;b'/>").toOption.bind fun parsed =>
      (Options.ofRoot parsed.1).1.toOption).map Options.info = some info := by decide +kernel
  exact ⟨read, rfl, _, rfl, rfl, by decide⟩

end Compositor

end Folio
