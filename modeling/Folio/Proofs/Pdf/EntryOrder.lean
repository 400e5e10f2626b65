import Folio.Proofs.Pdf.Emission
import Folio.Proofs.Pdf.Journal
import Folio.Proofs.Pdf.ReadBack
import Mathlib.Data.List.Forall2

/-! # The order of entries

A dictionary is what is found under its keys. Two objects that differ only in the order in which
the entries of their dictionaries were made, at any depth, have the same bytes, and two files that
are asked for the same with such objects come out the same.
-/

namespace Folio.Pdf

/-- Two objects are alike when dictionaries are compared by what is found under each key. A number
is compared with its sign, so the two zeros are different. -/
inductive Object.Alike : Object → Object → Prop
  | refl (o : Object) : Alike o o
  | array {items items' : List Object} (same : List.Forall₂ Alike items items') :
      Alike (.array items) (.array items')
  | dict {entries entries' : Dict}
      (same : ∀ key,
        Option.Rel Alike (entries.reverse.lookup key) (entries'.reverse.lookup key)) :
      Alike (.dict entries) (.dict entries')
  | stream {entries entries' : Dict}
      (same : ∀ key,
        Option.Rel Alike (entries.reverse.lookup key) (entries'.reverse.lookup key))
      (content : Bytes) :
      Alike (.stream entries content) (.stream entries' content)

def PairAlike {κ : Type} (a b : κ × Object) : Prop := a.1 = b.1 ∧ a.2.Alike b.2

section Reordered

variable {entries middle entries' : Dict}

theorem keys_of_pairAlike (same : List.Forall₂ PairAlike entries middle) :
    entries.map Prod.fst = middle.map Prod.fst := by
  induction same with
  | nil => rfl
  | cons first _ ih => rw [List.map_cons, List.map_cons, first.1, ih]

theorem lookup_of_pairAlike (same : List.Forall₂ PairAlike entries middle) (key : Bytes) :
    Option.Rel Object.Alike (entries.lookup key) (middle.lookup key) := by
  induction same with
  | nil => exact .none
  | @cons a b _ _ first _ ih =>
    rw [Ordered.lookup_cons, Ordered.lookup_cons, first.1]
    by_cases here : key = b.1
    · rw [if_pos here, if_pos here]
      exact .some first.2
    · rw [if_neg here, if_neg here]
      exact ih

theorem lookup_of_reordered (same : List.Forall₂ PairAlike entries middle)
    (distinct : (entries.map Prod.fst).Nodup) (perm : middle.Perm entries') (key : Bytes) :
    Option.Rel Object.Alike (entries.reverse.lookup key)
      (entries'.reverse.lookup key) := by
  have last {l : Dict} (distinct : (l.map Prod.fst).Nodup) :
      l.reverse.lookup key = l.lookup key :=
    (Ordered.lookup_perm distinct l.reverse_perm.symm key).symm
  have distinct_middle : (middle.map Prod.fst).Nodup := keys_of_pairAlike same ▸ distinct
  have distinct' : (entries'.map Prod.fst).Nodup := (perm.map Prod.fst).nodup_iff.1 distinct_middle
  rw [last distinct, last distinct', ← Ordered.lookup_perm distinct_middle perm]
  exact lookup_of_pairAlike same key

theorem alike_reordered (same : List.Forall₂ PairAlike entries middle)
    (distinct : (entries.map Prod.fst).Nodup) (perm : middle.Perm entries') :
    (Object.dict entries).Alike (.dict entries') :=
  .dict (lookup_of_reordered same distinct perm)

end Reordered

/-- What is written between the marks of a dictionary is settled by the last entry of each key. -/
theorem enclosed_congr {l m : List (Bytes × Bytes)}
    (same : ∀ key, l.reverse.lookup key = m.reverse.lookup key) :
    enclosed l = enclosed m := by
  have trans {a b c : Bytes} (first : a < b) (second : b < c) : a < c := List.lt_trans first second
  have total {a b : Bytes} (not_lt : ¬ a < b) (ne : a ≠ b) : b < a :=
    Std.lt_of_le_of_ne (List.not_lt.1 not_lt) ne.symm
  rw [enclosed, enclosed, Ordered.ofList_congr List.lt_irrefl (fun below => List.lt_asymm below)
    trans total same]

def Object.Orderless (o : Object) : Prop := ∀ o', o.Alike o' → o'.bytes = o.bytes

theorem itemBytes_of_orderless {items items' : List Object}
    (orderless : ∀ item ∈ items, item.Orderless)
    (same : List.Forall₂ Object.Alike items items') : itemBytes items' = itemBytes items := by
  induction same with
  | nil => rfl
  | cons first others ih =>
    obtain ⟨head, rest⟩ := List.forall_mem_cons.1 orderless
    have tail := ih rest
    cases others with
    | nil => exact head _ first
    | cons second others =>
      show _ ++ ascii " " ++ _ = _ ++ ascii " " ++ _
      rw [head _ first, tail]

theorem lookup_entryBytes {entries entries' : Dict}
    (orderless : ∀ entry ∈ entries, entry.2.Orderless)
    (same : ∀ key,
      Option.Rel Object.Alike (entries.reverse.lookup key)
        (entries'.reverse.lookup key)) (key : Bytes) :
    (entryBytes entries').reverse.lookup key =
      (entryBytes entries).reverse.lookup key := by
  rw [entryBytes_eq_map, entryBytes_eq_map, ← List.map_reverse, ← List.map_reverse,
    Ordered.lookup_map, Ordered.lookup_map]
  have alike := same key
  cases found : entries.reverse.lookup key with
  | none =>
    rw [found] at alike
    cases found' : entries'.reverse.lookup key with
    | none => rfl
    | some o' =>
      rw [found'] at alike
      cases alike
  | some o =>
    rw [found] at alike
    cases found' : entries'.reverse.lookup key with
    | none =>
      rw [found'] at alike
      cases alike
    | some o' =>
      rw [found'] at alike
      cases alike with
      | some alike =>
        have mem : (key, o) ∈ entries := List.mem_reverse.1 (Ordered.mem_of_lookup found)
        exact congrArg some (orderless _ mem _ alike)

theorem orderless_array {items : List Object} (orderless : ∀ item ∈ items, item.Orderless) :
    (Object.array items).Orderless := by
  intro o' alike
  cases alike with
  | refl => rfl
  | array same => rw [Object.bytes, Object.bytes, itemBytes_of_orderless orderless same]

theorem orderless_dict {entries : Dict} (orderless : ∀ entry ∈ entries, entry.2.Orderless) :
    (Object.dict entries).Orderless := by
  intro o' alike
  cases alike with
  | refl => rfl
  | dict same =>
    rw [Object.bytes, Object.bytes]
    exact enclosed_congr (lookup_entryBytes orderless same)

/-- The length of its content is the last entry of a stream, whatever the order before it. -/
theorem orderless_stream {entries : Dict} (orderless : ∀ entry ∈ entries, entry.2.Orderless)
    (content : Bytes) : (Object.stream entries content).Orderless := by
  intro o' alike
  cases alike with
  | refl => rfl
  | @stream _ entries' same =>
    have enclosed_eq : enclosed
        (entryBytes entries' ++ [(ascii "Length", ascii (toString content.length))]) =
        enclosed (entryBytes entries ++ [(ascii "Length", ascii (toString content.length))]) := by
      apply enclosed_congr
      intro key
      rw [List.reverse_append, List.reverse_append, List.lookup_append, List.lookup_append,
        lookup_entryBytes orderless same]
    rw [Object.bytes, Object.bytes, enclosed_eq]

mutual

theorem Object.orderless : ∀ o : Object, o.Orderless
  | .array items => orderless_array (items_orderless items)
  | .dict entries => orderless_dict (entries_orderless entries)
  | .stream entries content => orderless_stream (entries_orderless entries) content
  | .null | .bool _ | .int _ | .real _ | .name _ | .literal _ | .hex _ | .ref _ => by
    intro _ alike
    cases alike
    rfl

theorem items_orderless : ∀ items : List Object, ∀ item ∈ items, item.Orderless
  | [] => by simp
  | item :: rest => List.forall_mem_cons.2 ⟨item.orderless, items_orderless rest⟩

theorem entries_orderless : ∀ entries : Dict, ∀ entry ∈ entries, entry.2.Orderless
  | [] => by simp
  | (_, value) :: rest => List.forall_mem_cons.2 ⟨value.orderless, entries_orderless rest⟩

end

theorem Object.Alike.bytes_eq {o o' : Object} (alike : o.Alike o') : o.bytes = o'.bytes :=
  (o.orderless _ alike).symm

inductive File.Request.Alike : File.Request → File.Request → Prop
  | newId : Alike .newId .newId
  | add {o o' : Object} (same : o.Alike o') : Alike (.add o) (.add o')
  | addContent (content : Bytes) : Alike (.addContent content) (.addContent content)
  | put (number : Nat) {o o' : Object} (same : o.Alike o') : Alike (.put number o) (.put number o')
  | setPageIds (ids : List ObjectId) : Alike (.setPageIds ids) (.setPageIds ids)
  | setInfo {info info' : Dict} (same : (Object.dict info).Alike (.dict info')) :
      Alike (.setInfo info) (.setInfo info')

namespace File

structure Alike (f g : File) : Prop where
  objects : List.Forall₂ PairAlike f.objects g.objects
  highest : f.highest = g.highest
  pageIds : f.pageIds = g.pageIds
  infoId : f.infoId = g.infoId

theorem place_alike {id : ObjectId} {o o' : Object} (same : o.Alike o')
    {l m : List (ObjectId × Object)} (objects : List.Forall₂ PairAlike l m) :
    List.Forall₂ PairAlike (Ordered.place id o l) (Ordered.place id o' m) := by
  induction objects with
  | nil => exact .cons ⟨rfl, same⟩ .nil
  | @cons a b l m first others ih =>
    obtain ⟨k, v⟩ := a
    obtain ⟨k', v'⟩ := b
    obtain ⟨rfl, value⟩ : k = k' ∧ v.Alike v' := first
    rw [Ordered.place, Ordered.place]
    by_cases below : id < k
    · rw [if_pos below, if_pos below]
      exact .cons ⟨rfl, same⟩ (.cons ⟨rfl, value⟩ others)
    · rw [if_neg below, if_neg below]
      by_cases here : id = k
      · rw [if_pos here, if_pos here]
        exact .cons ⟨rfl, same⟩ others
      · rw [if_neg here, if_neg here]
        exact .cons ⟨rfl, value⟩ ih

variable {f g : File}

theorem Alike.next_eq (alike : f.Alike g) : f.next = g.next := by rw [next, next, alike.highest]

theorem Alike.put (alike : f.Alike g) (id : ObjectId) {o o' : Object} (same : o.Alike o') :
    (f.put id o).Alike (g.put id o') where
  objects := place_alike same alike.objects
  highest := congrArg (max · id.number) alike.highest
  pageIds := alike.pageIds
  infoId := alike.infoId

theorem Alike.add (alike : f.Alike g) {o o' : Object} (same : o.Alike o') :
    (f.add o).1 = (g.add o').1 ∧ (f.add o).2.Alike (g.add o').2 := by
  have next := alike.next_eq
  refine ⟨congrArg (ObjectId.mk · 0) next, ?_, next, alike.pageIds, alike.infoId⟩
  show List.Forall₂ PairAlike (Ordered.place ⟨f.next, 0⟩ o f.objects)
    (Ordered.place ⟨g.next, 0⟩ o' g.objects)
  rw [next]
  exact place_alike same alike.objects

theorem Alike.perform (alike : f.Alike g) {request request' : Request}
    (same : request.Alike request') : (request.perform f).Alike (request'.perform g) := by
  cases same with
  | newId => exact ⟨alike.objects, alike.next_eq, alike.pageIds, alike.infoId⟩
  | add same => exact (alike.add same).2
  | addContent content => exact (alike.add (.refl _)).2
  | put number same => exact alike.put ⟨number, 0⟩ same
  | setPageIds ids => exact ⟨alike.objects, alike.highest, rfl, alike.infoId⟩
  | setInfo same =>
    obtain ⟨id, added⟩ := alike.add same
    exact ⟨added.objects, added.highest, added.pageIds, congrArg some id⟩

theorem Alike.closed (alike : f.Alike g) : f.closed.Alike g.closed := by
  have tree : f.pageTree = g.pageTree := by rw [pageTree, pageTree, alike.pageIds]
  exact (alike.put pagesId (tree ▸ .refl _)).put catalogId (.refl _)

theorem writeObjects_alike {l m : List (ObjectId × Object)}
    (objects : List.Forall₂ PairAlike l m) (places : List (Nat × Nat)) :
    writeObjects places l = writeObjects places m := by
  induction objects generalizing places with
  | nil => rfl
  | @cons a b l m first others ih =>
    obtain ⟨k, v⟩ := a
    obtain ⟨k', v'⟩ := b
    obtain ⟨rfl, value⟩ : k = k' ∧ v.Alike v' := first
    have head : writeObject k v = writeObject k v' := by
      rw [writeObject, writeObject, value.bytes_eq]
    rw [writeObjects, writeObjects, head]
    simp only [ih]

theorem Alike.write_eq (alike : f.Alike g) (version : String) :
    f.write version = g.write version := by
  have closed := alike.closed
  have trailer : f.closed.trailer = g.closed.trailer := by
    rw [File.trailer, File.trailer, size, size, closed.next_eq, closed.infoId]
  rw [write, write, writeBody, writeBody]
  simp only [writeObjects_alike closed.objects, size, closed.next_eq, trailer]

theorem alike_after {fonts fonts' : Dict} (same : (Object.dict fonts).Alike (.dict fonts'))
    {requests requests' : List Request} (alike : List.Forall₂ Request.Alike requests requests') :
    (Journal.after fonts requests).file.Alike (Journal.after fonts' requests').file := by
  have start : (Journal.start fonts).file.Alike (Journal.start fonts').file := by
    have entry : PairAlike (ascii "Font", Object.dict fonts) (ascii "Font", .dict fonts') :=
      ⟨rfl, same⟩
    exact ⟨.cons ⟨rfl, alike_reordered (.cons entry .nil) (by simp) (.refl _)⟩ .nil, rfl, rfl, rfl⟩
  have run (j k : Journal) (start : j.file.Alike k.file) :
      (requests.foldl Journal.perform j).file.Alike (requests'.foldl Journal.perform k).file := by
    induction alike generalizing j k with
    | nil => exact start
    | cons first _ ih => exact ih _ _ (start.perform first)
  exact run _ _ start

/-- Objects that differ in the order of entries only have the same bytes, and files that were asked
for the same with such objects are the same, byte by byte and on every target. -/
theorem written_regardless_of_entry_order :
    (∀ {o o' : Object}, o.Alike o' → o.bytes = o'.bytes) ∧
    ∀ {fonts fonts' : Dict} {requests requests' : List Request},
      (Object.dict fonts).Alike (.dict fonts') → List.Forall₂ Request.Alike requests requests' →
      ∀ version,
        (Journal.after fonts requests).file.bytes version =
          (Journal.after fonts' requests').file.bytes version ∧
        ∀ target,
          ((Journal.after fonts requests).file.write version).runOn target =
            ((Journal.after fonts' requests').file.write version).runOn target := by
  refine ⟨fun alike => alike.bytes_eq, ?_⟩
  intro fonts fonts' requests requests' same alike version
  have written := (alike_after same alike).write_eq version
  constructor
  · rw [bytes, bytes, pieces, pieces, written]
  · intro target
    rw [written]

def parameters : Dict :=
  [(ascii "K", .int (-1)), (ascii "Box", .real 0.5), (ascii "Columns", .keyword "None")]

def nested (order : Dict → Dict) : Object :=
  .stream
    (order [(ascii "Parms", .array [.null, .dict (order parameters)]), (ascii "Length", .int 3),
      (ascii "Filter", .null)])
    (ascii "text")

theorem parameters_reversed :
    (Object.dict parameters).Alike (.dict parameters.reverse) := by
  have itself : List.Forall₂ PairAlike parameters parameters :=
    List.forall₂_same.2 fun entry _ => ⟨rfl, .refl entry.2⟩
  exact alike_reordered itself (by decide +kernel) parameters.reverse_perm.symm

theorem nested_reversed : (nested id).Alike (nested .reverse) := by
  have items : (Object.array [.null, .dict parameters]).Alike
      (.array [.null, .dict parameters.reverse]) :=
    .array (.cons (.refl _) (.cons parameters_reversed .nil))
  have entries : List.Forall₂ PairAlike
      [(ascii "Parms", .array [.null, .dict parameters]), (ascii "Length", .int 3),
        (ascii "Filter", .null)]
      [(ascii "Parms", .array [.null, .dict parameters.reverse]), (ascii "Length", .int 3),
        (ascii "Filter", .null)] :=
    .cons ⟨rfl, items⟩ (.cons ⟨rfl, .refl _⟩ (.cons ⟨rfl, .refl _⟩ .nil))
  have distinct : [ascii "Parms", ascii "Length", ascii "Filter"].Nodup := by decide +kernel
  exact .stream (lookup_of_reordered entries distinct (List.reverse_perm _).symm) _

theorem nested_written_regardless :
    (nested id).Alike (nested .reverse) ∧ (nested id).bytes = (nested .reverse).bytes ∧
    ∀ target,
      ((Journal.after parameters
        [.add (nested id), .newId, .setInfo parameters, .put 9 (nested id)]).file.write
          "1.5").runOn target =
      ((Journal.after parameters.reverse
        [.add (nested .reverse), .newId, .setInfo parameters.reverse,
          .put 9 (nested id)]).file.write "1.5").runOn target := by
  refine ⟨nested_reversed, written_regardless_of_entry_order.1 nested_reversed, ?_⟩
  apply And.right
  refine written_regardless_of_entry_order.2 parameters_reversed ?_ "1.5"
  exact .cons (.add nested_reversed) (.cons .newId (.cons (.setInfo parameters_reversed)
    (.cons (.put 9 (.refl _)) .nil)))

end File

end Folio.Pdf
