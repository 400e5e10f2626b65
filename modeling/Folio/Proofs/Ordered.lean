import Folio.Ordered
import Mathlib.Data.List.Induction

/-! # Placed entries

Placing looks at keys only, so it does not matter whether values are changed before or after it.
An entry of a key above all others goes to the end.
-/

namespace Folio.Ordered

variable {κ α β : Type} [LT κ] [DecidableLT κ] [DecidableEq κ]

theorem map_place (f : α → β) (key : κ) (value : α) (l : List (κ × α)) :
    (place key value l).map (Prod.map id f) = place key (f value) (l.map (Prod.map id f)) := by
  induction l with
  | nil => rfl
  | cons head rest ih =>
    obtain ⟨k, v⟩ := head
    simp only [place, List.map_cons, Prod.map_apply, id]
    split
    · rfl
    · split
      · rfl
      · rw [List.map_cons, ih, Prod.map_apply, id]

theorem map_ofList (f : α → β) (entries : List (κ × α)) :
    (ofList entries).map (Prod.map id f) = ofList (entries.map (Prod.map id f)) := by
  rw [ofList, ofList, List.foldl_map]
  refine (List.foldl_hom (List.map (Prod.map id f)) ?_).symm
  intro sorted entry
  exact (map_place f entry.1 entry.2 sorted).symm

theorem mem_ofList {entries : List (κ × α)} {p : κ × α} (h : p ∈ ofList entries) :
    p ∈ entries := by
  have placed : ∀ (entries sorted : List (κ × α)),
      p ∈ entries.foldl (fun sorted entry => place entry.1 entry.2 sorted) sorted →
        p ∈ sorted ∨ p ∈ entries := by
    intro entries
    induction entries with
    | nil => exact fun sorted h => .inl h
    | cons entry rest ih =>
      intro sorted h
      rcases ih _ h with old | new
      · rcases mem_place old with rfl | old
        · exact .inr List.mem_cons_self
        · exact .inl old
      · exact .inr (List.mem_cons_of_mem _ new)
  simpa using placed entries [] h

theorem place_cons_of_lt (irrefl : ∀ k : κ, ¬ k < k) (asymm : ∀ {a b : κ}, a < b → ¬ b < a)
    {k key : κ} (below : k < key) (v value : α) (rest : List (κ × α)) :
    place key value ((k, v) :: rest) = (k, v) :: place key value rest := by
  have other : key ≠ k := by
    rintro rfl
    exact irrefl _ below
  rw [place, if_neg (asymm below), if_neg other]

theorem place_of_above (irrefl : ∀ k : κ, ¬ k < k) (asymm : ∀ {a b : κ}, a < b → ¬ b < a)
    {key : κ} (value : α) {l : List (κ × α)} (above : ∀ p ∈ l, p.1 < key) :
    place key value l = l ++ [(key, value)] := by
  induction l with
  | nil => rfl
  | cons head rest ih =>
    obtain ⟨below, others⟩ := List.forall_mem_cons.1 above
    rw [place_cons_of_lt irrefl asymm below, ih others, List.cons_append]

theorem place_of_below {key : κ} (value : α) {l : List (κ × α)} (below : ∀ p ∈ l, key < p.1) :
    place key value l = (key, value) :: l := by
  cases l with
  | nil => rfl
  | cons head rest => exact if_pos (below head List.mem_cons_self)

theorem ofList_of_sorted (irrefl : ∀ k : κ, ¬ k < k) (asymm : ∀ {a b : κ}, a < b → ¬ b < a)
    {l : List (κ × α)} (sorted : l.Pairwise (·.1 < ·.1)) : ofList l = l := by
  induction l using List.reverseRecOn with
  | nil => rfl
  | append_singleton l last ih =>
    obtain ⟨front, _, below⟩ := List.pairwise_append.1 sorted
    have above : ∀ p ∈ l, p.1 < last.1 := fun p mem => below p mem last List.mem_cons_self
    have placed : ofList (l ++ [last]) = place last.1 last.2 (ofList l) := List.foldl_append
    rw [placed, ih front, place_of_above irrefl asymm last.2 above]

theorem sorted_ofList (lt_trans : ∀ {a b c : κ}, a < b → b < c → a < c)
    (lt_of_not_lt : ∀ {a b : κ}, ¬ a < b → a ≠ b → b < a) (entries : List (κ × α)) :
    (ofList entries).Pairwise (·.1 < ·.1) := by
  have placed : ∀ sorted : List (κ × α), sorted.Pairwise (·.1 < ·.1) →
      (entries.foldl (fun sorted entry => place entry.1 entry.2 sorted) sorted).Pairwise
        (·.1 < ·.1) := by
    induction entries with
    | nil => exact fun sorted ordered => ordered
    | cons entry rest ih =>
      intro sorted ordered
      exact ih _ (sorted_place lt_trans lt_of_not_lt ordered)
  exact placed [] .nil

section Lookup

variable [BEq κ] [LawfulBEq κ]

omit [DecidableLT κ] in
theorem mem_iff_lookup (irrefl : ∀ k : κ, ¬ k < k) {l : List (κ × α)}
    (sorted : l.Pairwise (·.1 < ·.1)) {key : κ} {value : α} :
    (key, value) ∈ l ↔ l.lookup key = some value := by
  induction l with
  | nil => simp
  | cons head rest ih =>
    obtain ⟨k, v⟩ := head
    obtain ⟨above, sorted⟩ := List.pairwise_cons.1 sorted
    rw [lookup_cons, List.mem_cons, ih sorted]
    by_cases same : key = k
    · have absent : rest.lookup key ≠ some value := by
        intro found
        exact irrefl key (same ▸ above (key, value) ((ih sorted).2 found))
      simp [same ▸ absent, same, eq_comm]
    · simp [same]

omit [LT κ] [DecidableLT κ] [DecidableEq κ] in
theorem mem_of_lookup {key : κ} {value : α} {l : List (κ × α)}
    (found : l.lookup key = some value) : (key, value) ∈ l := by
  obtain ⟨front, behind, rfl, _⟩ := List.lookup_eq_some_iff.1 found
  exact List.mem_append_right front List.mem_cons_self

omit [DecidableLT κ] [DecidableEq κ] in
theorem lookup_of_below (irrefl : ∀ k : κ, ¬ k < k) {key : κ} {l : List (κ × α)}
    (below : ∀ p ∈ l, key < p.1) : l.lookup key = none := by
  apply List.lookup_eq_none_iff.2
  intro p mem
  apply bne_iff_ne.2
  rintro rfl
  exact irrefl _ (below p mem)

omit [LT κ] [DecidableLT κ] in
theorem lookup_of_mem {key : κ} {value : α} {l : List (κ × α)}
    (distinct : (l.map Prod.fst).Nodup) (mem : (key, value) ∈ l) : l.lookup key = some value := by
  induction l with
  | nil => cases mem
  | cons head rest ih =>
    obtain ⟨absent, distinct⟩ := List.nodup_cons.1 distinct
    rw [lookup_cons]
    rcases List.mem_cons.1 mem with rfl | mem
    · exact if_pos rfl
    · have other : key ≠ head.1 := by
        rintro rfl
        exact absent (List.mem_map.2 ⟨_, mem, rfl⟩)
      rw [if_neg other]
      exact ih distinct mem

omit [LT κ] [DecidableLT κ] in
theorem lookup_map (f : α → β) (key : κ) (l : List (κ × α)) :
    (l.map (Prod.map id f)).lookup key = (l.lookup key).map f := by
  induction l with
  | nil => rfl
  | cons head rest ih =>
    obtain ⟨k, v⟩ := head
    rw [List.map_cons, Prod.map_apply, id, lookup_cons, lookup_cons, ih]
    split <;> rfl

omit [LT κ] [DecidableLT κ] in
theorem lookup_perm {l m : List (κ × α)} (distinct : (l.map Prod.fst).Nodup) (perm : l.Perm m)
    (key : κ) : l.lookup key = m.lookup key := by
  have distinct' : (m.map Prod.fst).Nodup := (perm.map Prod.fst).nodup_iff.1 distinct
  apply Option.ext
  intro value
  constructor
  · intro found
    exact lookup_of_mem distinct' (perm.subset (mem_of_lookup found))
  · intro found
    exact lookup_of_mem distinct (perm.symm.subset (mem_of_lookup found))

/-- The last of the placed entries of a key is found under it. -/
theorem lookup_ofList (key : κ) (entries : List (κ × α)) :
    (ofList entries).lookup key = entries.reverse.lookup key := by
  have placed : ∀ sorted,
      (entries.foldl (fun sorted entry => place entry.1 entry.2 sorted) sorted).lookup key =
        (entries.reverse.lookup key).or (sorted.lookup key) := by
    induction entries with
    | nil => exact fun sorted => rfl
    | cons entry rest ih =>
      intro sorted
      rw [List.foldl_cons, ih, lookup_place, List.reverse_cons, List.lookup_append,
        Option.or_assoc, lookup_cons]
      split <;> rfl
  rw [ofList, placed []]
  exact Option.or_none

theorem lookup_ofList_of_mem {entries : List (κ × α)}
    (distinct : (entries.map Prod.fst).Nodup) {key : κ} {value : α}
    (mem : (key, value) ∈ entries) : (ofList entries).lookup key = some value := by
  rw [lookup_ofList, ← lookup_perm distinct entries.reverse_perm.symm]
  exact lookup_of_mem distinct mem

/-- What is placed depends on nothing but the last entry of each key. -/
theorem ofList_congr (irrefl : ∀ k : κ, ¬ k < k) (asymm : ∀ {a b : κ}, a < b → ¬ b < a)
    (lt_trans : ∀ {a b c : κ}, a < b → b < c → a < c)
    (lt_of_not_lt : ∀ {a b : κ}, ¬ a < b → a ≠ b → b < a) {l m : List (κ × α)}
    (same : ∀ key, l.reverse.lookup key = m.reverse.lookup key) : ofList l = ofList m := by
  have sorted (entries : List (κ × α)) : (ofList entries).Pairwise (·.1 < ·.1) :=
    sorted_ofList lt_trans lt_of_not_lt entries
  have nodup (entries : List (κ × α)) : (ofList entries).Nodup := by
    apply (sorted entries).imp
    rintro a b below rfl
    exact irrefl _ below
  have perm : (ofList l).Perm (ofList m) := by
    apply (List.perm_ext_iff_of_nodup (nodup l) (nodup m)).2
    rintro ⟨key, value⟩
    rw [mem_iff_lookup irrefl (sorted l), mem_iff_lookup irrefl (sorted m), lookup_ofList,
      lookup_ofList, same]
  apply perm.eq_of_pairwise _ (sorted l) (sorted m)
  intro a b _ _ below above
  exact absurd above (asymm below)

end Lookup

end Folio.Ordered
