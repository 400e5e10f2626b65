/-! # Ordered placement

Lists of keys with values that are kept in the order of the keys, one value to a key.
-/

namespace Folio.Ordered

variable {κ α : Type} [LT κ] [DecidableLT κ] [DecidableEq κ]

/-- Puts an entry where its key belongs, in place of an entry of the same key. -/
def place (key : κ) (value : α) : List (κ × α) → List (κ × α)
  | [] => [(key, value)]
  | (k, v) :: rest =>
    if key < k then (key, value) :: (k, v) :: rest
    else if key = k then (key, value) :: rest
    else (k, v) :: place key value rest

/-- Places entries one after the other, so the last entry of a key decides. -/
def ofList (entries : List (κ × α)) : List (κ × α) :=
  entries.foldl (fun sorted entry => place entry.1 entry.2 sorted) []

theorem mem_place {key : κ} {value : α} {p : κ × α} {l : List (κ × α)}
    (h : p ∈ place key value l) : p = (key, value) ∨ p ∈ l := by
  induction l with
  | nil => simpa [place] using h
  | cons head rest ih =>
    obtain ⟨k, v⟩ := head
    unfold place at h
    split at h
    · simpa using h
    · split at h
      · rcases List.mem_cons.1 h with h | h
        · exact .inl h
        · exact .inr (List.mem_cons_of_mem _ h)
      · rcases List.mem_cons.1 h with h | h
        · exact .inr (h ▸ List.mem_cons_self)
        · exact (ih h).imp id (List.mem_cons_of_mem _)

theorem sorted_place (lt_trans : ∀ {a b c : κ}, a < b → b < c → a < c)
    (lt_of_not_lt : ∀ {a b : κ}, ¬ a < b → a ≠ b → b < a)
    {key : κ} {value : α} {l : List (κ × α)} (h : l.Pairwise (·.1 < ·.1)) :
    (place key value l).Pairwise (·.1 < ·.1) := by
  induction l with
  | nil => simp [place]
  | cons head rest ih =>
    obtain ⟨k, v⟩ := head
    obtain ⟨hk, hrest⟩ := List.pairwise_cons.1 h
    unfold place
    split
    · rename_i hlt
      refine List.pairwise_cons.2 ⟨fun p hp => ?_, h⟩
      rcases List.mem_cons.1 hp with rfl | hp
      · exact hlt
      · exact lt_trans hlt (hk p hp)
    · split
      · rename_i heq
        exact List.pairwise_cons.2 ⟨fun p hp => heq ▸ hk p hp, hrest⟩
      · rename_i hlt heq
        refine List.pairwise_cons.2 ⟨fun p hp => ?_, ih hrest⟩
        rcases mem_place hp with rfl | hp
        · exact lt_of_not_lt hlt heq
        · exact hk p hp

section Lookup

variable [BEq κ] [LawfulBEq κ]

omit [LT κ] [DecidableLT κ] in
theorem lookup_cons (key k : κ) (value : α) (rest : List (κ × α)) :
    ((k, value) :: rest).lookup key = if key = k then some value else rest.lookup key := by
  rw [List.lookup_cons]
  by_cases same : key = k
  · rw [if_pos same, beq_iff_eq.2 same]
  · rw [if_neg same, beq_false_of_ne same]

theorem lookup_place (key other : κ) (value : α) (l : List (κ × α)) :
    (place key value l).lookup other = if other = key then some value else l.lookup other := by
  induction l with
  | nil => exact lookup_cons other key value []
  | cons head rest ih =>
    obtain ⟨k, v⟩ := head
    rw [place]
    by_cases below : key < k
    · rw [if_pos below, lookup_cons]
    · by_cases same : key = k
      · subst same
        rw [if_neg below, if_pos rfl, lookup_cons, lookup_cons]
        split <;> rfl
      · rw [if_neg below, if_neg same, lookup_cons, lookup_cons, ih]
        by_cases here : other = k
        · rw [if_pos here, if_pos here, if_neg (here ▸ Ne.symm same)]
        · rw [if_neg here, if_neg here]

end Lookup

end Folio.Ordered
