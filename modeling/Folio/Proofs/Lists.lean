import Mathlib.Data.List.Basic
import Mathlib.Data.List.Induction

/-! # Gathered lists

A list is gathered by a key when its members come key by key, in the order in which the keys first
appear, and those of one key keep their order.
-/

namespace Folio

variable {α κ : Type} [DecidableEq κ]

/-- The members of a list key by key. -/
def gather (key : α → κ) (l : List α) : List α :=
  (l.map key).eraseDups.flatMap fun k => l.filter fun a => key a = k

theorem eraseDups_concat (l : List κ) (a : κ) :
    (l ++ [a]).eraseDups = if a ∈ l then l.eraseDups else l.eraseDups ++ [a] := by
  rw [List.eraseDups_append]
  by_cases mem : a ∈ l
  · have none : [a].removeAll l = [] := by simp [List.removeAll, mem]
    rw [if_pos mem, none, List.eraseDups_nil, List.append_nil]
  · have one : [a].removeAll l = [a] := by simp [List.removeAll, mem]
    rw [if_neg mem, one]
    rfl

theorem nodup_eraseDups (l : List κ) : l.eraseDups.Nodup := by
  induction l using List.reverseRecOn with
  | nil => exact .nil
  | append_singleton l a ih =>
    rw [eraseDups_concat]
    split
    · exact ih
    · rename_i fresh
      refine List.nodup_append.2 ⟨ih, by simp, ?_⟩
      rintro b mem _ last rfl
      rw [List.mem_singleton.1 last] at mem
      exact fresh (List.mem_eraseDups.1 mem)

theorem flatMap_eraseDups {β κ' : Type} [DecidableEq κ'] {g : κ → Option κ'}
    (injective : ∀ {j k b}, g j = some b → g k = some b → j = k) {f : κ → List β}
    {h : κ' → List β} (renamed : ∀ k, f k = (g k).elim [] h) (l : List κ) :
    l.eraseDups.flatMap f = (l.filterMap g).eraseDups.flatMap h := by
  induction l using List.reverseRecOn with
  | nil => rfl
  | append_singleton l a ih =>
    rw [eraseDups_concat, List.filterMap_append]
    cases image : g a with
    | none =>
      have nothing : f a = [] := by rw [renamed, image]; rfl
      have same : [a].filterMap g = [] := by simp [image]
      rw [same, List.append_nil]
      split
      · exact ih
      · rw [List.flatMap_append, ih, List.flatMap_singleton, nothing, List.append_nil]
    | some b =>
      have contributes : f a = h b := by rw [renamed, image]; rfl
      have same : [a].filterMap g = [b] := by simp [image]
      have mem_iff : b ∈ l.filterMap g ↔ a ∈ l := by
        rw [List.mem_filterMap]
        constructor
        · rintro ⟨k, mem, other⟩
          rwa [injective image other]
        · intro mem
          exact ⟨a, mem, image⟩
      rw [same, eraseDups_concat]
      simp only [mem_iff]
      split
      · exact ih
      · rw [List.flatMap_append, List.flatMap_append, ih, List.flatMap_singleton,
          List.flatMap_singleton, contributes]

theorem flatMap_ite_of_nodup {keys : List κ} (nodup : keys.Nodup) (k : κ) (l : List α) :
    keys.flatMap (fun j => if j = k then l else []) = if k ∈ keys then l else [] := by
  induction keys with
  | nil => rfl
  | cons j keys ih =>
    obtain ⟨fresh, nodup⟩ := List.nodup_cons.1 nodup
    rw [List.flatMap_cons, ih nodup]
    by_cases same : j = k
    · subst same
      simp [fresh]
    · simp [same, Ne.symm same]

theorem filter_filter_key (key : α → κ) (l : List α) (j k : κ) :
    (l.filter fun a => key a = j).filter (fun a => key a = k) =
      if j = k then l.filter fun a => key a = k else [] := by
  rw [List.filter_filter]
  by_cases same : j = k
  · subst same
    simp
  · rw [if_neg same, List.filter_eq_nil_iff]
    intro a _
    simp only [Bool.and_eq_true, decide_eq_true_eq, not_and]
    rintro rfl other
    exact same other.symm

theorem filter_gather (key : α → κ) (l : List α) (k : κ) :
    (gather key l).filter (fun a => key a = k) = l.filter fun a => key a = k := by
  rw [gather, List.filter_flatMap]
  simp only [filter_filter_key]
  rw [flatMap_ite_of_nodup (nodup_eraseDups _)]
  split
  · rfl
  · rename_i absent
    refine (List.filter_eq_nil_iff.2 ?_).symm
    intro a mem
    rw [decide_eq_true_eq]
    rintro rfl
    exact absent (List.mem_eraseDups.2 (List.mem_map_of_mem mem))

theorem gather_cons (key : α → κ) (a : α) (l : List α) :
    gather key (a :: l) =
      (a :: l).filter (fun b => key b = key a) ++ gather key (l.filter fun b => key b ≠ key a) := by
  have keys : (l.map key).filter (fun k => !k == key a) =
      (l.filter fun b => key b ≠ key a).map key := by
    rw [List.filter_map]
    congr 1
    refine List.filter_congr fun b _ => ?_
    by_cases same : key b = key a <;> simp [same]
  rw [gather, List.map_cons, List.eraseDups_cons, List.flatMap_cons, keys, gather]
  congr 1
  refine List.flatMap_congr fun k mem => ?_
  have other : k ≠ key a := by
    obtain ⟨b, kept, rfl⟩ := List.mem_map.1 (List.mem_eraseDups.1 mem)
    simpa using (List.mem_filter.1 kept).2
  rw [List.filter_filter, List.filter_cons_of_neg (by simpa using other.symm)]
  refine List.filter_congr fun b _ => ?_
  by_cases same : key b = k
  · simp [same, other]
  · simp [same]

theorem gather_perm (key : α → κ) (l : List α) : (gather key l).Perm l := by
  match l with
  | [] => exact .nil
  | a :: l =>
    have others : l.filter (fun b => key b ≠ key a) =
        (a :: l).filter fun b => !decide (key b = key a) := by
      rw [List.filter_cons_of_neg (by simp)]
      refine List.filter_congr fun b _ => ?_
      simp
    have behind := gather_perm key (l.filter fun b => key b ≠ key a)
    rw [gather_cons]
    refine (List.Perm.append_left _ behind).trans ?_
    rw [others]
    exact List.filter_append_perm _ (a :: l)
  termination_by l.length
  decreasing_by
    have le := List.length_filter_le (fun b => decide (key b ≠ key a)) l
    simp only [List.length_cons]
    omega

end Folio
