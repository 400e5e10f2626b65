import Folio.Markup.Element
import Folio.Proofs.Lists

/-! # Gathering

Elements pushed into the first field of their name end up gathered by name.
-/

namespace Folio.Markup

namespace Children

variable {c : Children} {e : Element}

theorem map_name_pushFirst (e : Element) (c : Children) :
    (pushFirst e c).map Field.name =
      if e.name ∈ c.map Field.name then c.map Field.name else c.map Field.name ++ [e.name] := by
  induction c with
  | nil => rfl
  | cons f rest ih =>
    by_cases same : f.name = e.name
    · simp [pushFirst, same]
    · have other : e.name ≠ f.name := Ne.symm same
      simp only [pushFirst, if_neg same, List.map_cons, ih, List.mem_cons, other, false_or]
      split
      · rfl
      · rfl

theorem elementsNamed_cons (f : Field) (rest : Children) (n : String) :
    elementsNamed (f :: rest) n =
      (if f.name = n then f.elements else []) ++ rest.elementsNamed n := by
  by_cases here : f.name = n
  · simp [elementsNamed, here]
  · simp [elementsNamed, here]

theorem elementsNamed_of_not_mem {n : String} (absent : n ∉ c.map Field.name) :
    c.elementsNamed n = [] := by
  induction c with
  | nil => rfl
  | cons f rest ih =>
    rw [List.map_cons, List.mem_cons, not_or] at absent
    rw [elementsNamed_cons, if_neg (Ne.symm absent.1), ih absent.2, List.append_nil]

theorem elementsNamed_pushFirst (nodup : (c.map Field.name).Nodup) (e : Element) (n : String) :
    (pushFirst e c).elementsNamed n =
      c.elementsNamed n ++ if e.name = n then [e] else [] := by
  induction c with
  | nil =>
    have one : (Field.ofElement e).name = e.name := rfl
    rw [pushFirst, elementsNamed_cons, one]
    exact List.append_nil _
  | cons f rest ih =>
    obtain ⟨fresh, nodup⟩ := List.nodup_cons.1 nodup
    by_cases same : f.name = e.name
    · rw [pushFirst, if_pos same, elementsNamed_cons, elementsNamed_cons, Field.name_append,
        Field.elements_append, same]
      by_cases here : e.name = n
      · subst here
        rw [elementsNamed_of_not_mem (same ▸ fresh)]
        simp
      · simp [here]
    · rw [pushFirst, if_neg same, elementsNamed_cons, elementsNamed_cons, ih nodup,
        List.append_assoc]

theorem elementsNamed_of_mem (nodup : (c.map Field.name).Nodup) {f : Field} (mem : f ∈ c) :
    c.elementsNamed f.name = f.elements := by
  induction c with
  | nil => cases mem
  | cons g rest ih =>
    obtain ⟨fresh, nodup⟩ := List.nodup_cons.1 nodup
    rw [elementsNamed_cons]
    rcases List.mem_cons.1 mem with rfl | mem
    · rw [if_pos rfl, elementsNamed_of_not_mem fresh, List.append_nil]
    · have other : g.name ≠ f.name := by
        intro same
        exact fresh (by rw [same]; exact List.mem_map_of_mem mem)
      rw [if_neg other, ih nodup mem]
      rfl

/-- Fields that hold some elements gathered by name. -/
structure Gathers (c : Children) (es : List Element) : Prop where
  names : c.map Field.name = (es.map Element.name).eraseDups
  members : ∀ n, c.elementsNamed n = es.filter fun e => e.name = n

theorem Gathers.pushFirst {es : List Element} (h : Gathers c es) (e : Element) :
    Gathers (Children.pushFirst e c) (es ++ [e]) where
  names := by
    rw [map_name_pushFirst, h.names, List.map_append, List.map_singleton, eraseDups_concat]
    simp only [List.mem_eraseDups]
  members := by
    intro n
    have nodup : (c.map Field.name).Nodup := h.names ▸ nodup_eraseDups _
    rw [elementsNamed_pushFirst nodup, h.members, List.filter_append]
    by_cases same : e.name = n <;> simp [same]

theorem gathers_foldl (es : List Element) :
    Gathers (es.foldl (fun c e => c.push e .grouped) []) es := by
  induction es using List.reverseRecOn with
  | nil => exact ⟨rfl, fun _ => rfl⟩
  | append_singleton es e ih =>
    rw [List.foldl_append]
    exact ih.pushFirst e

theorem Gathers.elements {es : List Element} (h : Gathers c es) :
    c.elements = gather Element.name es := by
  have nodup : (c.map Field.name).Nodup := h.names ▸ nodup_eraseDups _
  rw [gather, ← h.names, List.flatMap_map, Children.elements]
  refine List.flatMap_congr fun f mem => ?_
  rw [← h.members, elementsNamed_of_mem nodup mem]

end Children

end Folio.Markup
