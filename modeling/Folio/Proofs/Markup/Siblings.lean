import Folio.Proofs.Markup.Gathering
import Mathlib.Data.List.Chain

/-! # Siblings

What becomes of siblings that are pushed one after the other. Every field holds elements of its own
name, and those of a name keep their order whichever siblings share a field. Where neighbours do,
the order of all siblings is kept; where all siblings of a name do, no name has two fields. Both
come to the same just if the siblings of each name stand next to each other from the start.
-/

namespace Folio.Markup

section Lists

variable {α κ : Type} [DecidableEq κ]

/-- The members of each key stand next to each other. -/
def Contiguous (key : α → κ) (l : List α) : Prop :=
  ∀ k, (l.filter fun a => key a = k) <:+: l

theorem suffix_of_infix_concat {p : α → Bool} {l : List α} {a : α} (own : p a = true)
    (inside : l.filter p ++ [a] <:+: l ++ [a]) : l.filter p <:+ l := by
  rw [List.infix_concat_iff] at inside
  rcases inside with ends | within
  · obtain ⟨front, same⟩ := ends
    rw [← List.append_assoc] at same
    exact ⟨front, List.append_inj_left' same rfl⟩
  · -- The list would hold more such members than it does.
    have le := (within.sublist.filter p).length_le
    have more : ((l.filter p ++ [a]).filter p).length = (l.filter p).length + 1 := by simp [own]
    omega

theorem contiguous_concat {key : α → κ} {l : List α} {a : α} :
    Contiguous key (l ++ [a]) ↔
      Contiguous key l ∧ (l.filter fun b => key b = key a) <:+ l := by
  have own : (l ++ [a]).filter (fun b => key b = key a) =
      (l.filter fun b => key b = key a) ++ [a] := by
    simp
  have other {k : κ} (ne : key a ≠ k) :
      (l ++ [a]).filter (fun b => key b = k) = l.filter fun b => key b = k := by
    simp [ne]
  constructor
  · intro contiguous
    have behind : (l.filter fun b => key b = key a) <:+ l :=
      suffix_of_infix_concat (by simp) (own ▸ contiguous (key a))
    refine ⟨fun k => ?_, behind⟩
    by_cases same : key a = k
    · subst same
      exact behind.isInfix
    · have inside := contiguous k
      rw [other same, List.infix_concat_iff] at inside
      rcases inside with ends | within
      · rcases List.suffix_concat_iff.1 ends with none | ⟨front, last, _⟩
        · rw [none]
          exact List.nil_infix
        · have mem : a ∈ l.filter fun b => key b = k := by
            rw [last]
            exact List.mem_append_right _ List.mem_cons_self
          exact absurd (by simpa using (List.mem_filter.1 mem).2) same
      · exact within
  · rintro ⟨contiguous, front, ends⟩ k
    by_cases same : key a = k
    · subst same
      rw [own]
      refine ⟨front, [], ?_⟩
      rw [List.append_nil, ← List.append_assoc, ends]
    · rw [other same]
      exact (contiguous k).trans (List.infix_append' [] l [a])

theorem getLast?_of_suffix {key : α → κ} {l : List α} {k : κ} (some : k ∈ l.map key)
    (behind : (l.filter fun a => key a = k) <:+ l) : (l.map key).getLast? = k := by
  obtain ⟨a, mem, own⟩ := List.mem_map.1 some
  have kept : a ∈ l.filter fun a => key a = k := List.mem_filter.2 ⟨mem, by simpa using own⟩
  obtain none | ⟨init, last, split⟩ := List.eq_nil_or_concat' (l.filter fun a => key a = k)
  · rw [none] at kept
    cases kept
  · have named : last ∈ l.filter fun a => key a = k := by
      rw [split]
      exact List.mem_append_right _ List.mem_cons_self
    obtain ⟨front, ends⟩ := behind
    rw [← ends, split, ← List.append_assoc, List.map_append, List.map_singleton,
      List.getLast?_concat]
    simpa using (List.mem_filter.1 named).2

end Lists

/-- What every field keeps to: its elements have its name, and only several of them are repeated. -/
structure Field.Sound (f : Field) : Prop where
  named : ∀ e ∈ f.elements, e.name = f.name
  single : (∃ e, f.value = .single e) ↔ f.elements.length = 1
  repeated : (∃ es, f.value = .repeated es) ↔ 2 ≤ f.elements.length

namespace Field

variable {f : Field} {e : Element}

theorem sound_ofElement (e : Element) : (ofElement e).Sound where
  named := by
    intro other mem
    rw [List.mem_singleton.1 mem]
    rfl
  single := ⟨fun _ => rfl, fun _ => ⟨e, rfl⟩⟩
  repeated := by
    constructor
    · rintro ⟨es, other⟩
      cases other
    · intro several
      have one : (ofElement e).elements.length = 1 := rfl
      omega

theorem Sound.ne_nil (sound : f.Sound) : f.elements ≠ [] := by
  intro none
  have zero : f.elements.length = 0 := by rw [none]; rfl
  cases value : f.value with
  | single e =>
    have one := sound.single.1 ⟨e, value⟩
    omega
  | repeated es =>
    have several := sound.repeated.1 ⟨es, value⟩
    omega

theorem Sound.append (sound : f.Sound) (same : f.name = e.name) : (f.append e).Sound := by
  have some := List.length_pos_iff.2 sound.ne_nil
  have more : (f.append e).elements.length = f.elements.length + 1 := by
    rw [elements_append, List.length_append, List.length_singleton]
  constructor
  · intro other mem
    rw [elements_append, List.mem_append, List.mem_singleton] at mem
    rcases mem with mem | rfl
    · exact sound.named other mem
    · exact same.symm
  · constructor
    · rintro ⟨other, value⟩
      cases value
    · intro one
      omega
  · constructor
    · intro _
      omega
    · intro _
      exact ⟨_, rfl⟩

end Field

namespace Children

variable {c : Children} {e : Element} {f : Field}

theorem pushLast_concat (c : Children) (f : Field) (e : Element) :
    pushLast e (c ++ [f]) = c ++ if f.name = e.name then [f.append e] else [f, .ofElement e] := by
  induction c with
  | nil => rfl
  | cons g rest ih =>
    cases rest with
    | nil =>
      rw [List.nil_append] at ih
      simp only [List.cons_append, List.nil_append, pushLast]
    | cons h rest =>
      rw [List.cons_append, List.cons_append, pushLast, ← List.cons_append, ih]
      rfl

theorem pushFirst_of_not_mem (absent : e.name ∉ c.map Field.name) :
    pushFirst e c = c ++ [.ofElement e] := by
  induction c with
  | nil => rfl
  | cons f rest ih =>
    rw [List.map_cons, List.mem_cons, not_or] at absent
    rw [pushFirst, if_neg (Ne.symm absent.1), ih absent.2, List.cons_append]

theorem pushFirst_concat (absent : e.name ∉ c.map Field.name) (same : f.name = e.name) :
    pushFirst e (c ++ [f]) = c ++ [f.append e] := by
  induction c with
  | nil => exact if_pos same
  | cons g rest ih =>
    rw [List.map_cons, List.mem_cons, not_or] at absent
    rw [List.cons_append, pushFirst, if_neg (Ne.symm absent.1), ih absent.2, List.cons_append]

theorem mem_pushLast (mem : f ∈ pushLast e c) :
    f ∈ c ∨ f = .ofElement e ∨ ∃ g ∈ c, g.name = e.name ∧ f = g.append e := by
  rcases List.eq_nil_or_concat' c with rfl | ⟨front, g, rfl⟩
  · exact .inr (.inl (List.mem_singleton.1 mem))
  · rw [pushLast_concat] at mem
    by_cases same : g.name = e.name
    · rw [if_pos same, List.mem_append, List.mem_singleton] at mem
      rcases mem with mem | new
      · exact .inl (List.mem_append_left _ mem)
      · exact .inr (.inr ⟨g, List.mem_append_right _ List.mem_cons_self, same, new⟩)
    · rw [if_neg same, List.append_cons, List.mem_append, List.mem_singleton] at mem
      exact mem.imp id .inl

theorem mem_pushFirst (mem : f ∈ pushFirst e c) :
    f ∈ c ∨ f = .ofElement e ∨ ∃ g ∈ c, g.name = e.name ∧ f = g.append e := by
  induction c with
  | nil => exact .inr (.inl (List.mem_singleton.1 mem))
  | cons g rest ih =>
    rw [pushFirst] at mem
    by_cases same : g.name = e.name
    · rw [if_pos same, List.mem_cons] at mem
      rcases mem with new | mem
      · exact .inr (.inr ⟨g, List.mem_cons_self, same, new⟩)
      · exact .inl (List.mem_cons_of_mem _ mem)
    · rw [if_neg same, List.mem_cons] at mem
      rcases mem with rfl | mem
      · exact .inl List.mem_cons_self
      · rcases ih mem with mem | new | ⟨h, mem, rest⟩
        · exact .inl (List.mem_cons_of_mem _ mem)
        · exact .inr (.inl new)
        · exact .inr (.inr ⟨h, List.mem_cons_of_mem _ mem, rest⟩)

theorem mem_push {order : SiblingOrder} (mem : f ∈ c.push e order) :
    f ∈ c ∨ f = .ofElement e ∨ ∃ g ∈ c, g.name = e.name ∧ f = g.append e := by
  cases order with
  | document => exact mem_pushLast mem
  | grouped => exact mem_pushFirst mem

theorem sound_push {order : SiblingOrder} (sound : ∀ f ∈ c, f.Sound) :
    ∀ f ∈ c.push e order, f.Sound := by
  intro f mem
  rcases mem_push mem with old | rfl | ⟨g, old, same, rfl⟩
  · exact sound f old
  · exact Field.sound_ofElement e
  · exact (sound g old).append same

theorem elements_cons (f : Field) (c : Children) : elements (f :: c) = f.elements ++ c.elements :=
  rfl

theorem elements_append (c d : Children) : elements (c ++ d) = c.elements ++ elements d :=
  List.flatMap_append

theorem elements_pushLast (e : Element) (c : Children) :
    (pushLast e c).elements = c.elements ++ [e] := by
  rcases List.eq_nil_or_concat' c with rfl | ⟨front, f, rfl⟩
  · rfl
  · rw [pushLast_concat, elements_append, elements_append, List.append_assoc]
    split
    · simp [elements]
    · simp [elements, Field.ofElement, Field.elements, Child.elements]

theorem isChain_pushLast (apart : (c.map Field.name).IsChain (· ≠ ·)) :
    ((pushLast e c).map Field.name).IsChain (· ≠ ·) := by
  rcases List.eq_nil_or_concat' c with rfl | ⟨front, f, rfl⟩
  · exact .singleton _
  · rw [pushLast_concat]
    by_cases same : f.name = e.name
    · rw [if_pos same, List.map_append]
      rwa [List.map_append] at apart
    · rw [if_neg same, List.append_cons, List.map_append, List.isChain_append]
      refine ⟨apart, .singleton _, ?_⟩
      simp only [List.map_append, List.map_cons, List.map_nil, List.getLast?_concat,
        List.head?_cons, Option.mem_def, Option.some.injEq]
      rintro _ rfl _ rfl
      exact same

theorem getLast?_pushLast (e : Element) (c : Children) :
    ((pushLast e c).map Field.name).getLast? = some e.name := by
  rcases List.eq_nil_or_concat' c with rfl | ⟨front, f, rfl⟩
  · rfl
  · rw [pushLast_concat]
    split
    · rename_i same
      rw [List.map_append, List.map_singleton, List.getLast?_concat, Field.name_append, same]
    · rw [List.append_cons, List.map_append, List.map_singleton, List.getLast?_concat]
      rfl

theorem elementsNamed_eq_filter (sound : ∀ f ∈ c, f.Sound) (n : String) :
    c.elementsNamed n = c.elements.filter fun e => e.name = n := by
  induction c with
  | nil => rfl
  | cons f rest ih =>
    obtain ⟨first, others⟩ := List.forall_mem_cons.1 sound
    rw [elementsNamed_cons, ih others, elements_cons, List.filter_append]
    congr 1
    by_cases here : f.name = n
    · rw [if_pos here, List.filter_eq_self.2]
      intro e mem
      rw [decide_eq_true_eq, first.named e mem, here]
    · rw [if_neg here, eq_comm, List.filter_eq_nil_iff]
      intro e mem
      rw [decide_eq_true_eq, first.named e mem]
      exact here

def ofElements (order : SiblingOrder) (es : List Element) : Children :=
  es.foldl (fun c e => c.push e order) []

theorem ofElements_concat (order : SiblingOrder) (es : List Element) (e : Element) :
    ofElements order (es ++ [e]) = (ofElements order es).push e order :=
  List.foldl_concat ..

theorem sound_ofElements (order : SiblingOrder) (es : List Element) :
    ∀ f ∈ ofElements order es, f.Sound := by
  induction es using List.reverseRecOn with
  | nil => exact fun f mem => absurd mem List.not_mem_nil
  | append_singleton es e ih =>
    rw [ofElements_concat]
    exact sound_push ih

theorem elements_document (es : List Element) : (ofElements .document es).elements = es := by
  induction es using List.reverseRecOn with
  | nil => rfl
  | append_singleton es e ih =>
    rw [ofElements_concat]
    exact (elements_pushLast e _).trans (by rw [ih])

theorem isChain_document (es : List Element) :
    ((ofElements .document es).map Field.name).IsChain (· ≠ ·) := by
  induction es using List.reverseRecOn with
  | nil => exact .nil
  | append_singleton es e ih =>
    rw [ofElements_concat]
    exact isChain_pushLast ih

theorem getLast?_document (es : List Element) :
    ((ofElements .document es).map Field.name).getLast? = (es.map Element.name).getLast? := by
  rcases List.eq_nil_or_concat' es with rfl | ⟨front, e, rfl⟩
  · rfl
  · rw [ofElements_concat, List.map_append, List.map_singleton, List.getLast?_concat]
    exact getLast?_pushLast e _

theorem gathers_grouped (es : List Element) : Gathers (ofElements .grouped es) es :=
  gathers_foldl es

theorem nodup_grouped (es : List Element) :
    ((ofElements .grouped es).map Field.name).Nodup := by
  rw [(gathers_grouped es).names]
  exact nodup_eraseDups _

theorem elementsNamed_ofElements (order : SiblingOrder) (es : List Element) (n : String) :
    (ofElements order es).elementsNamed n = es.filter fun e => e.name = n := by
  cases order with
  | document =>
    rw [elementsNamed_eq_filter (sound_ofElements .document es), elements_document]
  | grouped => exact (gathers_grouped es).members n

theorem infix_elements (mem : f ∈ c) : f.elements <:+: c.elements := by
  obtain ⟨front, behind, rfl⟩ := List.append_of_mem mem
  refine ⟨elements front, elements behind, ?_⟩
  rw [elements_append, List.append_assoc]
  rfl

/-- When it makes no difference which siblings share a field, each name has its elements in one
field, and the fields have them in the order of the siblings. -/
theorem contiguous_of_eq {es : List Element}
    (same : ofElements .document es = ofElements .grouped es) : Contiguous Element.name es := by
  intro n
  have nodup := nodup_grouped es
  have members := elementsNamed_ofElements .grouped es n
  have listed := elements_document es
  rw [same] at listed
  by_cases mem : n ∈ (ofElements .grouped es).map Field.name
  · obtain ⟨f, held, rfl⟩ := List.mem_map.1 mem
    rw [elementsNamed_of_mem nodup held] at members
    have inside := infix_elements held
    rwa [listed, members] at inside
  · rw [elementsNamed_of_not_mem mem] at members
    rw [← members]
    exact List.nil_infix

theorem pushLast_eq_pushFirst (nodup : (c.map Field.name).Nodup)
    (last : e.name ∈ c.map Field.name → (c.map Field.name).getLast? = some e.name) :
    pushLast e c = pushFirst e c := by
  rcases List.eq_nil_or_concat' c with rfl | ⟨front, f, rfl⟩
  · rfl
  · rw [List.map_append, List.map_singleton, List.getLast?_concat, Option.some.injEq] at last
    rw [pushLast_concat]
    by_cases same : f.name = e.name
    · have fresh : e.name ∉ front.map Field.name := by
        rw [List.map_append, List.map_singleton, List.nodup_append] at nodup
        intro mem
        exact nodup.2.2 e.name mem f.name (List.mem_singleton.2 rfl) same.symm
      rw [if_pos same, pushFirst_concat fresh same]
    · have absent : e.name ∉ (front ++ [f]).map Field.name := by
        rw [List.map_append, List.map_singleton]
        exact fun mem => same (last mem)
      rw [if_neg same, pushFirst_of_not_mem absent, ← List.append_cons]

theorem eq_of_contiguous {es : List Element} (contiguous : Contiguous Element.name es) :
    ofElements .document es = ofElements .grouped es := by
  induction es using List.reverseRecOn with
  | nil => rfl
  | append_singleton es e ih =>
    obtain ⟨before, behind⟩ := contiguous_concat.1 contiguous
    have same := ih before
    rw [ofElements_concat, ofElements_concat, ← same]
    refine pushLast_eq_pushFirst (same ▸ nodup_grouped es) fun mem => ?_
    rw [getLast?_document]
    refine getLast?_of_suffix ?_ behind
    rw [same, (gathers_grouped es).names] at mem
    exact List.mem_eraseDups.1 mem

/-- What siblings come to when they are pushed one after the other. -/
theorem siblings_share_fields (es : List Element) :
    (∀ order, (∀ f ∈ ofElements order es, f.Sound) ∧
      ∀ n, (ofElements order es).elementsNamed n = es.filter fun e => e.name = n) ∧
    ((ofElements .document es).elements = es ∧
      ((ofElements .document es).map Field.name).IsChain (· ≠ ·)) ∧
    (((ofElements .grouped es).map Field.name).Nodup ∧
      (ofElements .grouped es).map Field.name = (es.map Element.name).eraseDups) ∧
    (ofElements .document es = ofElements .grouped es ↔ Contiguous Element.name es) := by
  refine ⟨fun order => ⟨sound_ofElements order es, elementsNamed_ofElements order es⟩,
    ⟨elements_document es, isChain_document es⟩, ⟨nodup_grouped es, ?_⟩, ?_⟩
  · exact (gathers_grouped es).names
  · exact ⟨contiguous_of_eq, eq_of_contiguous⟩

end Children

end Folio.Markup
