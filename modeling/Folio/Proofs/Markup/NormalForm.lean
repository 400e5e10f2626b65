import Folio.Proofs.Markup.Siblings
import Folio.Proofs.Tag.MarkupOrder
import Folio.Proofs.Text.Cutting
import Mathlib.Data.List.Forall2

/-! # The form of a tree that was read

A tree stems from the markup that is left without the elements under reserved names: each element
from one tag, with its last attribute of each name and with the text between its children. At every
depth it keeps to what the options ask for, so whoever walks it need not look at the markup again.
-/

namespace Folio.Markup

section Lists

variable {α β κ : Type} [DecidableEq κ] {R : α → β → Prop} {key : α → κ} {key' : β → κ}

theorem forall₂_gather (same : ∀ {a b}, R a b → key a = key' b) {l : List α} {m : List β}
    (related : List.Forall₂ R l m) : List.Forall₂ R (gather key l) (gather key' m) := by
  have keys : l.map key = m.map key' := by
    induction related with
    | nil => rfl
    | cons first _ ih => rw [List.map_cons, List.map_cons, same first, ih]
  have members (k : κ) : List.Forall₂ R (l.filter fun a => key a = k)
      (m.filter fun b => key' b = k) := by
    refine List.rel_filter (fun a b together => ?_) related
    simp only [same together]
  rw [gather, gather, keys]
  induction (m.map key').eraseDups with
  | nil => exact .nil
  | cons k rest ih =>
    rw [List.flatMap_cons, List.flatMap_cons]
    exact List.rel_append (members k) ih

end Lists

theorem gather_some (es : List Element) :
    gather (fun e => some e.name) es = gather Element.name es := by
  have keys : (es.map fun e => some e.name).filterMap id = es.map Element.name := by
    rw [List.filterMap_map]
    exact congrFun List.filterMap_eq_map' es
  rw [gather, gather, ← keys]
  refine flatMap_eraseDups (fun left right => left.trans right.symm) (fun k => ?_) _
  cases k with
  | none => simp
  | some n => simp

inductive Element.Within (e : Element) : Element → Prop
  | root : Within e e
  | child {parent child : Element} (listed : child ∈ parent.children.elements)
      (within : Within e child) : Within e parent

/-- What an element of a tree that was read keeps to. -/
structure Element.Normal (options : ParseOptions) (e : Element) : Prop where
  free : ∀ child ∈ e.children.elements, isReserved child.name = false
  sound : ∀ f ∈ e.children, f.Sound
  inked : (∀ c ∈ e.text.toList, Text.isBlank c = true) → e.text = ""
  trimmed : options.trim = true →
    ∀ c, e.text.toList.head? = some c ∨ e.text.toList.getLast? = some c → Text.isBlank c = false
  apart : match options.order with
    | .document => (e.children.map Field.name).IsChain (· ≠ ·)
    | .grouped => (e.children.map Field.name).Nodup

mutual

/-- A node without the elements below it that have a reserved name, and without all that is in
them. -/
def Node.pruned : Node → Node
  | .element name attributes place nodes => .element name attributes place (prunedAll nodes)
  | .text content => .text content
  | .comment text => .comment text
  | .instruction target text => .instruction target text

def prunedAll : List Node → List Node
  | [] => []
  | node :: rest =>
    if node.name?.any isReserved then prunedAll rest else node.pruned :: prunedAll rest

end

def SiblingOrder.listed : SiblingOrder → List Node → List Node
  | .document, nodes => nodes.filter fun node => node.name?.isSome
  | .grouped, nodes => gather Node.name? (nodes.filter fun node => node.name?.isSome)

/-- An element stems from a node when it has its name, its last attribute of each name and no other,
its text, and a child for each tag below it. -/
inductive Stems (options : ParseOptions) : Node → Element → Prop
  | mk {name : String} {attributes : List (String × String)} {place : Position}
      {nodes : List Node} {e : Element} (named : e.name = name)
      (kept : ∀ key, e.attributes.get? key = attributes.reverse.lookup key)
      (text : e.text = settledText options nodes)
      (children : List.Forall₂ (Stems options) (options.order.listed nodes) e.children.elements) :
      Stems options (.element name attributes place nodes) e

section Growth

variable {options : ParseOptions} {name : String} {attributes : List (String × String)}
  {place : Position} {nodes : List Node} {e : Element}

def grown (options : ParseOptions) (name : String) (attributes : List (String × String))
    (nodes : List Node) : Element :=
  .mk name (settledText options nodes) (.ofList attributes) (growAll options [] nodes).1

theorem children_grown (options : ParseOptions) (name : String)
    (attributes : List (String × String)) (nodes : List Node) :
    (grown options name attributes nodes).children =
      Children.ofElements options.order (sprouts options nodes) :=
  growAll_eq_foldl [] nodes

theorem exists_grown_of_mem_sprouts (mem : e ∈ sprouts options nodes) :
    ∃ name attributes nodes, e = grown options name attributes nodes := by
  obtain ⟨node, _, sprouted⟩ := List.mem_filterMap.1 mem
  cases node with
  | element name attributes place nodes =>
    rw [Node.sprout?] at sprouted
    split at sprouted
    · cases sprouted
    · exact ⟨name, attributes, nodes, (Option.some.inj sprouted).symm⟩
  | text | comment | instruction => cases sprouted

theorem elements_ofElements_perm (order : SiblingOrder) (es : List Element) :
    (Children.ofElements order es).elements.Perm es := by
  cases order with
  | document => rw [Children.elements_document]
  | grouped =>
    rw [(Children.gathers_grouped es).elements]
    exact gather_perm Element.name es

theorem mem_sprouts_of_mem_children {child : Element}
    (listed : child ∈ (grown options name attributes nodes).children.elements) :
    child ∈ sprouts options nodes := by
  rw [children_grown] at listed
  exact (elements_ofElements_perm _ _).mem_iff.1 listed

theorem Element.Within.exists_grown {root : Element} (within : e.Within root)
    (grew : ∃ name attributes nodes, root = grown options name attributes nodes) :
    ∃ name attributes nodes, e = grown options name attributes nodes := by
  induction within with
  | root => exact grew
  | child listed _ ih =>
    obtain ⟨name, attributes, nodes, rfl⟩ := grew
    exact ih (exists_grown_of_mem_sprouts (mem_sprouts_of_mem_children listed))

theorem settledText_cases (options : ParseOptions) (nodes : List Node) :
    (∃ all, (settledText options nodes).toList = Text.trimmed all) ∨
      options.trim = false ∧ ¬ ∀ c ∈ (settledText options nodes).toList, Text.isBlank c = true := by
  rw [settledText]
  split
  · exact .inl ⟨_, String.toList_ofList⟩
  · rename_i kept
    split
    · exact .inl ⟨[], rfl⟩
    · rename_i some
      exact .inr ⟨Bool.eq_false_iff.2 kept, mt Text.trim_eq_empty_iff.2 some⟩

theorem settledText_inked
    (blank : ∀ c ∈ (settledText options nodes).toList, Text.isBlank c = true) :
    settledText options nodes = "" := by
  obtain ⟨all, trimmed⟩ | ⟨_, full⟩ := settledText_cases options nodes
  · rw [trimmed] at blank
    rw [← String.toList_inj, trimmed, Text.trimmed_eq_nil_of_blank blank]
    rfl
  · exact absurd blank full

theorem settledText_trimmed (trim : options.trim = true) {c : Char}
    (atEnd : (settledText options nodes).toList.head? = some c ∨
      (settledText options nodes).toList.getLast? = some c) : Text.isBlank c = false := by
  obtain ⟨all, trimmed⟩ | ⟨kept, _⟩ := settledText_cases options nodes
  · rw [trimmed] at atEnd
    exact atEnd.elim Text.isBlank_of_head?_trimmed Text.isBlank_of_getLast?_trimmed
  · rw [trim] at kept
    cases kept

theorem normal_grown (options : ParseOptions) (name : String) (attributes : List (String × String))
    (nodes : List Node) : (grown options name attributes nodes).Normal options where
  free := by
    intro child listed
    exact not_reserved_of_mem_sprouts (mem_sprouts_of_mem_children listed)
  sound := by
    rw [children_grown]
    exact Children.sound_ofElements _ _
  inked := settledText_inked
  trimmed := fun trim _ atEnd => settledText_trimmed trim atEnd
  apart := by
    rw [children_grown]
    cases options.order with
    | document => exact Children.isChain_document _
    | grouped => exact Children.nodup_grouped _

end Growth

section Origin

variable {options : ParseOptions}

theorem name?_pruned (node : Node) : node.pruned.name? = node.name? := by
  cases node <;> rfl

theorem text?_pruned (node : Node) : node.pruned.text? = node.text? := by
  cases node <;> rfl

theorem settledText_prunedAll (options : ParseOptions) (nodes : List Node) :
    settledText options (prunedAll nodes) = settledText options nodes := by
  refine settledText_congr ?_
  induction nodes with
  | nil => rfl
  | cons node rest ih =>
    rw [prunedAll]
    split
    · rename_i reserved
      cases node with
      | element name attributes place nodes => exact ih
      | text | comment | instruction => cases reserved
    · simp only [List.filterMap_cons, text?_pruned, ih]

theorem forall₂_listed {nodes : List Node} {es : List Element}
    (stems : List.Forall₂ (Stems options) (nodes.filter fun node => node.name?.isSome) es) :
    List.Forall₂ (Stems options) (options.order.listed nodes)
      (Children.ofElements options.order es).elements := by
  cases options.order with
  | document =>
    rw [Children.elements_document]
    exact stems
  | grouped =>
    rw [(Children.gathers_grouped es).elements, ← gather_some]
    refine forall₂_gather ?_ stems
    rintro _ e ⟨rfl, _, _, _⟩
    rfl

theorem stems_grown {name : String} {attributes : List (String × String)} {place : Position}
    {nodes : List Node}
    (stems : List.Forall₂ (Stems options)
      ((prunedAll nodes).filter fun node => node.name?.isSome) (sprouts options nodes)) :
    Stems options (.element name attributes place (prunedAll nodes))
      (grown options name attributes nodes) := by
  refine .mk rfl (Table.get?_ofList attributes) (settledText_prunedAll options nodes).symm ?_
  rw [children_grown]
  exact forall₂_listed stems

theorem name?_eq_none_of_sprout? {node : Node} (bare : node.sprout? options = none)
    (free : ¬ node.name?.any isReserved = true) : node.name? = none := by
  cases node with
  | element name attributes place nodes =>
    have named : ¬ isReserved name = true := free
    rw [Node.sprout?, if_neg named] at bare
    cases bare
  | text | comment | instruction => rfl

mutual

theorem stems_sprout : ∀ (node : Node) {e : Element}, node.sprout? options = some e →
    Stems options node.pruned e
  | .element name attributes place nodes, e, sprouted => by
    rw [Node.sprout?] at sprouted
    split at sprouted
    · cases sprouted
    · obtain rfl := Option.some.inj sprouted
      exact stems_grown (stems_sprouts nodes)
  | .text _, _, sprouted => by cases sprouted
  | .comment _, _, sprouted => by cases sprouted
  | .instruction _ _, _, sprouted => by cases sprouted

theorem stems_sprouts : ∀ nodes : List Node,
    List.Forall₂ (Stems options) ((prunedAll nodes).filter fun node => node.name?.isSome)
      (sprouts options nodes)
  | [] => .nil
  | node :: rest => by
    have behind := stems_sprouts rest
    rw [prunedAll, sprouts]
    cases sprouted : node.sprout? options with
    | none =>
      rw [List.filterMap_cons_none sprouted]
      split
      · exact behind
      · rename_i free
        have tagless := name?_eq_none_of_sprout? sprouted free
        rw [List.filter_cons_of_neg (by simp [name?_pruned, tagless])]
        exact behind
    | some e =>
      obtain ⟨named, free⟩ := not_reserved_of_sprout? sprouted
      rw [List.filterMap_cons_some sprouted, if_neg (by simp [named, free]),
        List.filter_cons_of_pos (by simp [name?_pruned, named])]
      exact .cons (stems_sprout node sprouted) behind

end

end Origin

/-- A document that is read gives a tree that stems from its markup without what is under reserved
names, in normal form at every depth. -/
theorem parsed_tree_normal {reader : NodeReader} {options : ParseOptions} {markup : String}
    {root : Element} {records : List Record}
    (parsed : parse options markup reader = .ok (root, records)) :
    ∃ attributes place nodes,
      reader markup = .ok (.element options.rootTag attributes place nodes) ∧
      Stems options (.element options.rootTag attributes place (prunedAll nodes)) root ∧
      ∀ e : Element, e.Within root → e.Normal options := by
  rw [parse] at parsed
  split at parsed
  · cases parsed
  · rename_i name attributes place nodes tree
    split at parsed
    · cases parsed
    · rename_i tagged
      have named : name = options.rootTag := not_not.1 tagged
      have grew : root = grown options options.rootTag attributes nodes := by
        rw [← named]
        exact (congrArg Prod.fst (Except.ok.inj parsed)).symm
      refine ⟨attributes, place, nodes, named ▸ tree, ?_, fun e within => ?_⟩
      · rw [grew]
        exact stems_grown (stems_sprouts nodes)
      · obtain ⟨name, attributes, nodes, rfl⟩ := within.exists_grown ⟨_, _, _, grew⟩
        exact normal_grown options name attributes nodes
  · cases parsed

theorem grouped_document_normal :
    let options : ParseOptions := { order := .grouped }
    let root : Element := .mk "document" "" (Table.empty.insert "k" "2")
      [.mk "b" (.repeated [.named "b", .named "b"]),
        .mk "a" (.single ((Element.named "a").withText "y"))]
    (∃ records, parse options
      "<document xmlns:p='u' k='1' p:k='2'><attrs><b>x</b></attrs><b/><a> y </a><b/></document>" =
        .ok (root, records)) ∧ ∀ e : Element, e.Within root → e.Normal options := by
  intro options root
  have tree : Node.ofString
      "<document xmlns:p='u' k='1' p:k='2'><attrs><b>x</b></attrs><b/><a> y </a><b/></document>" =
        .ok (.element "document" [("k", "1"), ("k", "2")] ⟨1, 1⟩
          [.element "attrs" [] ⟨1, 37⟩ [.element "b" [] ⟨1, 44⟩ [.text "x"]],
           .element "b" [] ⟨1, 60⟩ [], .element "a" [] ⟨1, 64⟩ [.text " y "],
           .element "b" [] ⟨1, 74⟩ []]) := by with_unfolding_all rfl
  have read : parse options
      "<document xmlns:p='u' k='1' p:k='2'><attrs><b>x</b></attrs><b/><a> y </a><b/></document>" =
        .ok (root, [skipped "attrs" ⟨1, 37⟩]) := by
    rw [parse, tree]
    rfl
  obtain ⟨_, _, _, _, _, normal⟩ := parsed_tree_normal read
  exact ⟨⟨_, read⟩, normal⟩

end Folio.Markup
