import Folio.Proofs.Markup.NormalForm
import Mathlib.Logic.Relation

/-! # Edits that leave the tree alone

A tree is read from the tags among the nodes of each element and from their text, one apart from the
other. So comments and instructions may come and go, a text may be cut in two, and texts may stand
before or behind the tags next to them. The text is trimmed last, so trimming the tree that was read
without it gives the tree that is read with it.
-/

namespace Folio.Markup

/-- One edit among the nodes of an element, at any depth. It is told in one direction: a comment or
an instruction goes, two texts become one, a text goes behind the tag that follows it. All tags
behind an edit are somewhere else in the markup then, so a place may change on its own. -/
inductive Edit : List Node → List Node → Prop
  | comment {text : String} {nodes : List Node} : Edit (.comment text :: nodes) nodes
  | instruction {target text : String} {nodes : List Node} :
      Edit (.instruction target text :: nodes) nodes
  | merge {front behind : String} {nodes : List Node} :
      Edit (.text front :: .text behind :: nodes) (.text (front ++ behind) :: nodes)
  | move {content name : String} {attributes : List (String × String)} {place : Position}
      {below nodes : List Node} :
      Edit (.text content :: .element name attributes place below :: nodes)
        (.element name attributes place below :: .text content :: nodes)
  | relocate {name : String} {attributes : List (String × String)} {place other : Position}
      {below nodes : List Node} :
      Edit (.element name attributes place below :: nodes)
        (.element name attributes other below :: nodes)
  | inside {name : String} {attributes : List (String × String)} {place : Position}
      {below edited nodes : List Node} (edit : Edit below edited) :
      Edit (.element name attributes place below :: nodes)
        (.element name attributes place edited :: nodes)
  | behind {node : Node} {nodes edited : List Node} (edit : Edit nodes edited) :
      Edit (node :: nodes) (node :: edited)

/-- Any number of edits, each of them made or undone. -/
abbrev Edited : List Node → List Node → Prop := Relation.EqvGen Edit

section Edits

variable {options : ParseOptions} {name : String} {attributes : List (String × String)}
  {l m : List Node}

theorem sprouts_cons (options : ParseOptions) (node : Node) (nodes : List Node) :
    sprouts options (node :: nodes) = (node.sprout? options).toList ++ sprouts options nodes := by
  cases sprouted : node.sprout? options with
  | none => exact List.filterMap_cons_none sprouted
  | some e => exact List.filterMap_cons_some sprouted

theorem wording_cons (node : Node) (nodes : List Node) :
    wording (node :: nodes) = node.text?.getD "" ++ wording nodes := by
  cases worded : node.text? with
  | none => simp [wording, worded]
  | some content => simp [wording, worded, String.join_cons]

theorem sprout?_element (options : ParseOptions) (name : String)
    (attributes : List (String × String)) (place : Position) (nodes : List Node) :
    (Node.element name attributes place nodes).sprout? options =
      if isReserved name then none else some (grown options name attributes nodes) :=
  rfl

theorem grown_congr (sprouted : sprouts options l = sprouts options m)
    (worded : wording l = wording m) :
    grown options name attributes l = grown options name attributes m := by
  rw [grown, grown, settledText_eq, settledText_eq, worded, growAll_eq_foldl, growAll_eq_foldl,
    sprouted]

theorem Edit.contributes_same (options : ParseOptions) (edit : Edit l m) :
    sprouts options l = sprouts options m ∧ wording l = wording m := by
  induction edit with
  | comment => exact ⟨rfl, rfl⟩
  | instruction => exact ⟨rfl, rfl⟩
  | @merge front behind nodes =>
    refine ⟨rfl, ?_⟩
    simp only [wording_cons, Node.text?, Option.getD_some, String.append_assoc]
  | move => exact ⟨rfl, rfl⟩
  | relocate => exact ⟨rfl, rfl⟩
  | inside edit ih =>
    obtain ⟨sprouted, worded⟩ := ih
    refine ⟨?_, rfl⟩
    rw [sprouts_cons, sprouts_cons, sprout?_element, sprout?_element, grown_congr sprouted worded]
  | behind edit ih =>
    obtain ⟨sprouted, worded⟩ := ih
    constructor
    · rw [sprouts_cons, sprouts_cons, sprouted]
    · rw [wording_cons, wording_cons, worded]

theorem grown_of_edited (options : ParseOptions) (name : String)
    (attributes : List (String × String)) (edited : Edited l m) :
    grown options name attributes l = grown options name attributes m := by
  induction edited with
  | rel l m edit =>
    obtain ⟨sprouted, worded⟩ := edit.contributes_same options
    exact grown_congr sprouted worded
  | refl l => rfl
  | symm l m _ ih => exact ih.symm
  | trans l m n _ _ first second => exact first.trans second

end Edits

mutual

def Element.trimmed : Element → Element
  | .mk name text attributes children =>
    .mk name (Text.trim text) attributes (fieldsTrimmed children)

def Field.trimmed : Field → Field
  | .mk name value => .mk name value.trimmed

def Child.trimmed : Child → Child
  | .single e => .single e.trimmed
  | .repeated es => .repeated (elementsTrimmed es)

def fieldsTrimmed : List Field → List Field
  | [] => []
  | f :: rest => f.trimmed :: fieldsTrimmed rest

def elementsTrimmed : List Element → List Element
  | [] => []
  | e :: rest => e.trimmed :: elementsTrimmed rest

end

theorem fieldsTrimmed_eq_map (c : Children) : fieldsTrimmed c = c.map Field.trimmed := by
  induction c with
  | nil => rfl
  | cons f rest ih => rw [fieldsTrimmed, ih, List.map_cons]

theorem elementsTrimmed_eq_map (es : List Element) :
    elementsTrimmed es = es.map Element.trimmed := by
  induction es with
  | nil => rfl
  | cons e rest ih => rw [elementsTrimmed, ih, List.map_cons]

@[simp] theorem Element.name_trimmed (e : Element) : e.trimmed.name = e.name := by
  cases e
  rfl

@[simp] theorem Field.name_trimmed (f : Field) : f.trimmed.name = f.name := by
  cases f
  rfl

theorem Child.elements_trimmed (c : Child) :
    c.trimmed.elements = c.elements.map Element.trimmed := by
  cases c with
  | single e => rfl
  | repeated es => exact elementsTrimmed_eq_map es

theorem Field.trimmed_append (f : Field) (e : Element) :
    (f.append e).trimmed = f.trimmed.append e.trimmed := by
  obtain ⟨name, value⟩ := f
  have all : elementsTrimmed (value.elements ++ [e]) = value.trimmed.elements ++ [e.trimmed] := by
    rw [elementsTrimmed_eq_map, List.map_append, Child.elements_trimmed]
    rfl
  exact congrArg (fun es => Field.mk name (.repeated es)) all

theorem Field.trimmed_ofElement (e : Element) :
    (Field.ofElement e).trimmed = .ofElement e.trimmed := by
  rw [ofElement, ofElement, Field.trimmed, Child.trimmed, Element.name_trimmed]

theorem Children.trimmed_push (c : Children) (e : Element) (order : SiblingOrder) :
    (c.push e order).map Field.trimmed = (Children.push (c.map Field.trimmed) e.trimmed order) := by
  cases order with
  | document =>
    show (c.pushLast e).map Field.trimmed = Children.pushLast e.trimmed (c.map Field.trimmed)
    rcases List.eq_nil_or_concat' c with rfl | ⟨front, f, rfl⟩
    · exact congrArg (· :: []) (Field.trimmed_ofElement e)
    · rw [pushLast_concat, List.map_append, List.map_append, List.map_singleton, pushLast_concat,
        Field.name_trimmed, Element.name_trimmed]
      split
      · rw [List.map_singleton, Field.trimmed_append]
      · rw [List.map_cons, List.map_singleton, Field.trimmed_ofElement]
  | grouped =>
    show (c.pushFirst e).map Field.trimmed = Children.pushFirst e.trimmed (c.map Field.trimmed)
    induction c with
    | nil => exact congrArg (· :: []) (Field.trimmed_ofElement e)
    | cons f rest ih =>
      rw [List.map_cons, pushFirst, pushFirst, Field.name_trimmed, Element.name_trimmed]
      split
      · rw [List.map_cons, Field.trimmed_append]
      · rw [List.map_cons, ih]

theorem Children.trimmed_ofElements (order : SiblingOrder) (es : List Element) :
    (ofElements order es).map Field.trimmed = ofElements order (es.map Element.trimmed) := by
  induction es using List.reverseRecOn with
  | nil => rfl
  | append_singleton es e ih =>
    rw [List.map_append, List.map_singleton, ofElements_concat, ofElements_concat, trimmed_push, ih]

section Trimming

variable (options : ParseOptions)

theorem trim_settledText (nodes : List Node) :
    Text.trim (settledText { options with trim := false } nodes) =
      settledText { options with trim := true } nodes := by
  rw [settledText_eq, settledText_eq]
  by_cases blank : Text.trim (wording nodes) = ""
  · rw [if_neg Bool.false_ne_true, if_pos blank, if_pos rfl, blank]
    rfl
  · rw [if_neg Bool.false_ne_true, if_neg blank, if_pos rfl]

theorem trimmed_grown {nodes : List Node}
    (below : sprouts { options with trim := true } nodes =
      (sprouts { options with trim := false } nodes).map Element.trimmed)
    (name : String) (attributes : List (String × String)) :
    grown { options with trim := true } name attributes nodes =
      (grown { options with trim := false } name attributes nodes).trimmed := by
  have children : (growAll { options with trim := true } [] nodes).1 =
      fieldsTrimmed (growAll { options with trim := false } [] nodes).1 := by
    rw [growAll_eq_foldl, growAll_eq_foldl, fieldsTrimmed_eq_map, below]
    exact (Children.trimmed_ofElements options.order _).symm
  rw [grown, grown, Element.trimmed, trim_settledText, children]

mutual

theorem sprout?_trimmed : ∀ node : Node, node.sprout? { options with trim := true } =
    (node.sprout? { options with trim := false }).map Element.trimmed
  | .element name attributes place nodes => by
    rw [sprout?_element, sprout?_element, trimmed_grown options (sprouts_trimmed nodes)]
    split
    · rfl
    · rfl
  | .text _ => rfl
  | .comment _ => rfl
  | .instruction _ _ => rfl

theorem sprouts_trimmed : ∀ nodes : List Node, sprouts { options with trim := true } nodes =
    (sprouts { options with trim := false } nodes).map Element.trimmed
  | [] => rfl
  | node :: rest => by
    rw [sprouts_cons, sprouts_cons, sprout?_trimmed node, sprouts_trimmed rest, List.map_append]
    cases node.sprout? { options with trim := false } with
    | none => rfl
    | some e => rfl

end

end Trimming

theorem map_fst_parse (options : ParseOptions) {reader : NodeReader} {markup name : String}
    {attributes : List (String × String)} {place : Position} {nodes : List Node}
    (tree : reader markup = .ok (.element name attributes place nodes)) :
    (parse options markup reader).map Prod.fst =
      if name = options.rootTag then .ok (grown options name attributes nodes)
      else .error (.root options.rootTag name place) := by
  rw [parse, tree]
  by_cases tagged : name = options.rootTag
  · simp only [tagged, ne_eq, not_true_eq_false, if_false, if_true]
    rfl
  · simp only [tagged, ne_eq, not_false_eq_true, if_true, if_false]
    rfl

/-- Nodes that edits lead from one to the other are read as one element, and so are two documents
whose roots have such nodes below them. What is read with trimming is what is read without it,
trimmed everywhere. -/
theorem tree_survives_edits (reader : NodeReader) (options : ParseOptions) (name : String)
    (attributes : List (String × String)) {nodes nodes' : List Node}
    (edited : Edited nodes nodes') :
    grown options name attributes nodes = grown options name attributes nodes' ∧
    (∀ markup markup' place,
      reader markup = .ok (.element name attributes place nodes) →
      reader markup' = .ok (.element name attributes place nodes') →
      (parse options markup reader).map Prod.fst = (parse options markup' reader).map Prod.fst) ∧
    grown { options with trim := true } name attributes nodes =
      (grown { options with trim := false } name attributes nodes).trimmed ∧
    ∀ markup, (parse { options with trim := true } markup reader).map Prod.fst =
      ((parse { options with trim := false } markup reader).map Prod.fst).map Element.trimmed := by
  have same := grown_of_edited options name attributes edited
  have trimmed (name : String) (attributes : List (String × String)) (nodes : List Node) :=
    trimmed_grown options (sprouts_trimmed options nodes) name attributes
  refine ⟨same, ?_, trimmed name attributes nodes, ?_⟩
  · intro markup markup' place tree tree'
    rw [map_fst_parse options tree, map_fst_parse options tree', same]
  · intro markup
    cases tree : reader markup with
    | error fault => simp only [parse, tree, Except.map]
    | ok root =>
      cases root with
      | element name attributes place nodes =>
        rw [map_fst_parse _ tree, map_fst_parse _ tree, trimmed]
        split
        · rfl
        · rfl
      | text | comment | instruction => simp only [parse, tree, Except.map]

theorem tree_survives_moved_text :
    let options : ParseOptions := { trim := false }
    let root : Element := .mk "document" " a b" .empty [.mk "b" (.single (.named "b"))]
    (parse options "<document> a<!--c--><b/> b</document>").map Prod.fst = .ok root ∧
      (parse options "<document> a b<b><?p q?></b></document>").map Prod.fst = .ok root ∧
      (parse { options with trim := true } "<document> a b<b><?p q?></b></document>").map Prod.fst =
        .ok (root.withText "a b") := by
  intro options root
  have apart : Node.ofString "<document> a<!--c--><b/> b</document>" =
      .ok (.element "document" [] ⟨1, 1⟩
        [.text " a", .comment "c", .element "b" [] ⟨1, 21⟩ [], .text " b"]) := by with_unfolding_all rfl
  have joined : Node.ofString "<document> a b<b><?p q?></b></document>" =
      .ok (.element "document" [] ⟨1, 1⟩
        [.text " a b", .element "b" [] ⟨1, 15⟩ [.instruction "p" "q"]]) := by with_unfolding_all rfl
  have uncommented : Edit
      [.text " a", .comment "c", .element "b" [] ⟨1, 21⟩ [], .text " b"]
      [.text " a", .element "b" [] ⟨1, 21⟩ [], .text " b"] := .behind .comment
  have moved : Edit
      [.text " a", .text " b", .element "b" [] ⟨1, 21⟩ []]
      [.text " a", .element "b" [] ⟨1, 21⟩ [], .text " b"] := .behind .move
  have merged : Edit
      [.text " a", .text " b", .element "b" [] ⟨1, 21⟩ []]
      [.text " a b", .element "b" [] ⟨1, 21⟩ []] := .merge
  have relocated : Edit
      [.text " a b", .element "b" [] ⟨1, 21⟩ []]
      [.text " a b", .element "b" [] ⟨1, 15⟩ []] := .behind .relocate
  have emptied : Edit
      [.text " a b", .element "b" [] ⟨1, 15⟩ [.instruction "p" "q"]]
      [.text " a b", .element "b" [] ⟨1, 15⟩ []] := .behind (.inside .instruction)
  have edited : Edited
      [.text " a", .comment "c", .element "b" [] ⟨1, 21⟩ [], .text " b"]
      [.text " a b", .element "b" [] ⟨1, 15⟩ [.instruction "p" "q"]] :=
    .trans _ _ _ (.rel _ _ uncommented) (.trans _ _ _ (.symm _ _ (.rel _ _ moved))
      (.trans _ _ _ (.rel _ _ merged) (.trans _ _ _ (.rel _ _ relocated)
        (.symm _ _ (.rel _ _ emptied)))))
  obtain ⟨_, same, _, trimmed⟩ := tree_survives_edits Node.ofString options "document" []
    edited
  have whole : settledText options
      [.text " a b", .element "b" [] ⟨1, 15⟩ [.instruction "p" "q"]] = " a b" := by decide
  have read : (parse options "<document> a b<b><?p q?></b></document>").map Prod.fst =
      .ok root := by
    rw [map_fst_parse options joined, if_pos rfl, grown, whole]
    rfl
  have alike := same _ _ _ apart joined
  have settled := trimmed "<document> a b<b><?p q?></b></document>"
  rw [read] at alike settled
  exact ⟨alike, read, settled⟩

end Folio.Markup
