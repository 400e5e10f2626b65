import Folio.Markup.Document
import Folio.Proofs.Markup.Gathering
import Folio.Proofs.Tag.Preorder

/-! # The order of the markup

Handlers are called in the order of the start tags when neighbours share fields, and in the order
of the start tags of the rearranged markup when all siblings of a name do. The tree between the
markup and the pass leaves no trace in either order.
-/

namespace Folio.Markup

def Node.name? : Node → Option String
  | .element name .. => some name
  | _ => none

mutual

/-- The tags of elements under no reserved name, in the order of the markup. -/
def Node.tags (options : ParseOptions) : Node → List Tag
  | .element name attributes _ nodes =>
    if isReserved name then []
    else ⟨name, .ofList attributes, settledText options nodes⟩ :: nodesTags options nodes
  | _ => []

def nodesTags (options : ParseOptions) : List Node → List Tag
  | [] => []
  | node :: rest => node.tags options ++ nodesTags options rest

end

mutual

/-- The same node with the children of every element gathered by name. -/
def Node.arranged : Node → Node
  | .element name attributes place nodes =>
    .element name attributes place (gather Node.name? (arrangedAll nodes))
  | .text content => .text content
  | .comment text => .comment text
  | .instruction target text => .instruction target text

def arrangedAll : List Node → List Node
  | [] => []
  | node :: rest => node.arranged :: arrangedAll rest

end

/-- The nodes below the root in the order in which they are interpreted. -/
def SiblingOrder.arrange : SiblingOrder → List Node → List Node
  | .document, nodes => nodes
  | .grouped, nodes => gather Node.name? (arrangedAll nodes)

def Node.sprout? (options : ParseOptions) : Node → Option Element
  | .element name attributes _ nodes =>
    if isReserved name then none
    else some (.mk name (settledText options nodes) (.ofList attributes)
      (growAll options [] nodes).1)
  | _ => none

def sprouts (options : ParseOptions) (nodes : List Node) : List Element :=
  nodes.filterMap (Node.sprout? options)

theorem nodesTags_eq_flatMap (options : ParseOptions) (nodes : List Node) :
    nodesTags options nodes = nodes.flatMap (Node.tags options) := by
  induction nodes with
  | nil => rfl
  | cons node rest ih => rw [nodesTags, ih, List.flatMap_cons]

theorem arrangedAll_eq_map (nodes : List Node) : arrangedAll nodes = nodes.map Node.arranged := by
  induction nodes with
  | nil => rfl
  | cons node rest ih => rw [arrangedAll, ih, List.map_cons]

theorem name?_arranged (node : Node) : node.arranged.name? = node.name? := by
  cases node <;> rfl

section Growth

variable {options : ParseOptions}

theorem grow_eq_push (children : Children) (node : Node) :
    (grow options children node).1 =
      (node.sprout? options).elim children fun e => children.push e options.order := by
  cases node with
  | element name attributes place nodes =>
    rw [grow, Node.sprout?]
    split
    · rfl
    · rfl
  | text => rfl
  | comment => rfl
  | instruction => rfl

theorem growAll_eq_foldl (children : Children) (nodes : List Node) :
    (growAll options children nodes).1 =
      (sprouts options nodes).foldl (fun (c : Children) e => c.push e options.order) children := by
  induction nodes generalizing children with
  | nil => rfl
  | cons node rest ih =>
    have step : (growAll options children (node :: rest)).1 =
        (growAll options (grow options children node).1 rest).1 := rfl
    rw [step, ih, grow_eq_push, sprouts, sprouts]
    cases sprouted : node.sprout? options with
    | none => rw [List.filterMap_cons_none sprouted]; rfl
    | some e => rw [List.filterMap_cons_some sprouted]; rfl

theorem not_reserved_of_sprout? {node : Node} {e : Element}
    (h : node.sprout? options = some e) :
    node.name? = some e.name ∧ isReserved e.name = false := by
  cases node with
  | element name attributes place nodes =>
    rw [Node.sprout?] at h
    split at h
    · cases h
    · rename_i free
      obtain rfl := Option.some.inj h
      exact ⟨rfl, by simpa using free⟩
  | text => cases h
  | comment => cases h
  | instruction => cases h

theorem not_reserved_of_mem_sprouts {nodes : List Node} {e : Element}
    (mem : e ∈ sprouts options nodes) : isReserved e.name = false := by
  obtain ⟨node, _, sprouted⟩ := List.mem_filterMap.1 mem
  exact (not_reserved_of_sprout? sprouted).2

end Growth

section Fields

theorem fieldsTags_eq_elements {c : Children} (free : ∀ f ∈ c, isReserved f.name = false) :
    fieldsTags c = c.elements.flatMap Element.tags := by
  induction c with
  | nil => rfl
  | cons f rest ih =>
    obtain ⟨first, others⟩ := List.forall_mem_cons.1 free
    rw [fieldsTags, ih others, Field.tags_of_not_reserved first, Children.elements,
      Children.elements, List.flatMap_cons, List.flatMap_append]

theorem fieldsTags_foldl_grouped {es : List Element}
    (free : ∀ e ∈ es, isReserved e.name = false) :
    fieldsTags (es.foldl (fun (c : Children) e => c.push e .grouped) []) =
      (gather Element.name es).flatMap Element.tags := by
  have gathers := Children.gathers_foldl es
  rw [← gathers.elements]
  refine fieldsTags_eq_elements fun f mem => ?_
  have named : f.name ∈ (es.map Element.name).eraseDups := by
    rw [← gathers.names]
    exact List.mem_map_of_mem mem
  obtain ⟨e, mem, same⟩ := List.mem_map.1 (List.mem_eraseDups.1 named)
  exact same ▸ free e mem

end Fields

section Arrangement

variable {options : ParseOptions}

def kept (name? : Option String) : Option String := name?.filter fun name => !isReserved name

theorem kept_name? (options : ParseOptions) (node : Node) :
    kept node.name? = (node.sprout? options).map Element.name := by
  cases node with
  | element name attributes place nodes =>
    rw [Node.sprout?]
    cases reserved : isReserved name with
    | true => simp [kept, Node.name?, Option.filter, reserved]
    | false => simp [kept, Node.name?, Option.filter, reserved]
  | text => rfl
  | comment => rfl
  | instruction => rfl

theorem eq_some_of_kept {name? : Option String} {name : String} (h : kept name? = some name) :
    name? = some name := (Option.filter_eq_some_iff.1 h).1

theorem flatMap_filter_name? {nodes : List Node} {f : Node → List Tag}
    (tags : ∀ node ∈ nodes, f node = (node.sprout? options).elim [] Element.tags)
    (k : Option String) :
    (nodes.filter fun node => node.name? = k).flatMap f =
      (kept k).elim [] fun name =>
        ((sprouts options nodes).filter fun e => e.name = name).flatMap Element.tags := by
  induction nodes with
  | nil => cases kept k <;> rfl
  | cons node rest ih =>
    obtain ⟨first, others⟩ := List.forall_mem_cons.1 tags
    have behind := ih others
    have names := kept_name? options node
    rw [sprouts] at behind ⊢
    cases sprouted : node.sprout? options with
    | none =>
      rw [sprouted] at first names
      rw [List.filterMap_cons_none sprouted, ← behind]
      by_cases here : node.name? = k
      · rw [List.filter_cons_of_pos (by simpa using here), List.flatMap_cons, first]
        rfl
      · rw [List.filter_cons_of_neg (by simpa using here)]
    | some e =>
      rw [sprouted] at first names
      have name := eq_some_of_kept names
      rw [List.filterMap_cons_some sprouted]
      by_cases here : node.name? = k
      · rw [← here, names] at behind ⊢
        simp only [Option.map_some, Option.elim_some] at behind ⊢
        rw [List.filter_cons_of_pos (by simp), List.flatMap_cons, behind,
          List.filter_cons_of_pos (by simp), List.flatMap_cons, first]
        rfl
      · rw [List.filter_cons_of_neg (by simpa using here), behind]
        cases unkept : kept k with
        | none => rfl
        | some n =>
          have other : e.name ≠ n := by
            rintro rfl
            exact here (name.trans (eq_some_of_kept unkept).symm)
          simp only [Option.elim_some]
          rw [List.filter_cons_of_neg (by simpa using other)]

theorem nodesTags_gather {nodes : List Node} {f : Node → Node}
    (names : ∀ node, (f node).name? = node.name?)
    (tags : ∀ node ∈ nodes,
      (f node).tags options = (node.sprout? options).elim [] Element.tags) :
    nodesTags options (gather Node.name? (nodes.map f)) =
      (gather Element.name (sprouts options nodes)).flatMap Element.tags := by
  have listed : ((nodes.map f).map Node.name?).filterMap kept =
      (sprouts options nodes).map Element.name := by
    rw [List.map_map, List.filterMap_map, sprouts, List.map_filterMap]
    refine List.filterMap_congr fun node _ => ?_
    show kept (f node).name? = _
    rw [names, kept_name? options]
  have members : ∀ k,
      ((nodes.map f).filter fun node => node.name? = k).flatMap (Node.tags options) =
      (kept k).elim [] fun name =>
        ((sprouts options nodes).filter fun e => e.name = name).flatMap Element.tags := by
    intro k
    rw [← flatMap_filter_name? tags k, List.filter_map, List.flatMap_map]
    congr 1
    refine List.filter_congr fun node _ => ?_
    simp [names]
  have injective : ∀ {j k : Option String} {b}, kept j = some b → kept k = some b → j = k := by
    intro j k b left right
    rw [eq_some_of_kept left, eq_some_of_kept right]
  rw [nodesTags_eq_flatMap, gather, List.flatMap_assoc, flatMap_eraseDups injective members, listed,
    gather, List.flatMap_assoc]

def Node.text? : Node → Option String
  | .text content => some content
  | _ => none

def wording (nodes : List Node) : String := String.join (nodes.filterMap Node.text?)

theorem settledText_eq (options : ParseOptions) (nodes : List Node) :
    settledText options nodes =
      if options.trim then Text.trim (wording nodes)
      else if Text.trim (wording nodes) = "" then "" else wording nodes :=
  rfl

theorem settledText_congr {l m : List Node}
    (same : l.filterMap Node.text? = m.filterMap Node.text?) :
    settledText options l = settledText options m := by
  rw [settledText_eq, settledText_eq, wording, wording, same]

theorem settledText_gather (options : ParseOptions) (nodes : List Node) :
    settledText options (gather Node.name? nodes) = settledText options nodes := by
  have nameless (l : List Node) :
      l.filterMap Node.text? = (l.filter fun node => node.name? = none).filterMap Node.text? := by
    rw [List.filterMap_filter]
    refine List.filterMap_congr fun node _ => ?_
    cases node <;> rfl
  refine settledText_congr ?_
  rw [nameless, filter_gather, ← nameless]

theorem settledText_arrangedAll (options : ParseOptions) (nodes : List Node) :
    settledText options (arrangedAll nodes) = settledText options nodes := by
  refine settledText_congr ?_
  rw [arrangedAll_eq_map, List.filterMap_map]
  refine List.filterMap_congr fun node _ => ?_
  cases node <;> rfl

end Arrangement

section Orders

variable {options : ParseOptions}

theorem flatMap_sprouts (nodes : List Node) :
    (sprouts options nodes).flatMap Element.tags =
      nodes.flatMap fun node => (node.sprout? options).elim [] Element.tags := by
  induction nodes with
  | nil => rfl
  | cons node rest ih =>
    rw [sprouts] at ih ⊢
    rw [List.flatMap_cons]
    cases sprouted : node.sprout? options with
    | none => rw [List.filterMap_cons_none sprouted, ih]; rfl
    | some e => rw [List.filterMap_cons_some sprouted, List.flatMap_cons, ih]; rfl

theorem fieldsTags_document (document : options.order = .document) {nodes : List Node}
    (tags : ∀ node ∈ nodes, node.tags options = (node.sprout? options).elim [] Element.tags) :
    fieldsTags (growAll options [] nodes).1 = nodesTags options nodes := by
  have own : ∀ e ∈ sprouts options nodes, (Field.ofElement e).tags = e.tags :=
    fun _ mem => Field.tags_ofElement (not_reserved_of_mem_sprouts mem)
  rw [growAll_eq_foldl, document, fieldsTags_foldl_document, List.flatMap_congr own,
    flatMap_sprouts, nodesTags_eq_flatMap]
  exact (List.flatMap_congr tags).symm

theorem fieldsTags_grouped (grouped : options.order = .grouped) {nodes : List Node}
    (tags : ∀ node ∈ nodes,
      node.arranged.tags options = (node.sprout? options).elim [] Element.tags) :
    fieldsTags (growAll options [] nodes).1 =
      nodesTags options (gather Node.name? (arrangedAll nodes)) := by
  have free : ∀ e ∈ sprouts options nodes, isReserved e.name = false :=
    fun _ mem => not_reserved_of_mem_sprouts mem
  rw [growAll_eq_foldl, grouped, fieldsTags_foldl_grouped free, arrangedAll_eq_map,
    nodesTags_gather name?_arranged tags]

mutual

theorem tags_document (document : options.order = .document) :
    ∀ node : Node, node.tags options = (node.sprout? options).elim [] Element.tags
  | .element name attributes place nodes => by
    have below := fieldsTags_document document (allTags_document document nodes)
    rw [Node.tags, Node.sprout?]
    split
    · rfl
    · rw [← below]
      rfl
  | .text _ => rfl
  | .comment _ => rfl
  | .instruction _ _ => rfl

theorem allTags_document (document : options.order = .document) :
    ∀ nodes : List Node, ∀ node ∈ nodes,
      node.tags options = (node.sprout? options).elim [] Element.tags
  | [] => by simp
  | node :: rest =>
    List.forall_mem_cons.2 ⟨tags_document document node, allTags_document document rest⟩

end

mutual

theorem tags_grouped (grouped : options.order = .grouped) :
    ∀ node : Node, node.arranged.tags options = (node.sprout? options).elim [] Element.tags
  | .element name attributes place nodes => by
    have below := fieldsTags_grouped grouped (allTags_grouped grouped nodes)
    rw [Node.arranged, Node.tags, Node.sprout?, settledText_gather, settledText_arrangedAll]
    split
    · rfl
    · rw [← below]
      rfl
  | .text _ => rfl
  | .comment _ => rfl
  | .instruction _ _ => rfl

theorem allTags_grouped (grouped : options.order = .grouped) :
    ∀ nodes : List Node, ∀ node ∈ nodes,
      node.arranged.tags options = (node.sprout? options).elim [] Element.tags
  | [] => by simp
  | node :: rest =>
    List.forall_mem_cons.2 ⟨tags_grouped grouped node, allTags_grouped grouped rest⟩

end

/-- What is grown from nodes has the tags of the nodes, arranged as the order asks. -/
theorem fieldsTags_growAll (options : ParseOptions) (nodes : List Node) :
    fieldsTags (growAll options [] nodes).1 =
      nodesTags options (options.order.arrange nodes) := by
  cases order : options.order with
  | document => exact fieldsTags_document order (allTags_document order nodes)
  | grouped => exact fieldsTags_grouped order (allTags_grouped order nodes)

mutual

theorem tags_arranged_perm (options : ParseOptions) :
    ∀ node : Node, (node.arranged.tags options).Perm (node.tags options)
  | .element name attributes place nodes => by
    rw [Node.arranged, Node.tags, Node.tags, settledText_gather, settledText_arrangedAll]
    split
    · exact .nil
    · refine .cons _ (.trans ?_ (nodesTags_arrangedAll_perm options nodes))
      rw [nodesTags_eq_flatMap, nodesTags_eq_flatMap]
      exact (gather_perm Node.name? (arrangedAll nodes)).flatMap_right _
  | .text _ => .nil
  | .comment _ => .nil
  | .instruction _ _ => .nil

theorem nodesTags_arrangedAll_perm (options : ParseOptions) :
    ∀ nodes : List Node, (nodesTags options (arrangedAll nodes)).Perm (nodesTags options nodes)
  | [] => .nil
  | node :: rest =>
    (tags_arranged_perm options node).append (nodesTags_arrangedAll_perm options rest)

end

theorem nodesTags_arrange_perm (options : ParseOptions) (nodes : List Node) :
    (nodesTags options (options.order.arrange nodes)).Perm (nodesTags options nodes) := by
  cases options.order with
  | document => exact .refl _
  | grouped =>
    refine .trans ?_ (nodesTags_arrangedAll_perm options nodes)
    rw [nodesTags_eq_flatMap, nodesTags_eq_flatMap]
    exact (gather_perm Node.name? (arrangedAll nodes)).flatMap_right _

end Orders

end Folio.Markup

namespace Folio.Registry

open Markup (Node NodeReader ParseOptions parse nodesTags growAll fieldsTags_growAll
  nodesTags_arrange_perm)

/-- Handlers are called for the elements of the markup in the order that the options ask for. -/
theorem pass_in_markup_order (registry : Registry) (options : ParseOptions) {reader : NodeReader}
    {markup : String} {attributes : List (String × String)} {place : Markup.Position}
    {nodes : List Node}
    (tree : reader markup = .ok (.element options.rootTag attributes place nodes)) :
    ∃ root records, parse options markup reader = .ok (root, records) ∧
      let tags := nodesTags options (options.order.arrange nodes)
      registry.pass root.children = (registry.dispatchAll {} tags).run ∧
      tags.Perm (nodesTags options nodes) ∧
      ∀ {σ : Type} (backend : Backend σ), registry.Succeeds backend → ∀ s, ∃ after,
        backend.called? (registry.calls tags) s = some after ∧
        ((registry.pass root.children).run backend s).session = after ∧
        ((registry.pass root.children).run backend s).result =
          .ok ⟨(registry.calls tags).length,
            tags.countP fun tag => (registry.get? tag.name).isNone⟩ := by
  have parsed : parse options markup reader =
      .ok (.mk options.rootTag (Markup.settledText options nodes) (.ofList attributes)
        (growAll options [] nodes).1, (growAll options [] nodes).2) := by
    rw [parse, tree]
    exact if_neg (fun different => different rfl)
  have course : registry.pass (growAll options [] nodes).1 =
      (registry.dispatchAll {} (nodesTags options (options.order.arrange nodes))).run := by
    rw [pass, walk_eq_dispatchAll, fieldsTags_growAll]
  refine ⟨_, _, parsed, course, nodesTags_arrange_perm options nodes, ?_⟩
  intro σ backend succeeds s
  obtain ⟨after, called⟩ :=
    succeeds.called? backend (nodesTags options (options.order.arrange nodes)) s
  obtain ⟨result, session⟩ := run_dispatchAll backend called {}
  refine ⟨after, called, ?_, ?_⟩
  · rw [Markup.Element.children_mk, course, session]
  · rw [Markup.Element.children_mk, course, result, Nat.zero_add, Nat.zero_add]

def sketchBackend : Backend (List Drawing) where
  create _ := .ok []
  draw what drawn := { result := .ok (), session := drawn ++ [what] }
  finalize _ drawn := { result := .error .noRuntime, session := drawn }
  abandon drawn := { result := (), session := drawn }

theorem pass_gathers_siblings :
    let options : ParseOptions := { order := .grouped }
    let registry : Registry :=
      Table.empty.insert "a" fun tag => Handling.draw (.drawText tag.text {})
    registry.Succeeds sketchBackend ∧ ∃ root records,
      parse options "<document><a>1</a><b/><attrs><a/></attrs><a>2</a></document>" =
        .ok (root, records) ∧
      registry.pass root.children =
        (registry.dispatchAll {}
          [⟨"a", .empty, "1"⟩, ⟨"a", .empty, "2"⟩, ⟨"b", .empty, ""⟩]).run ∧
      ((registry.pass root.children).run sketchBackend []).session =
        [.drawText "1" {}, .drawText "2" {}] ∧
      ((registry.pass root.children).run sketchBackend []).result = .ok ⟨2, 1⟩ := by
  intro options registry
  have succeeds : registry.Succeeds sketchBackend := by
    intro name handler handled tag s
    rw [Table.get?_insert, Table.get?_empty] at handled
    split at handled
    · cases handled
      rfl
    · cases handled
  have tree : Node.ofString "<document><a>1</a><b/><attrs><a/></attrs><a>2</a></document>" =
      .ok (.element options.rootTag [] ⟨1, 1⟩
        [.element "a" [] ⟨1, 11⟩ [.text "1"], .element "b" [] ⟨1, 19⟩ [],
         .element "attrs" [] ⟨1, 23⟩ [.element "a" [] ⟨1, 30⟩ []],
         .element "a" [] ⟨1, 42⟩ [.text "2"]]) := by with_unfolding_all rfl
  obtain ⟨root, records, parsed, course, _, fares⟩ := pass_in_markup_order registry options tree
  obtain ⟨after, called, session, result⟩ := fares sketchBackend succeeds []
  refine ⟨succeeds, root, records, parsed, ?_, ?_, ?_⟩
  · rw [course]
    rfl
  · rw [session]
    exact Option.some.inj (called.symm.trans rfl)
  · rw [result]
    rfl

end Folio.Registry
