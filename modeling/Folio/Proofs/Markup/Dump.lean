import Folio.Proofs.Markup.NormalForm
import Folio.Proofs.Ordered

/-! # The serialized tree

A serialized element leaves out its name and all that is empty, and only its shape tells whether a
field holds one element or several. Still nothing is lost: as every field has the name of its
elements, an element can be built again from its name and from its value, whatever the order of the
members in it.
-/

namespace Folio

namespace Json

mutual

/-- The value without regard to the order of members: in every object the members stand in the order
of their keys, and the last one of a key counts. -/
def settled : Json → Json
  | .list items => .list (settledItems items)
  | .object members => .object (Ordered.ofList (settledMembers members))
  | .null => .null
  | .bool b => .bool b
  | .int n => .int n
  | .number x => .number x
  | .text s => .text s

def settledItems : List Json → List Json
  | [] => []
  | item :: rest => item.settled :: settledItems rest

def settledMembers : List (String × Json) → List (String × Json)
  | [] => []
  | (key, value) :: rest => (key, value.settled) :: settledMembers rest

end

theorem settledMembers_append (front behind : List (String × Json)) :
    settledMembers (front ++ behind) = settledMembers front ++ settledMembers behind := by
  induction front with
  | nil => rfl
  | cons first rest ih =>
    rw [List.cons_append, settledMembers, ih, settledMembers, List.cons_append]

end Json

namespace Table

theorem entries_ofList {α : Type} (pairs : List (String × α)) :
    (ofList pairs).entries = Ordered.ofList pairs :=
  (List.foldl_hom entries fun _ _ => rfl).symm

theorem ofList_entries {α : Type} (t : Table α) : ofList t.entries = t := by
  apply ext
  rw [entries_ofList, Ordered.ofList_of_sorted String.lt_irrefl String.lt_asymm t.sorted]

end Table

namespace Markup

def Element.withAttributes (e : Element) (attributes : Attributes) : Element :=
  .mk e.name e.text attributes e.children

def Element.withChildren (e : Element) (children : Children) : Element :=
  .mk e.name e.text e.attributes children

def attributeOfJson? : String × Json → Option (String × String)
  | (name, .text value) => some (name, value)
  | _ => none

def attributesOfJson? (members : List (String × Json)) : Option Attributes :=
  (members.mapM attributeOfJson?).map .ofList

mutual

def Element.withMembers? (e : Element) : List (String × Json) → Option Element
  | [] => some e
  | (key, .text text) :: rest =>
    if key = textKey then (e.withText text).withMembers? rest else none
  | (key, .object members) :: rest =>
    if key = attributesKey then
      (attributesOfJson? members).bind fun attributes =>
        (e.withAttributes attributes).withMembers? rest
    else none
  | (key, .list items) :: rest =>
    if key = "children" then
      (fieldsOfJson? items).bind fun children => (e.withChildren children).withMembers? rest
    else none
  | _ :: _ => none

def fieldsOfJson? : List Json → Option (List Field)
  | [] => some []
  | .object [(name, value)] :: rest =>
    (Child.ofJson? name value).bind fun child =>
      (fieldsOfJson? rest).map fun fields => .mk name child :: fields
  | _ :: _ => none

/-- The elements of one name that a value tells: an object tells one, a list any number. -/
def Child.ofJson? (name : String) : Json → Option Child
  | .object members => ((Element.named name).withMembers? members).map .single
  | .list items => (elementsOfJson? name items).map .repeated
  | _ => none

def elementsOfJson? (name : String) : List Json → Option (List Element)
  | [] => some []
  | .object members :: rest =>
    ((Element.named name).withMembers? members).bind fun e =>
      (elementsOfJson? name rest).map fun es => e :: es
  | _ :: _ => none

end

def Element.ofJson? (name : String) : Json → Option Element
  | .object members => (Element.named name).withMembers? members
  | _ => none

section Attributes

def attributeJson (p : String × String) : String × Json := (p.1, .text p.2)

theorem attributesOfJson?_entries (attributes : Attributes) :
    attributesOfJson? (attributes.entries.map attributeJson) = some attributes := by
  have all (entries : List (String × String)) :
      (entries.map attributeJson).mapM attributeOfJson? = some entries := by
    induction entries with
    | nil => rfl
    | cons p rest ih => rw [List.map_cons, List.mapM_cons, ih]; rfl
  rw [attributesOfJson?, all, Option.map_some, Table.ofList_entries]

theorem settledMembers_entries (attributes : Attributes) :
    Ordered.ofList (Json.settledMembers (attributes.entries.map attributeJson)) =
      attributes.entries.map attributeJson := by
  have texts (entries : List (String × String)) :
      Json.settledMembers (entries.map attributeJson) = entries.map attributeJson := by
    induction entries with
    | nil => rfl
    | cons p rest ih => rw [List.map_cons, attributeJson, Json.settledMembers, ih]; rfl
  rw [texts, Ordered.ofList_of_sorted String.lt_irrefl String.lt_asymm]
  exact List.pairwise_map.2 attributes.sorted

end Attributes

section Members

def member (key : String) (value? : Option Json) : List (String × Json) :=
  value?.toList.map fun value => (key, value)

def attributesJson? (attributes : Attributes) : Option Json :=
  if attributes.isEmpty then none else some (.object (attributes.entries.map attributeJson))

def childrenJson? (children : Children) : Option Json :=
  if children.isEmpty then none else some (.list (fieldsToJson children))

theorem toJson_eq (name text : String) (attributes : Attributes) (children : Children) :
    (Element.mk name text attributes children).toJson =
      .object ((textKey, .text text) :: (member attributesKey (attributesJson? attributes) ++
        member "children" (childrenJson? children))) := by
  rw [attributesJson?]
  cases children with
  | nil =>
    rw [Element.toJson]
    split
    · rfl
    · rfl
  | cons f rest =>
    rw [Element.toJson]
    split
    · rfl
    · rfl

theorem settledMembers_member (key : String) (value? : Option Json) :
    Json.settledMembers (member key value?) = member key (value?.map Json.settled) := by
  cases value? with
  | none => rfl
  | some value => rfl

theorem settled_attributesJson? (attributes : Attributes) :
    (attributesJson? attributes).map Json.settled = attributesJson? attributes := by
  rw [attributesJson?]
  split
  · rfl
  · rw [Option.map_some, Json.settled, settledMembers_entries]

theorem ofList_members (text : Json) (attributes? children? : Option Json) :
    Ordered.ofList ((textKey, text) :: (member attributesKey attributes? ++
      member "children" children?)) =
      member attributesKey attributes? ++ (member "children" children? ++ [(textKey, text)]) := by
  -- Members are placed one by one, each of the later ones in front of the text.
  have first : attributesKey < "children" := by decide
  have last : "children" < textKey := by decide
  have ahead {key : String} (lt : key < textKey) (value : Json) :
      Ordered.place key value (Ordered.place textKey text []) = [(key, value), (textKey, text)] :=
    Ordered.place_of_below value (List.forall_mem_singleton.2 lt)
  cases attributes? with
  | none =>
    cases children? with
    | none => rfl
    | some children =>
      simp only [member, Ordered.ofList, Option.toList, List.map, List.nil_append, List.foldl]
      exact ahead last children
  | some attributes =>
    have front := ahead (String.lt_trans first last) attributes
    cases children? with
    | none =>
      simp only [member, Ordered.ofList, Option.toList, List.map, List.append_nil, List.foldl]
      exact front
    | some children =>
      simp only [member, Ordered.ofList, Option.toList, List.map, List.cons_append,
        List.nil_append, List.foldl]
      rw [front, Ordered.place_cons_of_lt String.lt_irrefl String.lt_asymm first]
      exact congrArg _ (ahead last children)

theorem settled_toJson (name text : String) (attributes : Attributes) (children : Children) :
    (Element.mk name text attributes children).toJson.settled =
      .object (member attributesKey (attributesJson? attributes) ++
        (member "children" ((childrenJson? children).map Json.settled) ++
          [(textKey, .text text)])) := by
  rw [toJson_eq, Json.settled, Json.settledMembers, Json.settledMembers_append,
    settledMembers_member, settledMembers_member, settled_attributesJson?, Json.settled,
    ofList_members]

variable {e : Element}

theorem withMembers?_attributes (new : e.attributes = .empty) (attributes : Attributes)
    (rest : List (String × Json)) :
    e.withMembers? (member attributesKey (attributesJson? attributes) ++ rest) =
      (e.withAttributes attributes).withMembers? rest := by
  rw [attributesJson?]
  split
  · rename_i none
    have empty : attributes = .empty := Table.ext (List.isEmpty_iff.1 none)
    obtain ⟨name, text, _, children⟩ := e
    obtain rfl := new
    rw [empty]
    rfl
  · show e.withMembers? ((attributesKey, .object _) :: rest) = _
    rw [Element.withMembers?, if_pos rfl, attributesOfJson?_entries]
    rfl

theorem withMembers?_children (new : e.children = []) {children : Children}
    (told : fieldsOfJson? (Json.settledItems (fieldsToJson children)) = some children)
    (rest : List (String × Json)) :
    e.withMembers? (member "children" ((childrenJson? children).map Json.settled) ++ rest) =
      (e.withChildren children).withMembers? rest := by
  cases children with
  | nil =>
    obtain ⟨name, text, attributes, _⟩ := e
    obtain rfl := new
    rfl
  | cons f fields =>
    show e.withMembers? (("children", .list _) :: rest) = _
    rw [Element.withMembers?, if_pos rfl, told]
    rfl

theorem withMembers?_members (name text : String) (attributes : Attributes) {children : Children}
    (below : fieldsOfJson? (Json.settledItems (fieldsToJson children)) = some children) :
    (Element.named name).withMembers? (member attributesKey (attributesJson? attributes) ++
      (member "children" ((childrenJson? children).map Json.settled) ++ [(textKey, .text text)])) =
      some (.mk name text attributes children) := by
  rw [withMembers?_attributes rfl, withMembers?_children rfl below, Element.withMembers?,
    if_pos rfl]
  rfl

end Members

/-- At every depth, fields have the name of their elements. -/
def Element.Faithful (root : Element) : Prop :=
  ∀ e : Element, e.Within root → ∀ f ∈ e.children, ∀ child ∈ f.elements, child.name = f.name

def FieldsFaithful (c : Children) : Prop :=
  ∀ f ∈ c, ∀ child ∈ f.elements, child.name = f.name ∧ child.Faithful

theorem Element.faithful_iff {e : Element} : e.Faithful ↔ FieldsFaithful e.children := by
  constructor
  · intro faithful f held child listed
    have below : child ∈ e.children.elements := List.mem_flatMap.2 ⟨f, held, listed⟩
    exact ⟨faithful e .root f held child listed,
      fun other within => faithful other (.child below within)⟩
  · intro faithful other within
    cases within with
    | root => exact fun f held child listed => (faithful f held child listed).1
    | child listed within =>
      obtain ⟨f, held, listed⟩ := List.mem_flatMap.1 listed
      exact (faithful f held _ listed).2 other within

mutual

theorem withMembers?_toJson : ∀ e : Element, e.Faithful → ∃ members,
    e.toJson.settled = .object members ∧ (Element.named e.name).withMembers? members = some e
  | .mk name text attributes children, faithful => by
    have below := fieldsOfJson?_toJson children (Element.faithful_iff.1 faithful)
    exact ⟨_, settled_toJson name text attributes children,
      withMembers?_members name text attributes below⟩

theorem fieldsOfJson?_toJson : ∀ c : List Field, FieldsFaithful c →
    fieldsOfJson? (Json.settledItems (fieldsToJson c)) = some c
  | [], _ => rfl
  | .mk name value :: rest, faithful => by
    obtain ⟨first, others⟩ := List.forall_mem_cons.1 faithful
    have told := childOfJson?_toJson name value first
    have behind := fieldsOfJson?_toJson rest others
    have item : (Field.mk name value).toJson.settled = .object [(name, value.toJson.settled)] := rfl
    rw [fieldsToJson, Json.settledItems, item, fieldsOfJson?, told, behind]
    rfl

theorem childOfJson?_toJson (name : String) : ∀ c : Child,
    (∀ e ∈ c.elements, e.name = name ∧ e.Faithful) →
      Child.ofJson? name c.toJson.settled = some c
  | .single e, faithful => by
    obtain ⟨rfl, below⟩ := faithful e List.mem_cons_self
    obtain ⟨members, object, told⟩ := withMembers?_toJson e below
    rw [Child.toJson, object, Child.ofJson?, told]
    rfl
  | .repeated es, faithful => by
    have told := elementsOfJson?_toJson name es faithful
    rw [Child.toJson, Json.settled, Child.ofJson?, told]
    rfl

theorem elementsOfJson?_toJson (name : String) : ∀ es : List Element,
    (∀ e ∈ es, e.name = name ∧ e.Faithful) →
      elementsOfJson? name (Json.settledItems (elementsToJson es)) = some es
  | [], _ => rfl
  | e :: rest, faithful => by
    obtain ⟨⟨rfl, below⟩, others⟩ := List.forall_mem_cons.1 faithful
    obtain ⟨members, object, told⟩ := withMembers?_toJson e below
    have behind := elementsOfJson?_toJson e.name rest others
    rw [elementsToJson, Json.settledItems, object, elementsOfJson?, told, behind]
    rfl

end

theorem Element.Faithful.ofJson?_toJson {e : Element} (faithful : e.Faithful) :
    Element.ofJson? e.name e.toJson.settled = some e := by
  obtain ⟨members, object, told⟩ := withMembers?_toJson e faithful
  rw [object, Element.ofJson?, told]

/-- The elements that are read from documents, or built, or found below such an element. -/
inductive Element.Obtained : Element → Prop
  | read {reader : NodeReader} {options : ParseOptions} {markup : String} {e : Element}
      {records : List Record} (parsed : parse options markup reader = .ok (e, records)) : Obtained e
  | named (name : String) : Obtained (.named name)
  | withText {e : Element} (obtained : Obtained e) (text : String) : Obtained (e.withText text)
  | withAttribute {e : Element} (obtained : Obtained e) (name value : String) :
      Obtained (e.withAttribute name value)
  | withChild {e child : Element} (obtained : Obtained e) (other : Obtained child) :
      Obtained (e.withChild child)
  | found {e child : Element} (obtained : Obtained e) (listed : child ∈ e.children.elements) :
      Obtained child

theorem exists_grown_of_parse {reader : NodeReader} {options : ParseOptions} {markup : String}
    {root : Element} {records : List Record}
    (parsed : parse options markup reader = .ok (root, records)) :
    ∃ name attributes nodes, root = grown options name attributes nodes := by
  rw [parse] at parsed
  split at parsed
  · cases parsed
  · split at parsed
    · cases parsed
    · exact ⟨_, _, _, (congrArg Prod.fst (Except.ok.inj parsed)).symm⟩
  · cases parsed

theorem FieldsFaithful.push {c : Children} {e : Element} (faithful : FieldsFaithful c)
    (own : e.Faithful) (order : SiblingOrder) : FieldsFaithful (c.push e order) := by
  intro f held child listed
  rcases Children.mem_push held with old | rfl | ⟨g, old, same, rfl⟩
  · exact faithful f old child listed
  · obtain rfl := List.mem_singleton.1 listed
    exact ⟨rfl, own⟩
  · rw [Field.elements_append, List.mem_append, List.mem_singleton] at listed
    rcases listed with earlier | rfl
    · exact faithful g old child earlier
    · exact ⟨same.symm, own⟩

theorem Element.Obtained.faithful {e : Element} (obtained : e.Obtained) : e.Faithful := by
  induction obtained with
  | read parsed =>
    intro e within f held child listed
    obtain ⟨name, attributes, nodes, rfl⟩ := within.exists_grown (exists_grown_of_parse parsed)
    exact ((normal_grown _ name attributes nodes).sound f held).named child listed
  | named name => exact Element.faithful_iff.2 nofun
  | @withText e _ text ih =>
    exact Element.faithful_iff.2 (Element.faithful_iff (e := e).1 ih)
  | @withAttribute e _ name value ih =>
    exact Element.faithful_iff.2 (Element.faithful_iff (e := e).1 ih)
  | withChild _ _ ih own =>
    exact Element.faithful_iff.2 ((Element.faithful_iff.1 ih).push own .document)
  | found _ listed ih => exact fun other within => ih other (.child listed within)

/-- An element is built again from its name and its serialized value, in which objects count as
maps. So elements of one name with the same value are the same, with all that is below them. -/
theorem dumped_tree_lossless {a b : Element} (one : a.Obtained) (other : b.Obtained) :
    Element.ofJson? a.name a.toJson.settled = some a ∧
      (a.name = b.name → a.toJson.settled = b.toJson.settled → a = b) := by
  have first := one.faithful.ofJson?_toJson
  refine ⟨first, fun named same => ?_⟩
  have second := other.faithful.ofJson?_toJson
  rw [← named, ← same, first] at second
  exact Option.some.inj second

theorem dumped_tree_lossless_built :
    let options : ParseOptions := { rootTag := "a", order := .grouped }
    let built := (((Element.named "a").withAttribute "k" "v").withChild (.named "b")).withChild
      ((Element.named "b").withText "t")
    ∃ root records, parse options "<a k='v'><b/><b>t</b></a>" = .ok (root, records) ∧
      root.name = built.name ∧ root.toJson.settled = built.toJson.settled ∧
      Element.ofJson? "a" root.toJson.settled = some root ∧ root = built := by
  intro options built
  let root : Element := .mk "a" "" (Table.empty.insert "k" "v")
    [.mk "b" (.repeated [.named "b", .mk "b" "t" .empty []])]
  have tree : Node.ofString "<a k='v'><b/><b>t</b></a>" =
      .ok (.element "a" [("k", "v")] ⟨1, 1⟩
        [.element "b" [] ⟨1, 10⟩ [], .element "b" [] ⟨1, 14⟩ [.text "t"]]) := by
    with_unfolding_all rfl
  have parsed : parse options "<a k='v'><b/><b>t</b></a>" = .ok (root, []) := by
    rw [parse, tree]
    rfl
  have made : built.Obtained :=
    .withChild (.withChild (.withAttribute (.named "a") "k" "v") (.named "b"))
      (.withText (.named "b") "t")
  have same : root.toJson.settled = built.toJson.settled := rfl
  obtain ⟨told, equal⟩ := dumped_tree_lossless (.read parsed) made
  exact ⟨root, [], parsed, rfl, same, told, equal rfl same⟩

end Markup

end Folio
