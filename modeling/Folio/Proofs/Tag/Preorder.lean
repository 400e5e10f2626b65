import Folio.Session.Backend
import Folio.Tag.Pass

/-! # The pass as a fold

A pass goes once through a list of tags: those of the elements under no reserved name, each in
front of the tags below it. Its course is the fold of `dispatch` over that list, so everything
about the order of calls is about the list.
-/

namespace Folio

instance : LawfulMonad Script := by
  refine LawfulMonad.mk' Script ?_ ?_ ?_
  · intro α s
    exact s.bind_done
  · intros
    rfl
  · intro α β γ s f g
    exact s.bind_assoc f g

namespace Markup

mutual

def Element.tags : Element → List Tag
  | .mk name text attributes children => ⟨name, attributes, text⟩ :: fieldsTags children

def fieldsTags : List Field → List Tag
  | [] => []
  | field :: rest => field.tags ++ fieldsTags rest

def Field.tags : Field → List Tag
  | .mk name value => if isReserved name then [] else value.tags

def Child.tags : Child → List Tag
  | .single element => element.tags
  | .repeated elements => elementsTags elements

def elementsTags : List Element → List Tag
  | [] => []
  | element :: rest => element.tags ++ elementsTags rest

end

theorem Element.tags_eq (e : Element) :
    e.tags = ⟨e.name, e.attributes, e.text⟩ :: fieldsTags e.children := by
  cases e
  rfl

theorem elementsTags_eq_flatMap (es : List Element) :
    elementsTags es = es.flatMap Element.tags := by
  induction es with
  | nil => rfl
  | cons e rest ih => rw [elementsTags, ih, List.flatMap_cons]

theorem Child.tags_eq_flatMap (c : Child) : c.tags = c.elements.flatMap Element.tags := by
  cases c with
  | single e => simp [Child.tags, Child.elements]
  | repeated es => exact elementsTags_eq_flatMap es

theorem Field.tags_of_reserved {f : Field} (h : isReserved f.name = true) : f.tags = [] := by
  obtain ⟨name, value⟩ := f
  change isReserved name = true at h
  rw [Field.tags, h]
  rfl

theorem Field.tags_of_not_reserved {f : Field} (h : isReserved f.name = false) :
    f.tags = f.elements.flatMap Element.tags := by
  obtain ⟨name, value⟩ := f
  change isReserved name = false at h
  rw [Field.tags, h]
  exact value.tags_eq_flatMap

theorem Field.tags_ofElement {e : Element} (h : isReserved e.name = false) :
    (Field.ofElement e).tags = e.tags := by
  rw [Field.tags_of_not_reserved (f := .ofElement e) h]
  exact List.append_nil _

theorem fieldsTags_pushLast (e : Element) (c : Children) :
    fieldsTags (c.pushLast e) = fieldsTags c ++ (Field.ofElement e).tags := by
  induction c with
  | nil => exact List.append_nil _
  | cons f rest ih =>
    cases rest with
    | cons g rest =>
      rw [Children.pushLast, fieldsTags, ih, ← List.append_assoc]
      rfl
    | nil =>
      rw [Children.pushLast]
      split
      · rename_i same
        have grown : (f.append e).tags = f.tags ++ (Field.ofElement e).tags := by
          cases reserved : isReserved e.name with
          | true =>
            rw [Field.tags_of_reserved (f := f.append e) (same ▸ reserved),
              Field.tags_of_reserved (f := f) (same ▸ reserved),
              Field.tags_of_reserved (f := .ofElement e) reserved]
            rfl
          | false =>
            rw [Field.tags_of_not_reserved (f := f.append e) (same ▸ reserved),
              Field.tags_of_not_reserved (f := f) (same ▸ reserved),
              Field.tags_of_not_reserved (f := .ofElement e) reserved, Field.elements_append,
              List.flatMap_append]
            rfl
        simp only [fieldsTags, grown, List.append_nil]
      · simp only [fieldsTags, List.append_nil]

theorem fieldsTags_foldl_document (es : List Element) (c : Children) :
    fieldsTags (es.foldl (fun (c : Children) e => c.push e .document) c) =
      fieldsTags c ++ es.flatMap fun e => (Field.ofElement e).tags := by
  induction es generalizing c with
  | nil => exact (List.append_nil _).symm
  | cons e es ih =>
    rw [List.foldl_cons, ih, show c.push e .document = c.pushLast e from rfl,
      fieldsTags_pushLast, List.flatMap_cons, List.append_assoc]

end Markup

namespace Registry

open Markup (Element Field Child isReserved fieldsTags elementsTags)

variable (registry : Registry)

def dispatchAll (summary : Summary) (tags : List Tag) : Handling Summary :=
  tags.foldlM (fun summary tag => registry.dispatch tag summary) summary

theorem dispatchAll_append (summary : Summary) (front behind : List Tag) :
    registry.dispatchAll summary (front ++ behind) =
      registry.dispatchAll summary front >>= fun summary => registry.dispatchAll summary behind :=
  List.foldlM_append

mutual

theorem visit_eq_dispatchAll (summary : Summary) :
    ∀ e : Element, registry.visit summary e = registry.dispatchAll summary e.tags
  | .mk name text attributes children => by
    have below := fun summary => walk_eq_dispatchAll summary children
    simp only [visit, below, Element.tags, dispatchAll, List.foldlM_cons]

theorem walk_eq_dispatchAll (summary : Summary) :
    ∀ fields : List Field, registry.walk summary fields =
      registry.dispatchAll summary (fieldsTags fields)
  | [] => rfl
  | field :: rest => by
    have behind := fun summary => walk_eq_dispatchAll summary rest
    simp only [walk, visitField_eq_dispatchAll summary field, behind, fieldsTags,
      dispatchAll_append]

theorem visitField_eq_dispatchAll (summary : Summary) :
    ∀ field : Field, registry.visitField summary field = registry.dispatchAll summary field.tags
  | .mk name value => by
    rw [visitField, Field.tags, visitChild_eq_dispatchAll summary value]
    split
    · rfl
    · rfl

theorem visitChild_eq_dispatchAll (summary : Summary) :
    ∀ child : Child, registry.visitChild summary child = registry.dispatchAll summary child.tags
  | .single element => visit_eq_dispatchAll summary element
  | .repeated elements => visitAll_eq_dispatchAll summary elements

theorem visitAll_eq_dispatchAll (summary : Summary) :
    ∀ elements : List Element, registry.visitAll summary elements =
      registry.dispatchAll summary (elementsTags elements)
  | [] => rfl
  | element :: rest => by
    have behind := fun summary => visitAll_eq_dispatchAll summary rest
    simp only [visitAll, visit_eq_dispatchAll summary element, behind, elementsTags,
      dispatchAll_append]

end

def calls (tags : List Tag) : List (Tag × Handler) :=
  tags.filterMap fun tag => (registry.get? tag.name).map fun handler => (tag, handler)

variable {registry}

theorem calls_cons_of_none {tag : Tag} (unhandled : registry.get? tag.name = none)
    (rest : List Tag) : registry.calls (tag :: rest) = registry.calls rest :=
  List.filterMap_cons_none (by rw [unhandled]; rfl)

theorem calls_cons_of_some {tag : Tag} {handler : Handler}
    (handled : registry.get? tag.name = some handler) (rest : List Tag) :
    registry.calls (tag :: rest) = (tag, handler) :: registry.calls rest :=
  List.filterMap_cons_some (by rw [handled]; rfl)

end Registry

section Runs

variable {α β σ : Type} (backend : Backend σ)

/-- The session after some calls in a row, if none of them fails. -/
def Backend.called? : List (Tag × Handler) → σ → Option σ
  | [], s => some s
  | (tag, handler) :: rest, s =>
    let reply := (handler tag).run.run backend s
    match reply.result with
    | .ok () => called? rest reply.session
    | .error _ => none

/-- Every handler succeeds, whatever tag it is given and whatever state the session is in. -/
def Registry.Succeeds (registry : Registry) : Prop :=
  ∀ name handler, registry.get? name = some handler →
    ∀ tag s, ((handler tag).run.run backend s).result = .ok ()

theorem Registry.Succeeds.called? {registry : Registry} (h : registry.Succeeds backend)
    (tags : List Tag) (s : σ) : ∃ after, backend.called? (registry.calls tags) s = some after := by
  induction tags generalizing s with
  | nil => exact ⟨s, rfl⟩
  | cons tag rest ih =>
    cases handled : registry.get? tag.name with
    | none =>
      have same := Registry.calls_cons_of_none handled rest
      rw [same]
      exact ih s
    | some handler =>
      have more := Registry.calls_cons_of_some handled rest
      obtain ⟨after, called⟩ := ih ((handler tag).run.run backend s).session
      refine ⟨after, ?_⟩
      rw [more, Backend.called?]
      simp only [h tag.name handler handled tag s]
      exact called

theorem Script.run_bind (script : Script α) (next : α → Script β) (s : σ) :
    (script >>= next).run backend s =
      ((next (script.run backend s).result).run backend (script.run backend s).session).after
        (script.run backend s).records := by
  induction script generalizing s with
  | done a => rfl
  | say record script ih =>
    simp only [Script.say_bind, Script.run, ih, Reply.after_after]
    rfl
  | draw what script ih =>
    simp only [Script.draw_bind, Script.run, ih, Reply.after_after]
    rfl
  | finalize runtime script ih =>
    simp only [Script.finalize_bind, Script.run, ih, Reply.after_after]
    rfl
  | abandon script ih =>
    simp only [Script.abandon_bind, Script.run, ih, Reply.after_after]
    rfl

theorem Handling.run_bind_of_ok {handling : Handling α} {s : σ} {a : α}
    (next : α → Handling β) (ok : (handling.run.run backend s).result = .ok a) :
    ((handling >>= next).run.run backend s).result =
        ((next a).run.run backend (handling.run.run backend s).session).result ∧
      ((handling >>= next).run.run backend s).session =
        ((next a).run.run backend (handling.run.run backend s).session).session := by
  rw [ExceptT.run_bind, Script.run_bind, ok]
  exact ⟨rfl, rfl⟩

theorem Handling.run_bind_of_error {handling : Handling α} {s : σ} {e : InterpretError}
    (next : α → Handling β) (error : (handling.run.run backend s).result = .error e) :
    ((handling >>= next).run.run backend s).result = .error e := by
  rw [ExceptT.run_bind, Script.run_bind, error]
  rfl

theorem Handling.session_bind_of_error {handling : Handling α} {s : σ} {e : InterpretError}
    (next : α → Handling β) (error : (handling.run.run backend s).result = .error e) :
    ((handling >>= next).run.run backend s).session = (handling.run.run backend s).session := by
  rw [ExceptT.run_bind, Script.run_bind, error]
  rfl

namespace Registry

variable {registry : Registry} {tag : Tag}

theorem run_dispatch_of_none (absent : registry.get? tag.name = none) (summary : Summary) (s : σ) :
    ((registry.dispatch tag summary).run.run backend s).result =
        .ok { summary with unhandled := summary.unhandled + 1 } ∧
      ((registry.dispatch tag summary).run.run backend s).session = s := by
  rw [dispatch, absent]
  exact ⟨rfl, rfl⟩

theorem run_dispatch_of_some {handler : Handler} (present : registry.get? tag.name = some handler)
    {s : σ} (ok : ((handler tag).run.run backend s).result = .ok ()) (summary : Summary) :
    ((registry.dispatch tag summary).run.run backend s).result =
        .ok { summary with dispatched := summary.dispatched + 1 } ∧
      ((registry.dispatch tag summary).run.run backend s).session =
        ((handler tag).run.run backend s).session := by
  rw [dispatch, present]
  exact Handling.run_bind_of_ok backend _ ok

theorem run_dispatchAll {tags : List Tag} {s after : σ}
    (called : backend.called? (registry.calls tags) s = some after) (summary : Summary) :
    ((registry.dispatchAll summary tags).run.run backend s).result =
        .ok ⟨summary.dispatched + (registry.calls tags).length,
          summary.unhandled + tags.countP fun tag => (registry.get? tag.name).isNone⟩ ∧
      ((registry.dispatchAll summary tags).run.run backend s).session = after := by
  induction tags generalizing summary s with
  | nil =>
    obtain rfl := Option.some.inj called
    exact ⟨rfl, rfl⟩
  | cons tag rest ih =>
    have split (summary : Summary) : registry.dispatchAll summary (tag :: rest) =
        registry.dispatch tag summary >>= fun summary => registry.dispatchAll summary rest :=
      List.foldlM_cons
    cases handled : registry.get? tag.name with
    | none =>
      have same := Registry.calls_cons_of_none handled rest
      rw [same] at called ⊢
      obtain ⟨result, session⟩ := run_dispatch_of_none backend handled summary s
      obtain ⟨left, right⟩ := Handling.run_bind_of_ok backend
        (fun summary => registry.dispatchAll summary rest) result
      rw [split, left, right, session, List.countP_cons_of_pos (by simp [handled])]
      obtain ⟨counted, reached⟩ := ih called { summary with unhandled := summary.unhandled + 1 }
      refine ⟨counted.trans ?_, reached⟩
      simp only [Nat.add_assoc, Nat.add_comm 1]
    | some handler =>
      have more := Registry.calls_cons_of_some handled rest
      rw [more] at called ⊢
      rw [Backend.called?] at called
      cases ok : ((handler tag).run.run backend s).result with
      | error e =>
        simp only [ok] at called
        cases called
      | ok value =>
        simp only [ok] at called
        obtain ⟨result, session⟩ := run_dispatch_of_some backend handled ok summary
        obtain ⟨left, right⟩ := Handling.run_bind_of_ok backend
          (fun summary => registry.dispatchAll summary rest) result
        rw [split, left, right, session, List.countP_cons_of_neg (by simp [handled])]
        obtain ⟨counted, reached⟩ :=
          ih called { summary with dispatched := summary.dispatched + 1 }
        refine ⟨counted.trans ?_, reached⟩
        simp only [List.length_cons, Nat.add_assoc, Nat.add_comm 1]

theorem run_dispatchAll_of_error {tags : List Tag} {front rest : List (Tag × Handler)}
    {handler : Handler} {s later : σ} {e : InterpretError}
    (calls : registry.calls tags = front ++ (tag, handler) :: rest)
    (called : backend.called? front s = some later)
    (error : ((handler tag).run.run backend later).result = .error e) (summary : Summary) :
    ((registry.dispatchAll summary tags).run.run backend s).result = .error e := by
  induction tags generalizing front summary s with
  | nil =>
    have none : front ++ (tag, handler) :: rest = [] := calls.symm
    simp at none
  | cons first tags ih =>
    have split (summary : Summary) : registry.dispatchAll summary (first :: tags) =
        registry.dispatch first summary >>= fun summary => registry.dispatchAll summary tags :=
      List.foldlM_cons
    rw [split]
    cases handled : registry.get? first.name with
    | none =>
      have same := calls_cons_of_none handled tags
      obtain ⟨result, session⟩ := run_dispatch_of_none backend handled summary s
      obtain ⟨left, _⟩ := Handling.run_bind_of_ok backend
        (fun summary => registry.dispatchAll summary tags) result
      rw [left, session]
      exact ih (same.symm.trans calls) called _
    | some handler' =>
      have more := calls_cons_of_some handled tags
      rw [more] at calls
      cases front with
      | nil =>
        obtain ⟨same, _⟩ := List.cons.inj calls
        cases same
        obtain rfl := Option.some.inj called
        refine Handling.run_bind_of_error backend _ ?_
        rw [dispatch, handled]
        exact Handling.run_bind_of_error backend _ error
      | cons head front =>
        obtain ⟨same, behind⟩ := List.cons.inj calls
        subst same
        rw [Backend.called?] at called
        cases ok : ((handler' first).run.run backend s).result with
        | error e =>
          simp only [ok] at called
          cases called
        | ok value =>
          simp only [ok] at called
          obtain ⟨result, session⟩ := run_dispatch_of_some backend handled ok summary
          obtain ⟨left, _⟩ := Handling.run_bind_of_ok backend
            (fun summary => registry.dispatchAll summary tags) result
          rw [left, session]
          exact ih behind called _

end Registry

end Runs

end Folio
