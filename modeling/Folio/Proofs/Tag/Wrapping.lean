import Folio.Proofs.Session.Requests
import Folio.Proofs.Tag.Passage
import Folio.Session.Recorder

/-! # Containers

A tag without a handler is a container and nothing else. To put some siblings into such a container
changes how the siblings around it share fields, and yet the pass goes through the same tags and
makes the same calls; it only counts the container.
-/

namespace Folio

namespace Markup

def inOrder (elements : List Element) : Children :=
  elements.foldl (fun children e => children.push e .document) []

theorem fieldsTags_inOrder (elements : List Element) :
    fieldsTags (inOrder elements) = elements.flatMap fun e => (Field.ofElement e).tags :=
  (fieldsTags_foldl_document elements []).trans (List.nil_append _)

/-- One tree becomes another when siblings that stand next to each other are put into a container,
somewhere below its root. `visited` says whether a pass comes to that place: it does not go below a
reserved name. -/
inductive Wraps (container : Tag) : Bool → Element → Element → Prop
  | here {name text : String} {attributes : Attributes} (front block behind : List Element) :
      Wraps container true
        (.mk name text attributes (inOrder (front ++ block ++ behind)))
        (.mk name text attributes (inOrder (front ++
          .mk container.name container.text container.attributes (inOrder block) :: behind)))
  | inside {name text : String} {attributes : Attributes} (front : List Element)
      {before after : Element} (behind : List Element) {visited : Bool}
      (inner : Wraps container visited before after) :
      Wraps container (!isReserved before.name && visited)
        (.mk name text attributes (inOrder (front ++ before :: behind)))
        (.mk name text attributes (inOrder (front ++ after :: behind)))

namespace Wraps

variable {container : Tag} {visited : Bool} {before after : Element}

theorem own_tag (wraps : Wraps container visited before after) :
    after.name = before.name ∧ after.text = before.text ∧ after.attributes = before.attributes := by
  cases wraps <;> exact ⟨rfl, rfl, rfl⟩

theorem tags (wraps : Wraps container visited before after)
    (free : isReserved container.name = false) :
    ∃ front behind, fieldsTags before.children = front ++ behind ∧
      fieldsTags after.children = front ++ (List.replicate visited.toNat container ++ behind) := by
  induction wraps with
  | @here name text attributes front block behind =>
    refine ⟨front.flatMap fun e => (Field.ofElement e).tags,
      (block ++ behind).flatMap fun e => (Field.ofElement e).tags, ?_, ?_⟩
    · simp only [Element.children_mk, fieldsTags_inOrder, List.flatMap_append, List.append_assoc]
    · have own : (Field.ofElement (.mk container.name container.text container.attributes
          (inOrder block))).tags = container :: fieldsTags (inOrder block) :=
        Field.tags_ofElement free
      simp only [Element.children_mk, fieldsTags_inOrder, List.flatMap_append, List.flatMap_cons,
        own]
      rfl
  | @inside name text attributes front before after behind visited inner ih =>
    obtain ⟨sameName, sameText, sameAttributes⟩ := inner.own_tag
    obtain ⟨above, under, whole, grown⟩ := ih
    simp only [Element.children_mk, fieldsTags_inOrder, List.flatMap_append, List.flatMap_cons]
    cases reserved : isReserved before.name with
    | true =>
      have hidden {e : Element} (same : e.name = before.name) : (Field.ofElement e).tags = [] :=
        Field.tags_of_reserved ((congrArg isReserved same).trans reserved)
      rw [hidden rfl, hidden sameName]
      exact ⟨_, _, rfl, rfl⟩
    | false =>
      rw [Field.tags_ofElement reserved, Field.tags_ofElement (sameName ▸ reserved)]
      refine ⟨front.flatMap (fun e => (Field.ofElement e).tags) ++
        ⟨before.name, before.attributes, before.text⟩ :: above,
        under ++ behind.flatMap fun e => (Field.ofElement e).tags, ?_, ?_⟩
      · rw [Element.tags_eq, whole]
        simp
      · rw [Element.tags_eq, grown, sameName, sameText, sameAttributes]
        simp

end Wraps

end Markup

namespace Passage

variable {σ : Type} {backend : Backend σ} {registry : Registry}

/-- Two passages that have made the same calls. The second has come through so many more containers,
which no longer matters once a handler has failed. -/
structure Abreast (more : Nat) (p q : Passage σ) : Prop where
  session : q.session = p.session
  failure : q.failure = p.failure
  counted : p.failure = none →
    q.summary = { p.summary with unhandled := p.summary.unhandled + more }

namespace Abreast

variable {more : Nat} {p q : Passage σ}

theorem refl (p : Passage σ) : Abreast 0 p p := ⟨rfl, rfl, fun _ => rfl⟩

theorem step (abreast : Abreast more p q) (tag : Tag) :
    Abreast more (p.step backend registry tag) (q.step backend registry tag) := by
  obtain ⟨session, failure, counted⟩ := abreast
  cases going : p.failure with
  | some e =>
    rw [step_of_failed going, step_of_failed (failure.trans going)]
    exact ⟨session, failure, counted⟩
  | none =>
    have same := counted going
    have going' := failure.trans going
    cases handled : registry.get? tag.name with
    | none =>
      simp only [Passage.step, going, going', handled, same]
      refine ⟨session, rfl, fun _ => ?_⟩
      simp only [Nat.add_right_comm]
    | some handler =>
      simp only [Passage.step, going, going', handled, same, session]
      cases ((handler tag).run.run backend p.session).result with
      | ok value => exact ⟨rfl, rfl, fun _ => rfl⟩
      | error e => exact ⟨rfl, rfl, fun none => absurd none (Option.some_ne_none e)⟩

theorem through (abreast : Abreast more p q) (tags : List Tag) :
    Abreast more (p.through backend registry tags) (q.through backend registry tags) := by
  induction tags generalizing p q with
  | nil => exact abreast
  | cons tag rest ih => exact ih (abreast.step tag)

theorem pass_over (abreast : Abreast more p q) {tags : List Tag}
    (unregistered : ∀ tag ∈ tags, registry.get? tag.name = none) :
    Abreast (more + tags.length) p (q.through backend registry tags) := by
  induction tags generalizing more q with
  | nil => exact abreast
  | cons tag rest ih =>
    obtain ⟨first, others⟩ := List.forall_mem_cons.1 unregistered
    have passed : Abreast (more + 1) p (q.step backend registry tag) := by
      obtain ⟨session, failure, counted⟩ := abreast
      cases going : p.failure with
      | some e =>
        rw [step_of_failed (failure.trans going)]
        exact ⟨session, failure, fun still => by cases going.symm.trans still⟩
      | none =>
        simp only [Passage.step, failure.trans going, first]
        refine ⟨session, going.symm, fun _ => ?_⟩
        rw [counted going]
        rfl
    have whole := ih passed others
    rw [Nat.add_right_comm] at whole
    exact whole

theorem reply (abreast : Abreast more p q) :
    q.reply.session = p.reply.session ∧
      q.reply.result = p.reply.result.map fun summary =>
        { summary with unhandled := summary.unhandled + more } := by
  refine ⟨abreast.session, ?_⟩
  rw [Passage.reply, Passage.reply, abreast.failure]
  cases going : p.failure with
  | some e => rfl
  | none => exact congrArg Except.ok (abreast.counted going)

end Abreast

theorem abreast_of_containers (backend : Backend σ) (p : Passage σ) (front : List Tag)
    {containers : List Tag} (unregistered : ∀ tag ∈ containers, registry.get? tag.name = none)
    (behind : List Tag) :
    Abreast containers.length (p.through backend registry (front ++ behind))
      (p.through backend registry (front ++ (containers ++ behind))) := by
  have passed : Abreast containers.length (p.through backend registry front)
      ((p.through backend registry front).through backend registry containers) :=
    Nat.zero_add containers.length ▸ (Abreast.refl _).pass_over unregistered
  rw [through_append, through_append, through_append]
  exact passed.through behind

end Passage

namespace Registry

open Markup (Element isReserved fieldsTags Wraps)

/-- To put siblings into a container that is neither registered nor reserved changes neither what
the session is asked for nor how the pass ends, wherever it is done. A pass that succeeds counts the
container if it comes to it. Where no tag has a handler, nothing is asked of the session. -/
theorem unregistered_container_transparent (registry : Registry) {container : Tag}
    (unregistered : registry.get? container.name = none)
    (free : isReserved container.name = false) {visited : Bool} {root wrapped : Element}
    (wraps : Wraps container visited root wrapped) {σ : Type} (backend : Backend σ) (s : σ) :
    let plain := (registry.pass root.children).run backend.traced (s, [])
    let reply := (registry.pass wrapped.children).run backend.traced (s, [])
    reply.session = plain.session ∧
      reply.result = plain.result.map (fun summary =>
        { summary with unhandled := summary.unhandled + visited.toNat }) ∧
      ((∀ tag ∈ fieldsTags root.children, registry.get? tag.name = none) →
        plain.session = (s, []) ∧ plain.result = .ok ⟨0, (fieldsTags root.children).length⟩) := by
  intro plain reply
  have plainly : plain = (Passage.through backend.traced registry { session := (s, []) }
      (fieldsTags root.children)).reply := registry.run_pass root.children _
  have thus : reply = (Passage.through backend.traced registry { session := (s, []) }
      (fieldsTags wrapped.children)).reply := registry.run_pass wrapped.children _
  obtain ⟨front, behind, whole, grown⟩ := wraps.tags free
  refine and_assoc.1 ⟨?_, fun bare => ?_⟩
  · have containers : ∀ tag ∈ List.replicate visited.toNat container,
        registry.get? tag.name = none := by
      intro tag mem
      rw [List.eq_of_mem_replicate mem, unregistered]
    have passed := Passage.abreast_of_containers backend.traced { session := (s, []) } front
      containers behind
    rw [List.length_replicate] at passed
    rw [plainly, thus, whole, grown]
    exact passed.reply
  · have passed := Passage.abreast_of_containers backend.traced { session := (s, []) } [] bare []
    obtain ⟨session, result⟩ := passed.reply
    rw [List.nil_append, List.append_nil, ← plainly] at session result
    refine ⟨session, result.trans ?_⟩
    show Except.ok (⟨0, 0 + _⟩ : Summary) = _
    rw [Nat.zero_add]

theorem unregistered_box_transparent :
    let text (content : String) : Element := .mk "text" content .empty []
    let element (name : String) (below : List Element) : Element :=
      .mk name "" .empty (Markup.inOrder below)
    let plain := element "document" [.named "page", text "one", text "two", text "three"]
    let boxed := element "document"
      [.named "page", text "one", element "box" [text "two"], text "three"]
    let hidden := element "document" [element "attrs" [text "four"]]
    let hiddenBoxed := element "document" [element "attrs" [element "box" [text "four"]]]
    let run (root : Element) :=
      (standard.pass root.children).run Recorder.backend.traced (Recorder.start {}, [])
    standard.get? "box" = none ∧ isReserved "box" = false ∧
      Wraps ⟨"box", .empty, ""⟩ true plain boxed ∧
      Wraps ⟨"box", .empty, ""⟩ false hidden hiddenBoxed ∧
      (run boxed).session = (run plain).session ∧ (run plain).result = .ok ⟨4, 0⟩ ∧
      (run boxed).result = .ok ⟨4, 1⟩ ∧ (run hidden).session = (Recorder.start {}, []) ∧
      (run hiddenBoxed).result = .ok ⟨0, 0⟩ := by
  intro text element plain boxed hidden hiddenBoxed run
  have absent : standard.get? "box" = none := by rfl
  have free : isReserved "box" = false := by decide
  have wraps : Wraps ⟨"box", .empty, ""⟩ true plain boxed :=
    .here [.named "page", text "one"] [text "two"] [text "three"]
  have inside : Wraps ⟨"box", .empty, ""⟩ (!isReserved "attrs" && true) hidden hiddenBoxed :=
    .inside [] [] (.here [] [text "four"] [])
  rw [show (!isReserved "attrs" && true) = false by decide] at inside
  have counted : (run plain).result = .ok ⟨4, 0⟩ := by decide +kernel
  have bare : ∀ tag ∈ fieldsTags hidden.children, standard.get? tag.name = none := by
    intro tag mem
    cases mem
  obtain ⟨session, result, _⟩ :=
    unregistered_container_transparent standard absent free wraps Recorder.backend (.start {})
  obtain ⟨_, unseen, nothing⟩ :=
    unregistered_container_transparent standard absent free inside Recorder.backend (.start {})
  obtain ⟨untouched, ended⟩ := nothing bare
  exact ⟨absent, free, wraps, inside, session, counted,
    result.trans (congrArg (Except.map _) counted), untouched,
    unseen.trans (congrArg (Except.map _) ended)⟩

end Registry

end Folio
