import Folio.Proofs.Tag.Preorder

/-! # The passage through the tags

A pass is one passage through the tags below the root. A tag that has a handler has it called with
the session as the call before it left it, and the first handler that fails ends the passage. What
the pass answers, where it leaves the session and what it reports is what the passage comes to.
-/

namespace Folio

/-- How far a passage through tags has come. -/
structure Passage (σ : Type) where
  session : σ
  summary : Summary := {}
  records : List Record := []
  /-- The error of the handler that ended the passage. -/
  failure : Option InterpretError := none

namespace Passage

variable {σ : Type} (backend : Backend σ) (registry : Registry)

def step (p : Passage σ) (tag : Tag) : Passage σ :=
  match p.failure, registry.get? tag.name with
  | some _, _ => p
  | none, none =>
    { p with
      summary := { p.summary with unhandled := p.summary.unhandled + 1 }
      records := p.records ++ [Registry.container tag.name] }
  | none, some handler =>
    let reply := (handler tag).run.run backend p.session
    match reply.result with
    | .ok () =>
      { p with
        session := reply.session
        summary := { p.summary with dispatched := p.summary.dispatched + 1 }
        records := p.records ++ reply.records }
    | .error e =>
      { p with
        session := reply.session
        records := p.records ++ reply.records
        failure := some e }

def through (p : Passage σ) (tags : List Tag) : Passage σ := tags.foldl (step backend registry) p

def reply (p : Passage σ) : Reply σ (Except InterpretError Summary) where
  result := p.failure.elim (.ok p.summary) .error
  session := p.session
  records := p.records

variable {backend registry} {p : Passage σ}

theorem step_of_failed {e : InterpretError} (failed : p.failure = some e) (tag : Tag) :
    p.step backend registry tag = p := by
  simp only [step, failed]

theorem through_append (p : Passage σ) (front behind : List Tag) :
    p.through backend registry (front ++ behind) =
      (p.through backend registry front).through backend registry behind :=
  List.foldl_append

theorem through_of_failed {e : InterpretError} (failed : p.failure = some e) (tags : List Tag) :
    p.through backend registry tags = p := by
  induction tags with
  | nil => rfl
  | cons tag rest ih =>
    rw [through, List.foldl_cons, step_of_failed failed]
    exact ih

theorem step_of_refused (going : p.failure = none) {tag : Tag} {handler : Handler}
    (handled : registry.get? tag.name = some handler) {e : InterpretError}
    (refused : ((handler tag).run.run backend p.session).result = .error e) :
    (p.step backend registry tag).failure = some e ∧
      (p.step backend registry tag).session =
        ((handler tag).run.run backend p.session).session := by
  constructor
  · simp only [step, going, handled, refused]
  · simp only [step, going, handled, refused]

theorem reply_step (going : p.failure = none) (tag : Tag) :
    (p.step backend registry tag).reply =
      ((registry.dispatch tag p.summary).run.run backend p.session).after p.records := by
  cases handled : registry.get? tag.name with
  | none =>
    simp only [step, going, handled, Registry.dispatch]
    rfl
  | some handler =>
    simp only [step, going, handled, Registry.dispatch]
    rw [ExceptT.run_bind, Script.run_bind, Reply.after_after]
    cases ended : ((handler tag).run.run backend p.session).result with
    | ok value => simp [reply, Reply.after, Script.run, ExceptT.run_pure]
    | error e => simp [reply, Reply.after, Script.run]

theorem reply_through (going : p.failure = none) (tags : List Tag) :
    (p.through backend registry tags).reply =
      ((registry.dispatchAll p.summary tags).run.run backend p.session).after p.records := by
  induction tags generalizing p with
  | nil =>
    show p.reply = _
    simp [reply, going, Registry.dispatchAll, Reply.after, Script.run, ExceptT.run_pure]
  | cons tag rest ih =>
    have stepped : (p.step backend registry tag).reply =
        ((registry.dispatch tag p.summary).run.run backend p.session).after p.records :=
      reply_step going tag
    rw [through, List.foldl_cons]
    rw [Registry.dispatchAll, List.foldlM_cons, ExceptT.run_bind, Script.run_bind,
      Reply.after_after]
    generalize p.step backend registry tag = q at stepped
    generalize ((registry.dispatch tag p.summary).run.run backend p.session) = r at stepped
    obtain ⟨result, session, records⟩ := r
    obtain ⟨session', summary, records', failure⟩ := q
    simp only [reply, Reply.after, Reply.mk.injEq] at stepped
    obtain ⟨rfl, rfl, rfl⟩ := stepped
    cases failure with
    | none => exact ih rfl
    | some e =>
      refine (congrArg reply (through_of_failed rfl rest)).trans ?_
      simp [reply, Reply.after, Script.run]

end Passage

section Endings

variable {σ : Type} {backend : Backend σ} {registry : Registry} {tags : List Tag} {s : σ}

/-- How the calls for tags end: all of them have succeeded and every tag is counted, or one of them
has failed, none behind it was made, and its error is the answer. -/
inductive Registry.Ends (backend : Backend σ) (registry : Registry) (s : σ) (tags : List Tag) :
    Except InterpretError Summary → σ → Prop
  | complete {after : σ} (called : backend.called? (registry.calls tags) s = some after) :
      Ends backend registry s tags
        (.ok ⟨tags.countP fun tag => (registry.get? tag.name).isSome,
          tags.countP fun tag => (registry.get? tag.name).isNone⟩) after
  | failed {front behind : List Tag} {tag : Tag} {handler : Handler} {later : σ}
      {e : InterpretError} (split : tags = front ++ tag :: behind)
      (handled : registry.get? tag.name = some handler)
      (called : backend.called? (registry.calls front) s = some later)
      (refused : ((handler tag).run.run backend later).result = .error e) :
      Ends backend registry s tags (.error e) ((handler tag).run.run backend later).session

theorem Registry.length_calls (registry : Registry) (tags : List Tag) :
    (registry.calls tags).length = tags.countP fun tag => (registry.get? tag.name).isSome := by
  rw [calls, List.length_filterMap_eq_countP]
  simp only [Option.isSome_map]

theorem Registry.called_or_fails (backend : Backend σ) (registry : Registry) (tags : List Tag)
    (s : σ) :
    (∃ after, backend.called? (registry.calls tags) s = some after) ∨
      ∃ front tag behind handler later e, tags = front ++ tag :: behind ∧
        registry.get? tag.name = some handler ∧
        backend.called? (registry.calls front) s = some later ∧
        ((handler tag).run.run backend later).result = .error e := by
  induction tags generalizing s with
  | nil => exact .inl ⟨s, rfl⟩
  | cons first rest ih =>
    cases handled : registry.get? first.name with
    | none =>
      have passed := Registry.calls_cons_of_none handled
      rcases ih s with ⟨after, called⟩ | ⟨front, tag, behind, handler, later, e, rfl, fails⟩
      · left
        exact ⟨after, (passed rest).symm ▸ called⟩
      · right
        refine ⟨first :: front, tag, behind, handler, later, e, rfl, fails.1, ?_, fails.2.2⟩
        rw [passed]
        exact fails.2.1
    | some handler =>
      have more := Registry.calls_cons_of_some handled
      cases ended : ((handler first).run.run backend s).result with
      | error e =>
        right
        exact ⟨[], first, rest, handler, s, e, rfl, handled, rfl, ended⟩
      | ok value =>
        have called (tags : List Tag) : backend.called? (registry.calls (first :: tags)) s =
            backend.called? (registry.calls tags) ((handler first).run.run backend s).session := by
          rw [more, Backend.called?]
          simp only [ended]
        rcases ih ((handler first).run.run backend s).session with
          ⟨after, whole⟩ | ⟨front, tag, behind, other, later, e, rfl, fails⟩
        · left
          exact ⟨after, (called rest).trans whole⟩
        · right
          refine ⟨first :: front, tag, behind, other, later, e, rfl, fails.1, ?_, fails.2.2⟩
          rw [called]
          exact fails.2.1

namespace Passage

theorem through_of_called {after : σ}
    (called : backend.called? (registry.calls tags) s = some after) :
    let q := ({ session := s } : Passage σ).through backend registry tags
    q.failure = none ∧ q.session = after ∧
      q.summary = ⟨tags.countP fun tag => (registry.get? tag.name).isSome,
        tags.countP fun tag => (registry.get? tag.name).isNone⟩ := by
  intro q
  have same : q.reply = _ := reply_through (p := { session := s }) rfl tags
  obtain ⟨result, session⟩ := Registry.run_dispatchAll backend called {}
  rw [Registry.length_calls, Nat.zero_add, Nat.zero_add] at result
  have answer := (congrArg Reply.result same).trans result
  have place := (congrArg Reply.session same).trans session
  cases failure : q.failure with
  | none =>
    simp only [reply, failure, Option.elim_none, Except.ok.injEq] at answer
    exact ⟨rfl, place, answer⟩
  | some e =>
    simp only [reply, failure, Option.elim_some] at answer
    cases answer

theorem ends_through (backend : Backend σ) (registry : Registry) (s : σ) (tags : List Tag) :
    let q := ({ session := s } : Passage σ).through backend registry tags
    Registry.Ends backend registry s tags q.reply.result q.reply.session := by
  intro q
  rcases Registry.called_or_fails backend registry tags s with
    ⟨after, called⟩ | ⟨front, tag, behind, handler, later, e, rfl, handled, called, refused⟩
  · obtain ⟨going, session, summary⟩ := through_of_called called
    have result : q.reply.result = .ok q.summary := by
      rw [reply, going]
      rfl
    rw [result, summary]
    refine .complete (called.trans ?_)
    exact congrArg some session.symm
  · obtain ⟨going, session, _⟩ := through_of_called called
    have refused' := session.symm ▸ refused
    obtain ⟨failed, place⟩ := step_of_refused going handled refused'
    have whole : q = Passage.step backend registry _ tag :=
      (through_append _ front (tag :: behind)).trans (through_of_failed failed behind)
    have result : q.reply.result = .error e := by
      rw [whole, reply, failed]
      rfl
    have last : q.reply.session = ((handler tag).run.run backend later).session := by
      rw [whole, ← session]
      exact place
    rw [result, last]
    exact .failed rfl handled called refused

end Passage

theorem Registry.run_pass (registry : Registry) (children : Markup.Children) (s : σ) :
    (registry.pass children).run backend s =
      (Passage.through backend registry { session := s } (Markup.fieldsTags children)).reply := by
  refine Eq.trans ?_ (Passage.reply_through (p := { session := s }) rfl _).symm
  show (registry.walk {} children).run.run backend s = _
  rw [walk_eq_dispatchAll]
  rfl

end Endings

/-- A pass is one passage through the tags below the root that are under no reserved name, each in
front of those below it: its answer, the session it leaves and its reports are those of the passage.
The passage ends with all tags counted, or with the first handler that fails. -/
theorem Registry.pass_goes_through_tags (registry : Registry) (root : Markup.Element) {σ : Type}
    (backend : Backend σ) (s : σ) :
    let tags := Markup.fieldsTags root.children
    let reply := (registry.pass root.children).run backend s
    reply = (Passage.through backend registry { session := s } tags).reply ∧
      Registry.Ends backend registry s tags reply.result reply.session := by
  intro tags reply
  have same : reply = (Passage.through backend registry { session := s } tags).reply :=
    registry.run_pass root.children s
  constructor
  · exact same
  · rw [same]
    exact Passage.ends_through backend registry s tags

end Folio
