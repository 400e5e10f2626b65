import Folio.Proofs.Delivery.Receipt
import Folio.Proofs.Tag.Preorder
import Folio.Render.Renderer
import Folio.Session.Recorder

/-! # What a render asks of a session

A render asks nothing of a session that was not made. It asks one that was made for its output
only when the pass is through, and tells it to give up, last of all, unless the whole output came.
-/

namespace Folio

open Delivery (Completion Production)
open Delivery.Transfer (Execution Receives)

variable {σ : Type}

def Reply.keeping {τ α : Type} (keep : σ → τ) (reply : Reply σ α) : Reply τ α where
  result := reply.result
  session := keep reply.session
  records := reply.records

theorem Reply.keeping_after {τ α : Type} (keep : σ → τ) (reply : Reply σ α)
    (records : List Record) :
    (reply.after records).keeping keep = (reply.keeping keep).after records := rfl

theorem Script.run_traced {α : Type} (backend : Backend σ) (script : Script α) (s : σ)
    (calls : List Call) :
    (script.run backend.traced (s, calls)).keeping Prod.fst = script.run backend s := by
  induction script generalizing s calls with
  | done a => rfl
  | say record next ih => rw [run, Reply.keeping_after, ih, run]
  | draw what next ih =>
    show (Reply.after ((next (backend.draw what s).result).run backend.traced _) _).keeping _ = _
    rw [Reply.keeping_after, ih]
    rfl
  | finalize runtime next ih =>
    show (Reply.after ((next ((backend.finalize runtime s).result.map fun _ => ())).run
      backend.traced _) _).keeping _ = _
    rw [Reply.keeping_after, ih]
    rfl
  | abandon next ih =>
    show (Reply.after (next.run backend.traced _) _).keeping _ = _
    rw [Reply.keeping_after, ih]
    rfl

/-- A handler that the pass over these elements reaches ends with this error. -/
def Registry.Raises (registry : Registry) (backend : Backend σ) (children : Markup.Children)
    (s : σ) (e : InterpretError) : Prop :=
  ∃ front tag handler rest later,
    registry.calls (Markup.fieldsTags children) = front ++ (tag, handler) :: rest ∧
      backend.called? front s = some later ∧
      ((handler tag).run.run backend later).result = .error e

theorem Registry.Raises.ends_pass {registry : Registry} {backend : Backend σ}
    {children : Markup.Children} {s : σ} {e : InterpretError}
    (raises : registry.Raises backend children s e) :
    ((registry.pass children).run backend s).result = .error e := by
  obtain ⟨front, tag, handler, rest, later, calls, called, error⟩ := raises
  rw [Registry.pass, walk_eq_dispatchAll]
  exact run_dispatchAll_of_error backend calls called error {}

theorem RenderError.ofInterpret_ne (e : InterpretError) (inner : SessionError) :
    RenderError.ofInterpret e ≠ .interpret (.session inner) := by
  cases e <;> exact nofun

namespace Renderer

variable (r : Renderer) (backend : Backend σ) (deliver : Delivery.Transfer → Delivery.Transfer)

structure Opens (reader : Markup.NodeReader) (markup : String) (root : Markup.Element) (s : σ) :
    Prop where
  read : ∃ records, r.parse markup reader = .ok (root, records)
  made : ∃ options, (Options.ofRoot root).1 = .ok options ∧ backend.create options = .ok s

def delivery (production : Production) : Delivery.Transfer :=
  deliver (.ofProduction production r.config.capacity)

section Course

variable (pass : Reply (σ × List Call) (Except InterpretError Summary))

structure Promises (production : Production) : Prop where
  passed : ∃ summary, pass.result = .ok summary
  promised : (backend.finalize true pass.session.1).result = .ok production

/-- Nothing has come of the output, neither its end nor the end of its producer. -/
def Pending (outcome : Completion) : Prop :=
  outcome ≠ .abandoned ∧ ∀ bytes chunks, outcome ≠ .complete bytes chunks

/-- The ways in which a render goes on behind the pass: what comes of it, and what it asks of the
session. -/
inductive Course : Option (Except RenderError Bytes) → List Call → Prop
  | unfit {e : InterpretError} (failed : pass.result = .error e) :
      Course (some (.error (.ofInterpret e))) [.abandon]
  | unpromised {summary : Summary} {e : SessionError} (passed : pass.result = .ok summary)
      (refused : (backend.finalize true pass.session.1).result = .error e) :
      Course (some (.error (.session e))) [.finalize, .abandon]
  | delivered {production : Production} {bytes : Bytes} {chunks : Nat}
      (promises : Promises backend pass production)
      (complete : (r.delivery deliver production).consumer = .complete bytes chunks) :
      Course (some (.ok bytes)) [.finalize]
  | dropped {production : Production} (promises : Promises backend pass production)
      (abandoned : (r.delivery deliver production).consumer = .abandoned) :
      Course (some (.error (.completion .abandoned))) [.finalize, .abandon]
  | late {production : Production} {limit : Number.Duration}
      (promises : Promises backend pass production)
      (pending : Pending (r.delivery deliver production).consumer)
      (limited : r.config.timeout = some limit) :
      Course (some (.error (.timeout limit))) [.finalize, .abandon]
  | endless {production : Production} (promises : Promises backend pass production)
      (pending : Pending (r.delivery deliver production).consumer)
      (unlimited : r.config.timeout = none) : Course none [.finalize]

structure Contract (result : Option (Except RenderError Bytes)) (driver : List Call) : Prop where
  finalize_once : driver.count .finalize ≤ 1
  finalize_passed : .finalize ∈ driver → ∃ summary, pass.result = .ok summary
  /-- Bytes are returned only behind the end of the output, and they are the data before it. -/
  whole : ∀ bytes, result = some (.ok bytes) →
    .abandon ∉ driver ∧ ∃ (production : Production) (taken : List Bytes),
      Promises backend pass production ∧
        Receives (.ofProduction production r.config.capacity)
          (taken.map .data ++ [.finished]) (r.delivery deliver production) ∧
        bytes = taken.flatten
  given_up : ∀ e, result = some (.error e) →
    ∃ front, driver = front ++ [.abandon] ∧ .abandon ∉ front
  endless : result = none → r.config.timeout = none ∧
    ∃ production, Promises backend pass production ∧
      Pending (r.delivery deliver production).consumer
  arrived : ∀ production bytes chunks, Promises backend pass production →
    (r.delivery deliver production).consumer = .complete bytes chunks → result = some (.ok bytes)
  session_error : ∀ e, pass.result = .error (.session e) → result = some (.error (.session e))

end Course

variable {r backend deliver}

section Contracts

variable {pass : Reply (σ × List Call) (Except InterpretError Summary)}
  {result : Option (Except RenderError Bytes)} {driver : List Call}

theorem Course.passed_of_finalize (course : Course r backend deliver pass result driver)
    (asked : .finalize ∈ driver) : ∃ summary, pass.result = .ok summary := by
  cases course with
  | unfit => simp at asked
  | unpromised passed => exact ⟨_, passed⟩
  | delivered promises | dropped promises | late promises | endless promises =>
    exact promises.passed

theorem Course.result_of_complete (course : Course r backend deliver pass result driver)
    {production : Production} {bytes : Bytes} {chunks : Nat}
    (promises : Promises backend pass production)
    (complete : (r.delivery deliver production).consumer = .complete bytes chunks) :
    result = some (.ok bytes) := by
  have only {other : Production} (h : Promises backend pass other) : other = production :=
    Except.ok.inj (h.promised.symm.trans promises.promised)
  cases course with
  | unfit failed =>
    obtain ⟨summary, through⟩ := promises.passed
    cases failed.symm.trans through
  | unpromised through refused => cases refused.symm.trans promises.promised
  | delivered promised arrived =>
    rw [only promised, complete] at arrived
    cases arrived
    rfl
  | dropped promised abandoned =>
    rw [only promised, complete] at abandoned
    cases abandoned
  | late promised pending | endless promised pending =>
    rw [only promised] at pending
    exact absurd complete (pending.2 bytes chunks)

theorem Course.result_of_error (course : Course r backend deliver pass result driver)
    {e : InterpretError} (failed : pass.result = .error e) :
    result = some (.error (.ofInterpret e)) := by
  cases course with
  | unfit unfit =>
    cases Except.error.inj (unfit.symm.trans failed)
    rfl
  | unpromised through => cases failed.symm.trans through
  | delivered promises | dropped promises | late promises | endless promises =>
    obtain ⟨summary, through⟩ := promises.passed
    cases failed.symm.trans through

theorem Course.ne_interpret (course : Course r backend deliver pass result driver)
    (e : SessionError) : result ≠ some (.error (.interpret (.session e))) := by
  cases course with
  | @unfit error =>
    intro same
    exact RenderError.ofInterpret_ne error e (Except.error.inj (Option.some.inj same))
  | unpromised | delivered | dropped | late | endless => exact nofun

theorem Course.contract (delivers : ∀ t, Execution t (deliver t))
    (course : Course r backend deliver pass result driver) :
    Contract r backend deliver pass result driver := by
  constructor
  · cases course <;> decide
  · exact course.passed_of_finalize
  · rintro bytes rfl
    cases course with
    | @delivered production _ _ promises complete =>
      obtain ⟨taken, received, joined⟩ := Delivery.Transfer.receives_complete (delivers _) complete
      exact ⟨by decide, production, taken, promises, received, joined⟩
  · rintro e rfl
    cases course with
    | unfit => exact ⟨[], rfl, by decide⟩
    | unpromised | dropped | late => exact ⟨[.finalize], rfl, by decide⟩
  · rintro rfl
    cases course with
    | endless promises pending unlimited => exact ⟨unlimited, _, promises, pending⟩
  · intro production bytes chunks promises complete
    exact course.result_of_complete promises complete
  · intro e failed
    exact course.result_of_error failed

end Contracts

section Courses

variable {pass : Reply (σ × List Call) (Except InterpretError Summary)}

theorem finalize_abandon (calls : List Call) :
    calls ++ [.finalize] ++ [.abandon] = calls ++ [.finalize, .abandon] :=
  List.append_assoc _ _ _

theorem course_await {production : Production} (promises : Promises backend pass production)
    (s : σ) (calls : List Call) {outcome : Completion}
    (same : (r.delivery deliver production).consumer = outcome) :
    ∃ final driver,
      (r.await backend.traced outcome (s, calls ++ [.finalize])).session =
          some (final, calls ++ driver) ∧
        Course r backend deliver pass
          (r.await backend.traced outcome (s, calls ++ [.finalize])).result driver := by
  cases outcome with
  | complete bytes chunks => exact ⟨s, [.finalize], rfl, .delivered promises same⟩
  | abandoned =>
    refine ⟨(backend.abandon s).session, [.finalize, .abandon], ?_, .dropped promises same⟩
    rw [← finalize_abandon]
    rfl
  | collecting | dropped =>
    have pending : Pending (r.delivery deliver production).consumer := by
      rw [same]
      exact ⟨Completion.noConfusion, fun _ _ => Completion.noConfusion⟩
    simp only [await]
    cases limited : r.config.timeout with
    | none => exact ⟨s, [.finalize], rfl, .endless promises pending limited⟩
    | some limit =>
      refine ⟨(backend.abandon s).session, [.finalize, .abandon], ?_,
        .late promises pending limited⟩
      rw [← finalize_abandon]
      rfl

theorem course_finish {summary : Summary} (passed : pass.result = .ok summary) :
    ∃ final driver,
      (r.finish backend.traced deliver pass.session).session =
          some (final, pass.session.2 ++ driver) ∧
        Course r backend deliver pass (r.finish backend.traced deliver pass.session).result
          driver := by
  cases promised : (backend.finalize true pass.session.1).result with
  | error e =>
    have refused : r.finish backend.traced deliver pass.session =
        (giveUp backend.traced (.session e)
          ((backend.finalize true pass.session.1).session, pass.session.2 ++ [.finalize])).after
          (backend.finalize true pass.session.1).records := by
      simp only [finish, Backend.traced, promised]
    refine ⟨(backend.abandon (backend.finalize true pass.session.1).session).session,
      [.finalize, .abandon], ?_, ?_⟩
    · rw [refused, ← finalize_abandon]
      rfl
    · rw [refused]
      exact .unpromised passed promised
  | ok production =>
    have awaited : r.finish backend.traced deliver pass.session =
        (r.await backend.traced (r.delivery deliver production).consumer
          ((backend.finalize true pass.session.1).session, pass.session.2 ++ [.finalize])).after
          (backend.finalize true pass.session.1).records := by
      simp only [finish, Backend.traced, promised]
      rfl
    rw [awaited]
    exact course_await ⟨⟨summary, passed⟩, promised⟩ _ _ rfl

variable (r backend deliver) in
theorem course_interpret (root : Markup.Element) (s : σ)
    (passes : (r.registry.pass root.children).run backend.traced (s, []) = pass) :
    ∃ final driver,
      (r.interpret backend.traced deliver root (s, [])).session =
          some (final, pass.session.2 ++ driver) ∧
        Course r backend deliver pass (r.interpret backend.traced deliver root (s, [])).result
          driver := by
  cases through : pass.result with
  | error e =>
    have unfit : r.interpret backend.traced deliver root (s, []) =
        (giveUp backend.traced (.ofInterpret e) pass.session).after (building :: pass.records) := by
      simp only [interpret, passes, through]
    rw [unfit]
    exact ⟨_, [.abandon], rfl, .unfit through⟩
  | ok summary =>
    have finished : r.interpret backend.traced deliver root (s, []) =
        (r.finish backend.traced deliver pass.session).after
          (building :: pass.records ++ [finalizing summary]) := by
      simp only [interpret, passes, through]
    rw [finished]
    exact course_finish through

end Courses

section Traced

theorem await_traced (outcome : Completion) (s : σ) (calls : List Call) :
    (r.await backend.traced outcome (s, calls)).keeping (Option.map Prod.fst) =
      r.await backend outcome s := by
  cases outcome with
  | complete | abandoned => rfl
  | collecting | dropped =>
    simp only [await]
    cases r.config.timeout <;> rfl

theorem finish_traced (s : σ) (calls : List Call) :
    (r.finish backend.traced deliver (s, calls)).keeping (Option.map Prod.fst) =
      r.finish backend deliver s := by
  cases promised : (backend.finalize true s).result with
  | error e =>
    simp only [finish, Backend.traced, promised]
    rfl
  | ok production =>
    simp only [finish, Backend.traced, promised, Reply.keeping_after]
    exact congrArg (Reply.after · _) (await_traced _ _ _)

theorem interpret_traced (root : Markup.Element) (s : σ) (calls : List Call) :
    (r.interpret backend.traced deliver root (s, calls)).keeping (Option.map Prod.fst) =
      r.interpret backend deliver root s := by
  have same := (r.registry.pass root.children).run_traced backend s calls
  generalize passed : (r.registry.pass root.children).run backend.traced (s, calls) = pass at same
  simp only [interpret, passed, ← same]
  obtain ⟨result, session, records⟩ := pass
  cases result with
  | error e => rfl
  | ok summary => exact congrArg (Reply.after · _) (finish_traced _ _)

theorem render_traced (markup : String) (reader : Markup.NodeReader) :
    (r.render backend.traced markup deliver reader).keeping (Option.map Prod.fst) =
      r.render backend markup deliver reader := by
  simp only [render]
  rcases r.parse markup reader with e | ⟨root, records⟩
  · rfl
  · simp only [Reply.keeping_after, renderElement]
    cases (Options.ofRoot root).1 with
    | error e => rfl
    | ok options =>
      simp only [Backend.traced]
      cases backend.create options with
      | error e => rfl
      | ok s => exact congrArg (fun x => Reply.after (Reply.after x _) _) (interpret_traced _ _ _)

end Traced

section Opening

variable {reader : Markup.NodeReader} {markup : String}

variable (deliver) in
/-- Without a session, a render comes to an error that the operations of a session have no part
in. -/
theorem render_of_not_opens (closed : ∀ root s, ¬ r.Opens backend reader markup root s) :
    ∃ e records, (∀ inner, e ≠ .interpret (.session inner)) ∧
      ∀ other : Backend σ, other.create = backend.create →
        r.render other.traced markup deliver reader = .failed e records := by
  simp only [render]
  cases read : r.parse markup reader with
  | error e =>
    obtain ⟨fault, rfl⟩ : ∃ fault, e = .markup fault := by
      rw [parse] at read
      cases parsed : Markup.parse r.config.parse markup reader with
      | error fault =>
        rw [parsed] at read
        cases read
        exact ⟨fault, rfl⟩
      | ok tree =>
        rw [parsed] at read
        cases read
    exact ⟨.markup fault, [], fun _ => RenderError.noConfusion, fun _ _ => rfl⟩
  | ok parsed =>
    obtain ⟨root, records⟩ := parsed
    simp only [renderElement]
    cases settled : (Options.ofRoot root).1 with
    | error e =>
      exact ⟨.ofInterpret e, records ++ (Options.ofRoot root).2, RenderError.ofInterpret_ne e,
        fun _ _ => rfl⟩
    | ok options =>
      cases made : backend.create options with
      | error e =>
        refine ⟨.session e, records ++ (Options.ofRoot root).2, ?_, ?_⟩
        · exact fun _ => RenderError.noConfusion
        · intro other same
          simp only [Backend.traced, same, made]
          rfl
      | ok s => exact absurd ⟨⟨records, read⟩, options, settled, made⟩ (closed root s)

variable (deliver) in
theorem render_of_opens {root : Markup.Element} {s : σ}
    (opens : r.Opens backend reader markup root s) :
    ∃ records, r.render backend.traced markup deliver reader =
      (r.interpret backend.traced deliver root (s, [])).after records := by
  obtain ⟨⟨records, read⟩, options, settled, made⟩ := opens
  refine ⟨records ++ (Options.ofRoot root).2, ?_⟩
  simp only [render, read, renderElement, settled, Backend.traced, made]
  exact Reply.after_after _ _ _

variable (deliver) in
theorem course_of_opens {root : Markup.Element} {s : σ}
    (opens : r.Opens backend reader markup root s) :
    ∃ final driver,
      (r.render backend.traced markup deliver reader).session = some (final,
        ((r.registry.pass root.children).run backend.traced (s, [])).session.2 ++ driver) ∧
      Course r backend deliver ((r.registry.pass root.children).run backend.traced (s, []))
        (r.render backend.traced markup deliver reader).result driver := by
  obtain ⟨records, interpreted⟩ := render_of_opens deliver opens
  rw [interpreted]
  exact course_interpret r backend deliver root s rfl

theorem result_render_ne_interpret (e : SessionError) :
    (r.render backend.traced markup deliver reader).result ≠
      some (.error (.interpret (.session e))) := by
  by_cases opens : ∃ root s, r.Opens backend reader markup root s
  · obtain ⟨root, s, opens⟩ := opens
    obtain ⟨final, driver, -, course⟩ := course_of_opens deliver opens
    exact course.ne_interpret e
  · have closed : ∀ root s, ¬ r.Opens backend reader markup root s :=
      fun root s opens' => opens ⟨root, s, opens'⟩
    obtain ⟨error, records, own, failed⟩ := render_of_not_opens deliver closed
    rw [failed backend rfl]
    intro same
    exact own e (Except.error.inj (Option.some.inj same))

end Opening

/-- A render keeps its contract with any kind of session, whatever its operations answer, however
markup is read and however far the output gets. -/
theorem render_keeps_contract (r : Renderer) (backend : Backend σ) (reader : Markup.NodeReader)
    (markup : String) (deliver : Delivery.Transfer → Delivery.Transfer)
    (delivers : ∀ t, Execution t (deliver t)) :
    let report := r.render backend.traced markup deliver reader
    report.keeping (Option.map Prod.fst) = r.render backend markup deliver reader ∧
      (∀ e, report.result ≠ some (.error (.interpret (.session e)))) ∧
      ((∀ root s, ¬ r.Opens backend reader markup root s) →
        report.session = none ∧ (∃ e, report.result = some (.error e)) ∧
          ∀ other : Backend σ, other.create = backend.create →
            r.render other markup deliver reader = r.render backend markup deliver reader) ∧
      ∀ root s, r.Opens backend reader markup root s →
        let pass := (r.registry.pass root.children).run backend.traced (s, [])
        ∃ final driver,
          report.session = some (final, pass.session.2 ++ driver) ∧
            Contract r backend deliver pass report.result driver ∧
            ∀ e, r.registry.Raises backend root.children s (.session e) →
              report.result = some (.error (.session e)) := by
  intro report
  refine ⟨render_traced markup reader, result_render_ne_interpret, ?_, ?_⟩
  · intro closed
    obtain ⟨error, records, -, failed⟩ := render_of_not_opens deliver closed
    have fails : report = .failed error records := failed backend rfl
    rw [fails]
    refine ⟨rfl, ⟨error, rfl⟩, ?_⟩
    intro other same
    calc r.render other markup deliver reader
      _ = (r.render other.traced markup deliver reader).keeping (Option.map Prod.fst) :=
        (render_traced markup reader).symm
      _ = report.keeping (Option.map Prod.fst) := by rw [failed other same, fails]
      _ = r.render backend markup deliver reader := render_traced markup reader
  · intro root s opens
    obtain ⟨final, driver, session, course⟩ := course_of_opens deliver opens
    refine ⟨final, driver, session, course.contract delivers, ?_⟩
    intro e raises
    have ended := raises.ends_pass
    rw [← Script.run_traced backend _ s []] at ended
    exact course.result_of_error ended

/-- A text in front of the first page is refused, and the session gives up after it. -/
theorem text_without_page_gives_up :
    let report := ({} : Renderer).render Recorder.backend.traced
      "<document><text>x</text></document>" Delivery.Transfer.settled
    report.result = some (.error (.session .noActivePage)) ∧
      ∃ final front,
        report.session = some (final, .draw (.drawText "x" {}) :: (front ++ [.abandon])) ∧
        .finalize ∉ front ∧ .abandon ∉ front := by
  intro report
  obtain ⟨-, -, -, opened⟩ := render_keeps_contract {} Recorder.backend
    Markup.Node.ofString "<document><text>x</text></document>" Delivery.Transfer.settled
    Delivery.Transfer.execution_settled
  have tree : Markup.Node.ofString "<document><text>x</text></document>" =
      .ok (.element "document" [] ⟨1, 1⟩ [.element "text" [] ⟨1, 11⟩ [.text "x"]]) := by with_unfolding_all rfl
  have opens : ({} : Renderer).Opens Recorder.backend Markup.Node.ofString
      "<document><text>x</text></document>"
      (.mk "document" "" .empty [.mk "text" (.single (.mk "text" "x" .empty []))])
      (Recorder.start {}) := by
    constructor
    · refine ⟨[], ?_⟩
      rw [parse, Markup.parse, tree]
      rfl
    · have room : ¬ ({} : Options).margin * 2 ≥ ({} : Options).page.shortest := by decide +kernel
      refine ⟨{}, ?_, rfl⟩
      show Options.checkRoom "document" .empty {} = .ok {}
      exact if_neg room
  have raises : ({} : Renderer).registry.Raises Recorder.backend
      [.mk "text" (.single (.mk "text" "x" .empty []))] (Recorder.start {})
      (.session .noActivePage) :=
    ⟨[], ⟨"text", .empty, "x"⟩, Handler.text, [], Recorder.start {}, rfl, rfl, rfl⟩
  obtain ⟨final, driver, session, contract, raised⟩ := opened _ _ opens
  have failed : report.result = _ := raised _ raises
  obtain ⟨front, rfl, once⟩ := contract.given_up _ failed
  refine ⟨failed, final, front, session.trans ?_, ?_, once⟩
  · rfl
  · intro asked
    obtain ⟨summary, passed⟩ := contract.finalize_passed (List.mem_append_left _ asked)
    have stopped := raises.ends_pass
    rw [← Script.run_traced Recorder.backend _ _ []] at stopped
    cases passed.symm.trans stopped

end Renderer

end Folio
