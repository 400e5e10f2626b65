import Folio.Proofs.Session.Lifecycle
import Folio.Proofs.Session.Recorded

/-! # A double for a session

A recorder stands in for a session that draws. The two keep different books of where they are, and
yet nobody who asks for what can be drawn can tell them apart by their answers.
-/

namespace Folio

structure TextOptions.Drawable (options : TextOptions) : Prop where
  width : ∀ width, options.width = some width → (width.isFinite && width > 0) = true
  align : ∀ raw, options.align ≠ some (.other raw)

namespace Request

def Drawable : Request → Prop
  | .draw (.drawText _ options) => options.Drawable
  | .draw _ | .finalize _ | .abandon => True

/-- Two answers to a request say the same. Promises are compared by whether they are made: a session
that draws says why it is closed, and a recorder does not. -/
def Alike : Request → Answer → Answer → Prop
  | .finalize _, one, other => one = .ok () ↔ other = .ok ()
  | .draw _, one, other | .abandon, one, other => one = other

end Request

structure Mirrors (r : Recorder) (c : Compositor) : Prop where
  opened : r.closed = false ↔ c.stage = .drawing
  page : c.stage = .drawing → (r.hasPage = true ↔ c.pages ≠ [])

namespace Compositor

variable {s : Compositor}

theorem run_ensureOpen_bind {α : Type} (opened : s.stage = .drawing) (next : Work α) :
    (ensureOpen >>= fun _ => next).run s = next.run s := by
  rw [Work.run_bind, run_ensureOpen, if_pos opened]

section Opened

variable (opened : s.stage = .drawing)

include opened

theorem run_setFont (name : String) :
    (drawn (.setFont name)).run s =
      match Font.ofName? name with
      | some font => (.ok [], { s with font := font })
      | none => (.error (.fontNotFound name), s) := by
  refine (run_ensureOpen_bind opened _).trans ?_
  dsimp only
  cases Font.ofName? name <;> rfl

theorem run_setFontSize (size : Float32) :
    (drawn (.setFontSize size)).run s =
      if size.isFinite && size > 0 then (.ok [], { s with fontSize := size })
      else (.error (.invalidValue .fontSize size), s) := by
  refine (run_ensureOpen_bind opened _).trans ?_
  dsimp only
  rw [checkPositive]
  split <;> rfl

theorem run_setFillColor (value : String) :
    (drawn (.setFillColor value)).run s =
      match Color.parse value with
      | .ok color => (.ok [], { s with color := color })
      | .error why => (.error (.unsupportedColor value why.message), s) := by
  refine (run_ensureOpen_bind opened _).trans ?_
  dsimp only
  cases Color.parse value <;> rfl

theorem run_drawText (page : s.pages ≠ []) {options : TextOptions} (drawable : options.Drawable)
    (text : String) : ∃ records t, (drawn (.drawText text options)).run s = (.ok records, t) := by
  have aligned : ∃ align, (alignmentOf options).run s = (.ok align, s) := by
    rw [run_alignmentOf]
    cases asked : options.align with
    | none => exact ⟨_, rfl⟩
    | some align =>
      cases align with
      | other raw => exact absurd asked (drawable.align raw)
      | left | center | right | justify => exact ⟨_, rfl⟩
  have wide : ∃ width, (widthOf options).run s = (.ok width, s) := by
    rw [run_widthOf]
    cases asked : options.width with
    | none => exact ⟨_, rfl⟩
    | some width => exact ⟨width, congrArg (·, s) (if_pos (drawable.width width asked))⟩
  obtain ⟨align, aligned⟩ := aligned
  obtain ⟨width, wide⟩ := wide
  have there : ensurePage.run s = (.ok (), s) := by
    rw [run_ensurePage, if_neg (by simpa using page)]
  have run : (drawn (.drawText text options)).run s = (drawText text options).run s :=
    run_ensureOpen_bind opened _
  rw [run, drawText, Work.run_bind, there]
  dsimp only
  rw [Work.run_bind, aligned]
  dsimp only
  rw [Work.run_bind, wide]
  dsimp only
  split <;> exact ⟨_, _, rfl⟩

end Opened

end Compositor

open Compositor

variable {encode : Encoder} {r r' : Recorder} {c c' : Compositor}

/-- Both answer a request alike, and are where each other is afterwards. -/
structure InStep (encode : Encoder) (r : Recorder) (c : Compositor) (request : Request) : Prop where
  alike : request.Alike (Recorder.backend.answer r request).1
    ((backendWith encode).answer c request).1
  mirrors : Mirrors (Recorder.backend.answer r request).2
    ((backendWith encode).answer c request).2

namespace InStep

theorem of_answers {request : Request} {a b : Answer}
    (one : Recorder.backend.answer r request = (a, r'))
    (other : (backendWith encode).answer c request = (b, c')) (alike : request.Alike a b)
    (mirrors : Mirrors r' c') : InStep encode r c request := by
  constructor
  · rw [one, other]
    exact alike
  · rw [one, other]
    exact mirrors

theorem of_drawn {what : Drawing} {records : List Record} (recorded : r.drawn what = .ok r')
    (run : (drawn what).run c = (.ok records, c')) (mirrors : Mirrors r' c') :
    InStep encode r c (.draw what) := by
  have one : Recorder.backend.answer r (.draw what) = (.ok (), r') := by
    simp only [Backend.answer, Recorder.backend, recorded]
  have other : (backendWith encode).answer c (.draw what) = (.ok (), c') := by
    simp only [Backend.answer, backendWith, run]
  exact .of_answers one other rfl mirrors

theorem of_refused {what : Drawing} {e : SessionError} (recorded : r.drawn what = .error e)
    (run : (drawn what).run c = (.error e, c)) (mirrors : Mirrors r c) :
    InStep encode r c (.draw what) := by
  have one : Recorder.backend.answer r (.draw what) = (.error e, r) := by
    simp only [Backend.answer, Recorder.backend, recorded]
  have other : (backendWith encode).answer c (.draw what) = (.error e, c) := by
    simp only [Backend.answer, backendWith, run]
  exact .of_answers one other rfl mirrors

end InStep

namespace Mirrors

theorem of_create {options : Options} (recorder : Recorder.create options = .ok r)
    (compositor : Compositor.create options = .ok c) : Mirrors r c := by
  obtain ⟨font, known, _, _, rfl⟩ := Compositor.of_create compositor
  rw [Recorder.create, if_pos (by rw [known]; rfl)] at recorder
  cases recorder
  exact ⟨by simp [Recorder.start], fun _ => by simp [Recorder.start]⟩

theorem draw (mirrors : Mirrors r c) (opened : c.stage = .drawing) {what : Drawing}
    (drawable : (Request.draw what).Drawable) : InStep encode r c (.draw what) := by
  have same := mirrors.opened.2 opened
  have page := mirrors.page opened
  have recorded {t : Recorder} (course : r.Course what t) : r.drawn what = .ok t :=
    Recorder.drawn_eq_ok_iff.2 ⟨same, course⟩
  cases what with
  | addPage =>
    refine .of_drawn (recorded .pageAdded) (run_ensureOpen_bind opened _)
      ⟨mirrors.opened, fun _ => ?_⟩
    exact iff_of_true rfl (List.cons_ne_nil _ _)
  | setFont name =>
    have carried := run_setFont opened name
    cases known : Font.ofName? name with
    | none =>
      rw [known] at carried
      exact .of_refused (by simp [Recorder.drawn, same, known]) carried mirrors
    | some font =>
      rw [known] at carried
      exact .of_drawn (recorded (.fontSet known)) carried ⟨mirrors.opened, mirrors.page⟩
  | setFontSize size =>
    have carried := run_setFontSize opened size
    by_cases positive : (size.isFinite && size > 0) = true
    · rw [if_pos positive] at carried
      exact .of_drawn (recorded (.sizeSet positive)) carried ⟨mirrors.opened, mirrors.page⟩
    · have refused : r.drawn (.setFontSize size) = .error (.invalidValue .fontSize size) := by
        rw [Recorder.drawn, same]
        exact if_neg positive
      rw [if_neg positive] at carried
      exact .of_refused refused carried mirrors
  | setFillColor value =>
    have carried := run_setFillColor opened value
    cases known : Color.parse value with
    | error why =>
      rw [known] at carried
      exact .of_refused (by simp [Recorder.drawn, same, known]) carried mirrors
    | ok color =>
      rw [known] at carried
      exact .of_drawn (recorded (.colorSet known)) carried ⟨mirrors.opened, mirrors.page⟩
  | drawText text options =>
    by_cases there : c.pages = []
    · have nowhere : r.hasPage = false := by simpa [there] using page
      have carried : (drawn (.drawText text options)).run c = (.error .noActivePage, c) := by
        refine (run_ensureOpen_bind opened _).trans ((Work.run_bind ensurePage _ c).trans ?_)
        rw [run_ensurePage, there]
        rfl
      exact .of_refused (by simp [Recorder.drawn, same, nowhere]) carried mirrors
    · obtain ⟨records, t, carried⟩ := run_drawText opened there drawable text
      obtain ⟨_, course⟩ := course_of_drawn carried
      refine .of_drawn (recorded (.textDrawn (page.2 there))) carried ⟨?_, fun _ => ?_⟩
      · rw [course.stage_eq]
        exact mirrors.opened
      · exact iff_of_true (page.2 there) (course.pages_ne_nil there)

theorem finalize (total : encode.Total) (mirrors : Mirrors r c) (opened : c.stage = .drawing)
    (runtime : Bool) : InStep encode r c (.finalize runtime) := by
  have same := mirrors.opened.2 opened
  cases runtime with
  | false =>
    have one : Recorder.backend.answer r (.finalize false) = (.error .noRuntime, r) := by
      simp [Backend.answer, Recorder.backend, Recorder.finalize, same, Except.map]
    have other : (backendWith encode).answer c (.finalize false) = (.error .noRuntime, c) := by
      simp only [Backend.answer, finalize_false opened]
      rfl
    exact .of_answers one other Iff.rfl mirrors
  | true =>
    have one : Recorder.backend.answer r (.finalize true) =
        (.ok (), { r with closed := true }.record .finalize) := by
      simp [Backend.answer, Recorder.backend, Recorder.finalize, same, Except.map]
    have other : (backendWith encode).answer c (.finalize true) =
        (.ok (), { c with stage := .finalized, pages := [] }) := by
      obtain ⟨contents, ok⟩ := contents_of_total total c
      simp only [Backend.answer, backendWith, finalize_of_drawing opened, ok]
      rfl
    exact .of_answers one other Iff.rfl
      ⟨iff_of_false Bool.noConfusion Stage.noConfusion, Stage.noConfusion⟩

theorem closed (mirrors : Mirrors r c) (closed : c.stage ≠ .drawing) (request : Request) :
    InStep encode r c request := by
  have same : r.closed = true := by simpa using mt mirrors.opened.1 closed
  cases request with
  | draw what =>
    have one : Recorder.backend.answer r (.draw what) = (.error .finalized, r) := by
      simp [Backend.answer, Recorder.backend, Recorder.drawn, same]
    exact .of_answers one (draw_of_closed closed what) rfl mirrors
  | finalize runtime =>
    have one : Recorder.backend.answer r (.finalize runtime) = (.error .alreadyFinalized, r) := by
      simp [Backend.answer, Recorder.backend, Recorder.finalize, same, Except.map]
    have other : (backendWith encode).answer c (.finalize runtime) =
        (.error c.stage.refusal, c) := by
      simp only [Backend.answer, finalize_of_closed closed]
      rfl
    exact .of_answers one other (iff_of_false (by simp) (by simp)) mirrors
  | abandon =>
    have one : Recorder.backend.answer r .abandon = (.ok (), r) := by
      simp [Backend.answer, Recorder.backend, Recorder.abandon, same]
    refine .of_answers one rfl rfl ⟨iff_of_false ?_ Stage.noConfusion, Stage.noConfusion⟩
    simp [same]

theorem answer (total : encode.Total) (mirrors : Mirrors r c) {request : Request}
    (drawable : request.Drawable) : InStep encode r c request := by
  by_cases opened : c.stage = .drawing
  · cases request with
    | draw what => exact mirrors.draw opened drawable
    | finalize runtime => exact mirrors.finalize total opened runtime
    | abandon =>
      have one : Recorder.backend.answer r .abandon =
          (.ok (), { r with closed := true }.record .abandon) := by
        simp [Backend.answer, Recorder.backend, Recorder.abandon, mirrors.opened.2 opened]
      exact .of_answers one rfl rfl
        ⟨iff_of_false Bool.noConfusion Stage.noConfusion, Stage.noConfusion⟩
  · exact mirrors.closed opened request

theorem after (total : encode.Total) (mirrors : Mirrors r c) {requests : List Request}
    (drawable : ∀ request ∈ requests, request.Drawable) :
    Mirrors (Recorder.backend.after r requests) ((backendWith encode).after c requests) := by
  induction requests generalizing r c with
  | nil => exact mirrors
  | cons request rest ih =>
    obtain ⟨first, others⟩ := List.forall_mem_cons.1 drawable
    exact ih (mirrors.answer total first).mirrors others

end Mirrors

/-- A recorder and a session that draws, made for the same document: whatever was asked of both, as
long as all of it can be drawn, they answer the next drawing with the same result, and the next
promise is made by one if and only if it is made by the other. -/
theorem recorder_answers_alike (total : encode.Total) {options : Options}
    (recorder : Recorder.create options = .ok r) (compositor : Compositor.create options = .ok c)
    {requests : List Request} {next : Request}
    (drawable : ∀ request ∈ requests ++ [next], request.Drawable) :
    next.Alike (Recorder.backend.answer (Recorder.backend.after r requests) next).1
      ((backendWith encode).answer ((backendWith encode).after c requests) next).1 := by
  obtain ⟨earlier, last⟩ := List.forall_mem_append.1 drawable
  have mirrors := (Mirrors.of_create recorder compositor).after total earlier
  exact (mirrors.answer total (List.forall_mem_singleton.1 last)).alike

theorem recorder_answers_alike_late :
    let encode : Encoder := fun instructions => .ok (Layout.encode instructions)
    let options : TextOptions := { width := some 100, align := some .justify }
    let requests : List Request :=
      [.draw (.drawText "early" options), .draw .addPage, .draw (.setFont "Gothic"),
        .draw (.drawText "one" options), .finalize true, .abandon]
    ∃ r c, encode.Total ∧ Recorder.create {} = .ok r ∧ Compositor.create {} = .ok c ∧
      (∀ request ∈ requests ++ [.finalize true], request.Drawable) ∧
      (Recorder.backend.answer (Recorder.backend.after r requests) (.finalize true)).1 =
        .error .alreadyFinalized ∧
      ((backendWith encode).answer ((backendWith encode).after c requests) (.finalize true)).1 =
        .error .finalized ∧
      Request.Alike (.finalize true)
        (Recorder.backend.answer (Recorder.backend.after r requests) (.finalize true)).1
        ((backendWith encode).answer ((backendWith encode).after c requests)
          (.finalize true)).1 := by
  intro encode options requests
  let c : Compositor :=
    { page := ⟨612, 792⟩, margin := 72, info := ({} : Options).info, cursor := 72,
      font := .helvetica, fontSize := 12 }
  have total : encode.Total := fun instructions => ⟨_, rfl⟩
  have recorder : Recorder.create {} = .ok (.start {}) := by decide +kernel
  have compositor : Compositor.create {} = .ok c := by decide +kernel
  have fine : options.Drawable := by
    refine ⟨fun width asked => ?_, nofun⟩
    obtain rfl := Option.some.inj asked
    decide +kernel
  have drawable : ∀ request ∈ requests ++ [.finalize true], request.Drawable := by
    simp [requests, Request.Drawable, fine]
  exact ⟨_, c, total, recorder, compositor, drawable, by decide +kernel, by decide +kernel,
    recorder_answers_alike total recorder compositor drawable⟩

end Folio
