import Folio.Proofs.Session.Carried

/-! # The life of a session

A session is open until it promises its output or is told to give up, and it never opens again.
So it promises its output once at most, and every later request is refused for the reason for
which the session is closed. A promise that nothing can carry changes nothing.
-/

namespace Folio

def Stage.refusal : Stage → SessionError
  | .abandoned => .finalized
  | .drawing | .finalized => .alreadyFinalized

namespace Compositor

variable {encode : Encoder} {s t : Compositor}

theorem Course.stage_eq {what : Drawing} {records : List Record}
    (course : Course s what t records) :
    t.stage = s.stage := by
  cases course with
  | textDrawn some settled =>
    rw [kept_drawLines stage (fun _ => rfl) (fun _ _ _ => rfl), fontNumber_snd]
  | pageAdded | fontSet | sizeSet | colorSet | nothingDrawn => rfl

theorem stage_draw (encode : Encoder) (s : Compositor) (what : Drawing) :
    ((backendWith encode).answer s (.draw what)).2.stage = s.stage := by
  rcases answer_draw encode s what with ⟨records, t, run, answer⟩ | ⟨e, answer⟩
  · rw [answer]
    exact (course_of_drawn run).2.stage_eq
  · rw [answer]

theorem draw_of_closed (closed : s.stage ≠ .drawing) (what : Drawing) :
    (backendWith encode).answer s (.draw what) = (.error .finalized, s) := by
  have refused : (drawn what).run s = (.error .finalized, s) := by
    refine (Work.run_bind ensureOpen _ s).trans ?_
    rw [run_ensureOpen, if_neg closed]
  simp only [Backend.answer, backendWith, refused]

theorem finalize_of_closed (closed : s.stage ≠ .drawing) (runtime : Bool) :
    (backendWith encode).finalize runtime s =
      { result := .error s.stage.refusal, session := s } := by
  have refused : (finalize encode runtime).run s = (.error s.stage.refusal, s) := by
    refine (Work.run_bind ensureUnpromised _ s).trans ?_
    rw [run_ensureUnpromised]
    cases stage : s.stage with
    | drawing => exact absurd stage closed
    | finalized | abandoned => rfl
  simp only [backendWith, refused]

def contents (encode : Encoder) (s : Compositor) : Except SessionError (List Bytes) :=
  s.pages.reverse.mapM fun page => (encode page.instructions).mapError .pdf

theorem contents_of_total (total : encode.Total) (s : Compositor) :
    ∃ contents, s.contents encode = .ok contents := by
  rw [contents]
  induction s.pages.reverse with
  | nil => exact ⟨[], rfl⟩
  | cons page rest ih =>
    obtain ⟨bytes, ok⟩ := total page.instructions
    obtain ⟨others, whole⟩ := ih
    exact ⟨bytes :: others, by rw [List.mapM_cons, ok, whole]; rfl⟩

theorem finalize_of_drawing (opened : s.stage = .drawing) :
    (finalize encode true).run s =
      ((s.contents encode).map fun contents =>
          (s.document contents, [promised contents.length s.fonts.length]),
        { s with stage := .finalized, pages := [] }) := by
  have turned : (s.pages.reverse.mapM (encoded encode)).run
      { s with stage := .finalized, pages := [] } =
        (s.contents encode, { s with stage := .finalized, pages := [] }) :=
    run_mapM (fun page : Layout.Page => Work.run_check ((encode page.instructions).mapError .pdf)) _
      _
  refine (Work.run_bind ensureUnpromised _ s).trans ?_
  rw [run_ensureUnpromised, opened]
  refine (Work.run_bind (ensureRuntime true) _ s).trans ?_
  rw [run_ensureRuntime]
  -- Closing the session and taking its pages cannot be refused.
  refine (Work.run_bind _ _ _).trans ((Work.run_bind _ _ _).trans ((Work.run_bind _ _ _).trans ?_))
  dsimp only
  rw [turned]
  cases s.contents encode with
  | error e => rfl
  | ok contents => rfl

theorem stage_of_closed (closed : s.stage ≠ .drawing) (request : Request) :
    ((backendWith encode).answer s request).2.stage =
      if request = .abandon then .abandoned else s.stage := by
  cases request with
  | draw what => exact stage_draw encode s what
  | abandon => rfl
  | finalize runtime => rw [if_neg Request.noConfusion, Backend.answer, finalize_of_closed closed]

theorem still_closed (closed : s.stage ≠ .drawing) (request : Request) :
    ((backendWith encode).answer s request).2.stage ≠ .drawing := by
  rw [stage_of_closed closed]
  split
  · exact Stage.noConfusion
  · exact closed

theorem stage_after_of_closed (closed : s.stage ≠ .drawing) (requests : List Request) :
    ((backendWith encode).after s requests).stage =
      if .abandon ∈ requests then .abandoned else s.stage := by
  induction requests generalizing s with
  | nil => rfl
  | cons request rest ih =>
    refine (ih (still_closed closed request)).trans ?_
    rw [stage_of_closed closed]
    by_cases abandons : request = .abandon
    · rw [if_pos abandons, ite_self, if_pos (abandons ▸ List.mem_cons_self)]
    · have mem : .abandon ∈ request :: rest ↔ .abandon ∈ rest := by
        simp [Ne.symm abandons]
      simp only [if_neg abandons, mem]

theorem drawing_of_after {requests : List Request}
    (opened : ((backendWith encode).after s requests).stage = .drawing) : s.stage = .drawing := by
  by_cases drawing : s.stage = .drawing
  · exact drawing
  · rw [stage_after_of_closed drawing] at opened
    split at opened
    · cases opened
    · exact opened

theorem promised_of_closed (closed : s.stage ≠ .drawing) (request : Request) :
    (backendWith encode).promised s request = [] := by
  cases request with
  | draw | abandon => rfl
  | finalize runtime =>
    rw [Backend.promised, finalize_of_closed closed]
    rfl

theorem promises_of_closed (closed : s.stage ≠ .drawing) (requests : List Request) :
    (backendWith encode).promises s requests = [] := by
  induction requests generalizing s with
  | nil => rfl
  | cons request rest ih =>
    rw [Backend.promises_cons, promised_of_closed closed, ih (still_closed closed request),
      List.append_nil]

theorem promised_length_le (s : Compositor) (request : Request) :
    ((backendWith encode).promised s request).length ≤ 1 := by
  cases request with
  | draw | abandon => exact Nat.zero_le 1
  | finalize runtime =>
    rw [Backend.promised]
    cases ((backendWith encode).finalize runtime s).result with
    | error e => exact Nat.zero_le 1
    | ok production => exact Nat.le_refl 1

theorem drawing_of_noRuntime (refused : ((backendWith encode).answer s (.finalize false)).1 =
    .error .noRuntime) : s.stage = .drawing := by
  cases stage : s.stage with
  | drawing => rfl
  | finalized | abandoned =>
    rw [Backend.answer, finalize_of_closed (by simp [stage]), stage] at refused
    cases refused

theorem finalize_false (opened : s.stage = .drawing) :
    (backendWith encode).finalize false s =
      { result := .error .noRuntime, session := s } := by
  have refused : (finalize encode false).run s = (.error .noRuntime, s) := by
    refine (Work.run_bind ensureUnpromised _ s).trans ?_
    rw [run_ensureUnpromised, opened]
    rfl
  simp only [backendWith, refused]

theorem unchanged_of_noRuntime (opened : s.stage = .drawing) :
    ((backendWith encode).answer s (.finalize false)).2 = s := by
  rw [Backend.answer, finalize_false opened]

theorem finalized_of_drawing (opened : s.stage = .drawing) :
    ((backendWith encode).answer s (.finalize true)).2 =
      { s with stage := .finalized, pages := [] } := by
  simp only [Backend.answer, backendWith, finalize_of_drawing opened]
  cases s.contents encode <;> rfl

inductive GoesOn (s : Compositor) : Request → Compositor → Prop
  | drawn {what : Drawing} {t : Compositor} {records : List Record}
      (course : Course s what t records) : GoesOn s (.draw what) t
  | finalized (runtime : Bool) :
      GoesOn s (.finalize runtime) { s with stage := .finalized, pages := [] }
  | abandoned : GoesOn s .abandon s.abandon
  | refused (request : Request) : GoesOn s request s

/-- A promise that fails when pages are turned into bytes closes the session like one that is
kept. -/
theorem goesOn_answer (encode : Encoder) (s : Compositor) (request : Request) :
    GoesOn s request ((backendWith encode).answer s request).2 := by
  cases request with
  | draw what =>
    rcases answer_draw encode s what with ⟨records, t, run, answer⟩ | ⟨e, answer⟩
    · rw [answer]
      exact .drawn (course_of_drawn run).2
    · rw [answer]
      exact .refused _
  | finalize runtime =>
    by_cases opened : s.stage = .drawing
    · cases runtime with
      | false =>
        rw [unchanged_of_noRuntime opened]
        exact .refused _
      | true =>
        rw [finalized_of_drawing opened]
        exact .finalized true
    · rw [Backend.answer, finalize_of_closed opened]
      exact .refused _
  | abandon => exact .abandoned

/-- What every request keeps is kept by all of them. -/
theorem kept_after (encode : Encoder) {P : Compositor → Prop} {requests : List Request}
    (step : ∀ request ∈ requests, ∀ s t, GoesOn s request t → P s → P t) (start : P s) :
    P ((backendWith encode).after s requests) := by
  induction requests generalizing s with
  | nil => exact start
  | cons request rest ih =>
    obtain ⟨first, others⟩ := List.forall_mem_cons.1 step
    exact ih others (first s _ (goesOn_answer encode s request) start)

theorem finalized_of_promised {request : Request}
    (some : (backendWith encode).promised s request ≠ []) :
    ((backendWith encode).answer s request).2.stage = .finalized := by
  by_cases opened : s.stage = .drawing
  · cases request with
    | draw | abandon => exact absurd rfl some
    | finalize runtime =>
      cases runtime with
      | false =>
        rw [Backend.promised, finalize_false opened] at some
        exact absurd rfl some
      | true => rw [finalized_of_drawing opened]
  · exact absurd (promised_of_closed opened request) some

theorem stage_after (s : Compositor) {requests : List Request}
    (closes : .abandon ∈ requests ∨ (backendWith encode).promises s requests ≠ []) :
    ((backendWith encode).after s requests).stage =
      if .abandon ∈ requests then .abandoned else .finalized := by
  induction requests generalizing s with
  | nil => simp [Backend.promises, Backend.collected] at closes
  | cons request rest ih =>
    by_cases abandons : request = .abandon
    · subst abandons
      have closed : ((backendWith encode).answer s .abandon).2.stage ≠ .drawing :=
        Stage.noConfusion
      refine (stage_after_of_closed closed rest).trans ?_
      rw [if_pos List.mem_cons_self]
      exact ite_self _
    · have mem : .abandon ∈ request :: rest ↔ .abandon ∈ rest := by
        simp [Ne.symm abandons]
      simp only [mem] at closes ⊢
      by_cases none : (backendWith encode).promised s request = []
      · rw [Backend.promises_cons, none, List.nil_append] at closes
        exact ih _ closes
      · have finalized := finalized_of_promised none
        refine (stage_after_of_closed (by rw [finalized]; exact Stage.noConfusion) rest).trans ?_
        rw [finalized]

theorem promises_length_le (s : Compositor) (requests : List Request) :
    ((backendWith encode).promises s requests).length ≤ 1 := by
  induction requests generalizing s with
  | nil => exact Nat.zero_le 1
  | cons request rest ih =>
    rw [Backend.promises_cons]
    by_cases none : (backendWith encode).promised s request = []
    · rw [none]
      exact ih _
    · have closed : ((backendWith encode).answer s request).2.stage ≠ .drawing := by
        rw [finalized_of_promised none]
        exact Stage.noConfusion
      rw [promises_of_closed closed, List.append_nil]
      exact promised_length_le s request

theorem stage_after_of_undecided {requests : List Request} (without : .abandon ∉ requests)
    (unpromised : .finalize true ∉ requests) (s : Compositor) :
    ((backendWith encode).after s requests).stage = s.stage := by
  induction requests generalizing s with
  | nil => rfl
  | cons request rest ih =>
    obtain ⟨goes_on, without⟩ := not_or.1 (mt List.mem_cons.2 without)
    obtain ⟨other, unpromised⟩ := not_or.1 (mt List.mem_cons.2 unpromised)
    refine (ih without unpromised _).trans ?_
    by_cases opened : s.stage = .drawing
    · cases request with
      | draw what => exact stage_draw encode s what
      | abandon => exact absurd rfl goes_on
      | finalize runtime =>
        cases runtime with
        | true => exact absurd rfl other
        | false => exact congrArg stage (unchanged_of_noRuntime opened)
    · rw [stage_of_closed opened, if_neg (Ne.symm goes_on)]

structure Fares (encode : Encoder) (s : Compositor) (requests : List Request) : Prop where
  once : ((backendWith encode).promises s requests).length ≤ 1
  closed : .abandon ∈ requests ∨ (backendWith encode).promises s requests ≠ [] →
    let t := (backendWith encode).after s requests
    (∀ what, ((backendWith encode).answer t (.draw what)).1 = .error .finalized) ∧
      ∀ runtime, ((backendWith encode).answer t (.finalize runtime)).1 =
        .error (if .abandon ∈ requests then .finalized else .alreadyFinalized)
  /-- Whoever gives up before the promise never promises. -/
  given_up : ∀ front behind, requests = front ++ .abandon :: behind →
    (backendWith encode).promises s front = [] → (backendWith encode).promises s requests = []
  /-- Without the promise that nothing could carry the session would be where it is, and as long
  as it is neither given up nor promised its pages can be had. -/
  uncarried : ∀ front behind, requests = front ++ .finalize false :: behind →
    ((backendWith encode).answer ((backendWith encode).after s front) (.finalize false)).1 =
        .error .noRuntime →
      let t := (backendWith encode).after s requests
      t = (backendWith encode).after s (front ++ behind) ∧
        (.abandon ∉ behind → .finalize true ∉ behind → t.stage = .drawing ∧
          (encode.Total → ∃ contents, t.contents encode = .ok contents ∧
            ((backendWith encode).finalize true t).result = .ok (t.document contents).production))

/-- Whatever is asked of a session, it promises its output once at most and is closed for ever
from then on, or from when it is given up; a promise that nothing can carry changes nothing. -/
theorem session_never_reopens (encode : Encoder) (s : Compositor) (requests : List Request) :
    s.Fares encode requests := by
  refine ⟨promises_length_le s requests, ?_, ?_, ?_⟩
  · intro closes t
    have stage : t.stage = if .abandon ∈ requests then .abandoned else .finalized :=
      stage_after s closes
    have closed : t.stage ≠ .drawing := by
      rw [stage]
      split <;> exact Stage.noConfusion
    refine ⟨fun what => by rw [draw_of_closed closed], fun runtime => ?_⟩
    rw [Backend.answer, finalize_of_closed closed, stage]
    split <;> rfl
  · rintro front behind rfl none
    have closed :
        ((backendWith encode).answer ((backendWith encode).after s front) .abandon).2.stage ≠
          .drawing := Stage.noConfusion
    rw [Backend.promises_append, none, Backend.promises_cons, promises_of_closed closed]
    rfl
  · rintro front behind rfl refused t
    have opened := drawing_of_noRuntime refused
    have unchanged : ((backendWith encode).answer ((backendWith encode).after s front)
        (.finalize false)).2 = (backendWith encode).after s front :=
      unchanged_of_noRuntime opened
    have later : t = (backendWith encode).after ((backendWith encode).after s front) behind := by
      refine (Backend.after_append _ s front _).trans ?_
      exact congrArg (fun u => (backendWith encode).after u behind) unchanged
    refine ⟨later.trans (Backend.after_append _ s front behind).symm, fun without unpromised => ?_⟩
    have still : t.stage = .drawing := by
      rw [later, stage_after_of_undecided without unpromised, opened]
    refine ⟨still, fun total => ?_⟩
    obtain ⟨contents, ok⟩ := contents_of_total total t
    refine ⟨contents, ok, ?_⟩
    simp only [backendWith, finalize_of_drawing still, ok]
    rfl

theorem session_given_up_late :
    let encode : Encoder := fun instructions => .ok (Layout.encode instructions)
    let s : Compositor :=
      { page := ⟨612, 792⟩, margin := 72, info := {}, cursor := 72, font := .helvetica,
        fontSize := 12 }
    let requests : List Request :=
      [.draw .addPage, .draw (.drawText "one" {}), .finalize false, .draw (.drawText "two" {}),
        .finalize true, .draw .addPage, .finalize true, .abandon]
    encode.Total ∧ s.Fares encode requests ∧
      ((backendWith encode).promises s requests).length = 1 ∧
      ((backendWith encode).answer ((backendWith encode).after s requests) (.finalize true)).1 =
        .error .finalized := by
  intro encode s requests
  have total : encode.Total := fun instructions => ⟨_, rfl⟩
  have fares := session_never_reopens encode s requests
  have abandons : .abandon ∈ requests := by decide +kernel
  refine ⟨total, fares, by decide +kernel, ?_⟩
  rw [(fares.closed (.inl abandons)).2 true, if_pos abandons]

end Compositor

end Folio
