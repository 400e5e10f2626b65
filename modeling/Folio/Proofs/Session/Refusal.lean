import Folio.Proofs.Session.Requests
import Folio.Session.Compositor

/-! # Refusals

A compositor looks at everything before it changes anything, so a request that it refuses leaves
no trace.
-/

namespace Folio.Compositor

namespace Work

variable {α β : Type}

def Looks (work : Work α) : Prop := ∀ s, (work.run s).2 = s

def Succeeds (work : Work α) : Prop := ∀ s, ∃ a, (work.run s).1 = .ok a

/-- The work changes nothing if it is refused. -/
def Clean (work : Work α) : Prop := ∀ s e, (work.run s).1 = .error e → (work.run s).2 = s

theorem run_bind (work : Work α) (next : α → Work β) (s : Compositor) :
    (work >>= next).run s =
      match work.run s with
      | (.ok a, t) => (next a).run t
      | (.error e, t) => (.error e, t) := by
  show (ExceptT.bindCont next ∘ fun p => p) (work.run s).1 (work.run s).2 = _
  rcases work.run s with ⟨_ | _, _⟩ <;> rfl

theorem Looks.clean {work : Work α} (looks : work.Looks) : work.Clean :=
  fun s _ _ => looks s

theorem Succeeds.clean {work : Work α} (succeeds : work.Succeeds) : work.Clean := by
  intro s e refused
  obtain ⟨a, ok⟩ := succeeds s
  cases ok.symm.trans refused

theorem Looks.bind_clean {work : Work α} {next : α → Work β} (looks : work.Looks)
    (clean : ∀ a, (next a).Clean) : (work >>= next).Clean := by
  intro s e refused
  have same := looks s
  rw [run_bind] at refused ⊢
  rcases run : work.run s with ⟨_ | a, t⟩
  · rw [run] at same
    exact same
  · rw [run] at same refused
    obtain rfl : t = s := same
    exact clean a _ e refused

theorem Succeeds.bind {work : Work α} {next : α → Work β} (succeeds : work.Succeeds)
    (later : ∀ a, (next a).Succeeds) : (work >>= next).Succeeds := by
  intro s
  obtain ⟨a, ok⟩ := succeeds s
  rw [run_bind]
  rcases run : work.run s with ⟨_ | b, t⟩
  · rw [run] at ok
    cases ok
  · exact later b t

theorem looks_get : (get : Work Compositor).Looks := fun _ => rfl

theorem looks_throw (e : SessionError) : (throw e : Work α).Looks := fun _ => rfl

theorem looks_pure (a : α) : (pure a : Work α).Looks := fun _ => rfl

theorem run_check (check : Except SessionError α) (s : Compositor) :
    (liftM check : Work α).run s = (check, s) := by
  cases check <;> rfl

theorem Looks.of_run {work : Work α} {result : Compositor → Except SessionError α}
    (run : ∀ s, work.run s = (result s, s)) : work.Looks := by
  intro s
  rw [run]

theorem succeeds_pure (a : α) : (pure a : Work α).Succeeds := fun _ => ⟨a, rfl⟩

theorem succeeds_get : (get : Work Compositor).Succeeds := fun s => ⟨s, rfl⟩

theorem succeeds_modify (f : Compositor → Compositor) : (modify f : Work Unit).Succeeds :=
  fun _ => ⟨(), rfl⟩

theorem succeeds_modifyGet (f : Compositor → α × Compositor) :
    (modifyGet f : Work α).Succeeds := fun s => ⟨(f s).1, rfl⟩

theorem succeeds_mapM {ι : Type} {f : ι → Work α} (each : ∀ i, (f i).Succeeds) (l : List ι) :
    (l.mapM f).Succeeds := by
  induction l with
  | nil => exact succeeds_pure []
  | cons i rest ih =>
    rw [List.mapM_cons]
    exact (each i).bind fun a => ih.bind fun as => succeeds_pure _

end Work

open Work

theorem run_ensureOpen (s : Compositor) :
    ensureOpen.run s = (if s.stage = .drawing then .ok () else .error .finalized, s) := by
  show (if s.stage = .drawing then pure () else throw .finalized : Work Unit).run s = _
  split <;> rfl

theorem run_ensurePage (s : Compositor) :
    ensurePage.run s = (if s.pages.isEmpty then .error .noActivePage else .ok (), s) := by
  show (if s.pages.isEmpty then throw .noActivePage else pure () : Work Unit).run s = _
  split <;> rfl

theorem run_alignmentOf (options : TextOptions) (s : Compositor) :
    (alignmentOf options).run s =
      (match options.align.getD .left with
        | .other raw => .error (.unsupportedAlignment raw)
        | align => .ok align, s) := by
  rw [alignmentOf]
  cases options.align.getD .left <;> rfl

theorem run_widthOf (options : TextOptions) (s : Compositor) :
    (widthOf options).run s =
      (match options.width with
        | some width => checkPositive .textWidth width
        | none => .ok s.contentWidth, s) := by
  rw [widthOf]
  cases options.width with
  | none => rfl
  | some width => exact run_check _ s

theorem run_ensureUnpromised (s : Compositor) :
    ensureUnpromised.run s =
      (match s.stage with
        | .abandoned => .error .finalized
        | .finalized => .error .alreadyFinalized
        | .drawing => .ok (), s) := by
  show (match s.stage with
    | .abandoned => throw .finalized
    | .finalized => throw .alreadyFinalized
    | .drawing => pure () : Work Unit).run s = _
  split <;> rfl

theorem run_ensureRuntime (runtime : Bool) (s : Compositor) :
    (ensureRuntime runtime).run s = (if runtime then .ok () else .error .noRuntime, s) := by
  rw [ensureRuntime]
  split <;> rfl

theorem clean_drawText (text : String) (options : TextOptions) :
    (drawText text options).Clean := by
  refine (Looks.of_run run_ensurePage).bind_clean fun _ => ?_
  refine (Looks.of_run (run_alignmentOf options)).bind_clean fun align => ?_
  refine (Looks.of_run (run_widthOf options)).bind_clean fun width => ?_
  split
  · exact (looks_pure _).clean
  · refine looks_get.bind_clean fun s => ?_
    -- From the number of the font on everything is a change, and nothing is refused.
    exact ((succeeds_modifyGet _).bind fun number => succeeds_modifyGet _).clean

theorem clean_drawn (what : Drawing) : (drawn what).Clean := by
  refine (Looks.of_run run_ensureOpen).bind_clean fun _ => ?_
  cases what with
  | addPage => exact (succeeds_modifyGet _).clean
  | setFont name =>
    dsimp only
    split
    · exact (succeeds_modifyGet _).clean
    · exact (looks_throw _).clean
  | setFontSize size =>
    refine (Looks.of_run (run_check _)).bind_clean fun _ => ?_
    exact (succeeds_modifyGet _).clean
  | setFillColor value =>
    dsimp only
    split
    · exact (succeeds_modifyGet _).clean
    · exact (looks_throw _).clean
  | drawText text options => exact clean_drawText text options

/-- Turning instructions into bytes never fails. -/
def Encoder.Total (encode : Encoder) : Prop :=
  ∀ instructions, ∃ bytes, encode instructions = .ok bytes

theorem clean_finalize {encode : Encoder} (total : encode.Total) (runtime : Bool) :
    (finalize encode runtime).Clean := by
  have turned (page : Layout.Page) : (encoded encode page).Succeeds := by
    intro s
    obtain ⟨bytes, ok⟩ := total page.instructions
    exact ⟨bytes, by rw [encoded, ok]; rfl⟩
  refine (Looks.of_run run_ensureUnpromised).bind_clean fun _ => ?_
  refine (Looks.of_run (run_ensureRuntime runtime)).bind_clean fun _ => Succeeds.clean ?_
  refine (succeeds_modify _).bind fun _ => (succeeds_modifyGet _).bind fun pages => ?_
  exact (succeeds_mapM turned pages).bind fun contents => succeeds_get.bind fun s => succeeds_pure _

theorem answer_draw (encode : Encoder) (s : Compositor) (what : Drawing) :
    (∃ records t, (drawn what).run s = (.ok records, t) ∧
        (backendWith encode).answer s (.draw what) = (.ok (), t)) ∨
      ∃ e, (backendWith encode).answer s (.draw what) = (.error e, s) := by
  have clean := clean_drawn what s
  rcases run : (drawn what).run s with ⟨e | records, t⟩
  · right
    rw [run] at clean
    obtain rfl : t = s := clean e rfl
    refine ⟨e, ?_⟩
    simp only [Backend.answer, backendWith, run]
  · left
    refine ⟨records, t, rfl, ?_⟩
    simp only [Backend.answer, backendWith, run]

theorem answer_finalize {encode : Encoder} (total : encode.Total) (s : Compositor)
    (runtime : Bool) :
    (∃ result t, (finalize encode runtime).run s = (.ok result, t) ∧
        (backendWith encode).answer s (.finalize runtime) = (.ok (), t)) ∨
      ∃ e, (backendWith encode).answer s (.finalize runtime) = (.error e, s) := by
  have clean := clean_finalize total runtime s
  rcases run : (finalize encode runtime).run s with ⟨e | ⟨document, records⟩, t⟩
  · right
    rw [run] at clean
    obtain rfl : t = s := clean e rfl
    refine ⟨e, ?_⟩
    simp only [Backend.answer, backendWith, run]
    rfl
  · left
    refine ⟨(document, records), t, rfl, ?_⟩
    simp only [Backend.answer, backendWith, run]
    rfl

/-- A request that is refused changes nothing of the session. -/
theorem refused_request_changes_nothing {encode : Encoder} (total : encode.Total) (s : Compositor)
    (request : Request) {e : SessionError}
    (refused : ((backendWith encode).answer s request).1 = .error e) :
    ((backendWith encode).answer s request).2 = s := by
  cases request with
  | draw what =>
    rcases answer_draw encode s what with ⟨records, t, _, answer⟩ | ⟨why, answer⟩
    · rw [answer] at refused
      cases refused
    · rw [answer]
  | finalize runtime =>
    rcases answer_finalize total s runtime with ⟨result, t, _, answer⟩ | ⟨why, answer⟩
    · rw [answer] at refused
      cases refused
    · rw [answer]
  | abandon => cases refused

theorem empty_width_refused :
    let encode : Encoder := fun instructions => .ok (Layout.encode instructions)
    let s := (backendWith encode).after
      { page := ⟨612, 792⟩, margin := 72, info := {}, cursor := 72, font := .helvetica,
        fontSize := 12 }
      [.draw .addPage, .draw (.drawText "one" {}), .draw (.setFont "Courier")]
    let request : Request := .draw (.drawText "two" { width := some 0 })
    encode.Total ∧
      ((backendWith encode).answer s request).1 = .error (.invalidValue .textWidth 0) ∧
      ((backendWith encode).answer s request).2 = s := by
  intro encode s request
  have total : encode.Total := fun instructions => ⟨_, rfl⟩
  have refused : ((backendWith encode).answer s request).1 =
      .error (.invalidValue .textWidth 0) := by decide +kernel
  exact ⟨total, refused, refused_request_changes_nothing total s request refused⟩

end Folio.Compositor
