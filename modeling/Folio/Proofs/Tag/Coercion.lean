import Folio.Proofs.Session.Requests
import Folio.Proofs.Tag.Styling
import Folio.Session.Recorder

/-! # Numbers before drawings

A text tag has its two numbers read before anything is asked of the session, so a bad one is
reported while the session is as it was. Else the tag asks for its drawings one after the other, and
the first that is refused is the last that is asked for. This holds of any session, as nothing is
assumed of its answers.
-/

namespace Folio

namespace Attribute

structure Coerces (value : String) (number : Float32) : Prop where
  read : Number.single? (Text.trim value) = some number
  finite : number.isFinite = true
  positive : number > 0

inductive Refuses (value : String) : Reason → Prop
  | noNumber (none : ∀ x, Number.single? (Text.trim value) = some x → x.isFinite = false) :
      Refuses value .notANumber
  | notPositive {x : Float32} (read : Number.single? (Text.trim value) = some x)
      (finite : x.isFinite = true) (bounded : ¬ x > 0) : Refuses value .notPositive

variable {value : String}

theorem number_of_finite {x : Float32} (read : Number.single? (Text.trim value) = some x)
    (finite : x.isFinite = true) : number value = .ok x := by
  rw [number, read]
  exact if_pos finite

theorem Coerces.eq_ok {x : Float32} (coerces : Coerces value x) :
    Attribute.positive value = .ok x := by
  rw [Attribute.positive, number_of_finite coerces.read coerces.finite]
  exact if_pos coerces.positive

theorem Refuses.eq_error {reason : Reason} (refuses : Refuses value reason) :
    positive value = .error reason := by
  cases refuses with
  | noNumber none =>
    have unread : number value = .error .notANumber := by
      rw [number]
      cases read : Number.single? (Text.trim value) with
      | none => rfl
      | some x => exact if_neg (by simp [none x read])
    rw [Attribute.positive, unread]
    rfl
  | notPositive read finite bounded =>
    rw [Attribute.positive, number_of_finite read finite]
    exact if_neg bounded

theorem coerces_or_refuses (value : String) :
    (∃ x, Coerces value x) ∨ ∃ reason, Refuses value reason := by
  cases read : Number.single? (Text.trim value) with
  | none => exact .inr ⟨_, .noNumber (by simp [read])⟩
  | some x =>
    by_cases finite : x.isFinite = true
    · by_cases positive : x > 0
      · exact .inl ⟨x, read, finite, positive⟩
      · exact .inr ⟨_, .notPositive read finite positive⟩
    · refine .inr ⟨_, .noNumber fun y other => ?_⟩
      obtain rfl := Option.some.inj (read.symm.trans other)
      exact Bool.eq_false_iff.2 finite

end Attribute

namespace Tag

open Attribute (Coerces Refuses)

variable {tag : Tag} {name value : String} {number? : Option Float32} {reason : Reason}

def Sets (tag : Tag) (name : String) (number? : Option Float32) : Prop :=
  (tag.attribute? name).elim (number? = none) fun value =>
    ∃ number, Coerces value number ∧ number? = some number

structure Spoils (tag : Tag) (name value : String) (reason : Reason) : Prop where
  present : tag.attribute? name = some value
  refused : Refuses value reason

/-- The first of the two numbers of a text tag that is bad. -/
inductive FirstSpoilt (tag : Tag) : String → String → Reason → Prop
  | size {value : String} {reason : Reason} (bad : tag.Spoils "fontSize" value reason) :
      FirstSpoilt tag "fontSize" value reason
  | width {size? : Option Float32} {value : String} {reason : Reason}
      (size : tag.Sets "fontSize" size?) (bad : tag.Spoils "width" value reason) :
      FirstSpoilt tag "width" value reason

theorem sets_or_spoils (tag : Tag) (name : String) :
    (∃ number?, tag.Sets name number?) ∨ ∃ value reason, tag.Spoils name value reason := by
  cases own : tag.attribute? name with
  | none => exact .inl ⟨none, by rw [Sets, own]; rfl⟩
  | some value =>
    rcases Attribute.coerces_or_refuses value with ⟨x, coerces⟩ | ⟨reason, refuses⟩
    · exact .inl ⟨some x, by rw [Sets, own]; exact ⟨x, coerces, rfl⟩⟩
    · exact .inr ⟨value, reason, own, refuses⟩

theorem Sets.positive? (sets : tag.Sets name number?) : tag.positive? name = .ok number? := by
  rw [Sets] at sets
  rw [Tag.positive?]
  cases own : tag.attribute? name with
  | none =>
    rw [own] at sets
    exact congrArg Except.ok (Eq.symm sets)
  | some value =>
    rw [own] at sets
    obtain ⟨number, coerces, rfl⟩ := sets
    simp only [coerces.eq_ok]
    rfl

theorem Spoils.positive? (spoils : tag.Spoils name value reason) :
    tag.positive? name = .error (.invalidAttribute tag.name name value reason) := by
  rw [Tag.positive?, spoils.present]
  simp only [spoils.refused.eq_error]
  rfl

theorem FirstSpoilt.textOptions (spoilt : tag.FirstSpoilt name value reason) :
    tag.textOptions = .error (.invalidAttribute tag.name name value reason) := by
  cases spoilt with
  | size bad =>
    rw [Tag.textOptions, bad.positive?]
    rfl
  | width size bad =>
    rw [Tag.textOptions, size.positive?, bad.positive?]
    rfl

theorem firstSpoilt_or_sets (tag : Tag) :
    (∃ name value reason, tag.FirstSpoilt name value reason) ∨
      ∃ size? width?, tag.Sets "fontSize" size? ∧ tag.Sets "width" width? := by
  rcases tag.sets_or_spoils "fontSize" with ⟨size?, size⟩ | ⟨value, reason, bad⟩
  · rcases tag.sets_or_spoils "width" with ⟨width?, width⟩ | ⟨value, reason, bad⟩
    · exact .inr ⟨size?, width?, size, width⟩
    · exact .inl ⟨_, value, reason, .width size bad⟩
  · exact .inl ⟨_, value, reason, .size bad⟩

def drawingOptions (tag : Tag) (width? : Option Float32) : TextOptions where
  width := width?
  align := (tag.attribute? "align").map Align.parse

theorem textOptions_of_sets {size? width? : Option Float32} (size : tag.Sets "fontSize" size?)
    (width : tag.Sets "width" width?) :
    tag.textOptions = .ok (size?, tag.drawingOptions width?) := by
  rw [Tag.textOptions, size.positive?, width.positive?]
  rfl

def drawings (tag : Tag) (size? width? : Option Float32) : List Drawing :=
  (tag.attribute? "font").toList.map .setFont ++
    (size?.toList.map .setFontSize ++
      ((tag.attribute? "color").toList.map .setFillColor ++
        [.drawText tag.text (tag.drawingOptions width?)]))

end Tag

section Sessions

variable {σ : Type} {backend : Backend σ} {s after : σ}

/-- Of the drawings that are asked for one after the other, those up to the first that is refused
are made known to the session. The answer is the refusal, if there is one. -/
inductive Backend.Asks (backend : Backend σ) :
    σ → List Drawing → List Drawing → Answer → σ → Prop
  | done {s : σ} : Asks backend s [] [] (.ok ()) s
  | refused {s : σ} {what : Drawing} {rest : List Drawing} {e : SessionError}
      (refused : (backend.draw what s).result = .error e) :
      Asks backend s (what :: rest) [what] (.error e) (backend.draw what s).session
  | granted {s after : σ} {what : Drawing} {rest asked : List Drawing} {answer : Answer}
      (granted : (backend.draw what s).result = .ok ())
      (later : Asks backend (backend.draw what s).session rest asked answer after) :
      Asks backend s (what :: rest) (what :: asked) answer after

theorem Backend.Asks.unique {drawings asked asked' : List Drawing} {answer answer' : Answer}
    {after' : σ} (one : backend.Asks s drawings asked answer after)
    (other : backend.Asks s drawings asked' answer' after') :
    asked = asked' ∧ answer = answer' ∧ after = after' := by
  induction one generalizing asked' with
  | done =>
    cases other
    exact ⟨rfl, rfl, rfl⟩
  | refused refusal =>
    cases other with
    | refused refusal' =>
      cases refusal.symm.trans refusal'
      exact ⟨rfl, rfl, rfl⟩
    | granted grant => cases refusal.symm.trans grant
  | granted grant later ih =>
    cases other with
    | refused refusal => cases grant.symm.trans refusal
    | granted grant' later' =>
      obtain ⟨rfl, rfl, rfl⟩ := ih later'
      exact ⟨rfl, rfl, rfl⟩

def Answer.raised (answer : Answer) : Except InterpretError Unit := answer.mapError .session

theorem Answer.raised_ne_invalidAttribute (answer : Answer) (tag name value : String)
    (reason : Reason) : answer.raised ≠ .error (.invalidAttribute tag name value reason) := by
  cases answer <;> nofun

namespace Handling

theorem run_draw (backend : Backend σ) (what : Drawing) (s : σ) :
    ((draw what).run.run backend s).result = Answer.raised (backend.draw what s).result ∧
      ((draw what).run.run backend s).session = (backend.draw what s).session := by
  rw [draw, ExceptT.run_mk, Script.run]
  cases (backend.draw what s).result <;> exact ⟨rfl, rfl⟩

theorem asks_drawAll (backend : Backend σ) (drawings : List Drawing) (s : σ) (calls : List Call) :
    ∃ asked answer after, backend.Asks s drawings asked answer after ∧
      ((drawAll drawings).run.run backend.traced (s, calls)).result = Answer.raised answer ∧
      ((drawAll drawings).run.run backend.traced (s, calls)).session =
        (after, calls ++ asked.map .draw) := by
  induction drawings generalizing s calls with
  | nil =>
    refine ⟨[], .ok (), s, .done, rfl, ?_⟩
    rw [List.map_nil, List.append_nil]
    rfl
  | cons what rest ih =>
    obtain ⟨answered, drawn⟩ := run_draw backend.traced what (s, calls)
    change _ = Answer.raised (backend.draw what s).result at answered
    change _ = ((backend.draw what s).session, calls ++ [.draw what]) at drawn
    rw [drawAll]
    cases result : (backend.draw what s).result with
    | error e =>
      rw [result] at answered
      refine ⟨[what], .error e, (backend.draw what s).session, .refused result, ?_, ?_⟩
      · exact run_bind_of_error backend.traced _ answered
      · exact (session_bind_of_error backend.traced _ answered).trans drawn
    | ok value =>
      -- The others are asked of the session that this drawing leaves.
      rw [result] at answered
      obtain ⟨asked, answer, after, asks, ended, session⟩ :=
        ih (backend.draw what s).session (calls ++ [.draw what])
      obtain ⟨last, left⟩ := run_bind_of_ok backend.traced (fun _ => drawAll rest) answered
      rw [drawn] at last left
      refine ⟨what :: asked, answer, after, .granted result asks, last.trans ended, ?_⟩
      rw [left, session, List.append_assoc, List.map_cons]
      rfl

end Handling

structure Tag.Drawn (tag : Tag) (backend : Backend σ) (s : σ)
    (reply : Reply (σ × List Call) (Except InterpretError Unit)) : Prop where
  /-- A bad number is reported as it was written, and the session hears of nothing. -/
  spoilt : ∀ {name value reason}, tag.FirstSpoilt name value reason →
    reply = {
      result := .error (.invalidAttribute tag.name name value reason)
      session := (s, []) }
  /-- With good numbers the drawings are asked for in their order, up to the first refusal. -/
  sound : ∀ {size? width?}, tag.Sets "fontSize" size? → tag.Sets "width" width? →
    ∃ asked answer after, backend.Asks s (tag.drawings size? width?) asked answer after ∧
      reply.result = Answer.raised answer ∧ reply.session = (after, asked.map .draw)
  decided : (∃ name value reason, tag.FirstSpoilt name value reason) ∨
    ∃ size? width?, tag.Sets "fontSize" size? ∧ tag.Sets "width" width?
  /-- Nothing but a bad number is reported as an invalid attribute. -/
  blamed : ∀ {on name value reason},
    reply.result = .error (.invalidAttribute on name value reason) →
      on = tag.name ∧ tag.FirstSpoilt name value reason

theorem Handler.run_text_of_spoilt {tag : Tag} {name value : String} {reason : Reason}
    (spoilt : tag.FirstSpoilt name value reason) :
    (Handler.text tag).run.run backend s =
      { result := .error (.invalidAttribute tag.name name value reason), session := s } := by
  rw [Handler.text_eq, spoilt.textOptions]
  rfl

theorem Handler.run_text_of_sets {tag : Tag} {size? width? : Option Float32}
    (size : tag.Sets "fontSize" size?) (width : tag.Sets "width" width?) :
    (Handler.text tag).run.run backend s =
      (Handling.drawAll (tag.drawings size? width?)).run.run backend s := by
  rw [Handler.text_eq, Tag.textOptions_of_sets size width]
  rfl

/-- The numbers of a text tag are read before the session is asked for anything, whatever the
session would answer. -/
theorem text_coerces_first (backend : Backend σ) (tag : Tag) (s : σ) :
    tag.Drawn backend s ((Handler.text tag).run.run backend.traced (s, [])) := by
  have sound {size? width? : Option Float32} (size : tag.Sets "fontSize" size?)
      (width : tag.Sets "width" width?) := by
    have asks := Handling.asks_drawAll backend (tag.drawings size? width?) s []
    rw [← Handler.run_text_of_sets size width] at asks
    exact asks
  have decided := tag.firstSpoilt_or_sets
  refine ⟨Handler.run_text_of_spoilt, sound, decided, fun {on name value reason} blamed => ?_⟩
  rcases decided with ⟨name, value, reason, spoilt⟩ | ⟨size?, width?, size, width⟩
  · rw [Handler.run_text_of_spoilt spoilt] at blamed
    cases blamed
    exact ⟨rfl, spoilt⟩
  · obtain ⟨_, answer, _, _, result, _⟩ := sound size width
    cases answer.raised_ne_invalidAttribute on name value reason (result.symm.trans blamed)

theorem text_coerces_first_recorded :
    let bad : Tag :=
      { name := "text"
        attributes := .ofList [("font", "Courier"), ("fontSize", " 0 "), ("width", "wide")]
        text := "never" }
    let good : Tag :=
      { name := "text"
        attributes := .ofList [("font", "Courier"), ("fontSize", " 9 "), ("color", "mauve")]
        text := "never" }
    let s := Recorder.start {}
    let reply := (Handler.text good).run.run Recorder.backend.traced (s, [])
    (Handler.text bad).run.run Recorder.backend.traced (s, []) =
        { result := .error (.invalidAttribute "text" "fontSize" " 0 " .notPositive)
          session := (s, []) } ∧
      reply.session.2 =
        [.draw (.setFont "Courier"), .draw (.setFontSize 9), .draw (.setFillColor "mauve")] ∧
      reply.result =
        .error (.session (.unsupportedColor "mauve" "Unknown color name: mauve")) := by
  intro bad good s reply
  have small : Attribute.Refuses " 0 " .notPositive :=
    .notPositive (x := 0) (by decide +kernel) (by decide +kernel) (by decide +kernel)
  have spoilt : bad.FirstSpoilt "fontSize" " 0 " .notPositive := .size ⟨by decide, small⟩
  refine ⟨(text_coerces_first Recorder.backend bad s).spoilt spoilt, ?_⟩
  have size : good.Sets "fontSize" (some 9) :=
    ⟨9, ⟨by decide +kernel, by decide +kernel, by decide +kernel⟩, rfl⟩
  have width : good.Sets "width" none := by
    have absent : good.attribute? "width" = none := by decide
    rw [Tag.Sets, absent]
    rfl
  obtain ⟨asked, answer, after, asks, result, session⟩ :=
    (text_coerces_first Recorder.backend good s).sound size width
  have unknown : Recorder.backend.Asks s (good.drawings (some 9) none)
      [.setFont "Courier", .setFontSize 9, .setFillColor "mauve"]
      (.error (.unsupportedColor "mauve" "Unknown color name: mauve")) _ :=
    .granted (by decide +kernel) (.granted (by decide +kernel) (.refused (by decide +kernel)))
  obtain ⟨rfl, rfl, rfl⟩ := asks.unique unknown
  exact ⟨congrArg Prod.snd session, result⟩

end Sessions

end Folio
