import Folio.Proofs.Session.Recorded
import Folio.Proofs.Session.Requests
import Folio.Proofs.Tag.Styling

/-! # What is recorded

A record is compared with what was asked and answered, one request after the other, and with nothing
that the recorder itself keeps. What was refused leaves no entry, and what was granted leaves one,
in which a text has the face that was last set. A session is closed by the first promise that is
made or the first time it is given up, and that is the last entry.
-/

namespace Folio

structure Deed where
  request : Request
  answer : Answer
  deriving DecidableEq

def Backend.history {σ : Type} (backend : Backend σ) (s : σ) (requests : List Request) :
    List Deed :=
  backend.collected (fun s request => [⟨request, (backend.answer s request).1⟩]) s requests

namespace Deed

def closes : Deed → Bool
  | ⟨.finalize _, .ok _⟩ => true
  | ⟨.abandon, _⟩ => true
  | _ => false

def font? : Deed → Option Font
  | ⟨.draw (.setFont name), .ok _⟩ => Font.ofName? name
  | _ => none

def size? : Deed → Option Float32
  | ⟨.draw (.setFontSize size), .ok _⟩ => some size
  | _ => none

def color? : Deed → Option Color
  | ⟨.draw (.setFillColor value), .ok _⟩ => (Color.parse value).toOption
  | _ => none

end Deed

def lastSet {α : Type} (set? : Deed → Option α) (initial : α) (history : List Deed) : α :=
  ((history.filterMap set?).getLast?).getD initial

/-- The face in which the next text is drawn. -/
def Face.after (document : Face) (history : List Deed) : Face where
  font := lastSet Deed.font? document.font history
  size := lastSet Deed.size? document.size history
  color := lastSet Deed.color? document.color history

/-- The entries that a deed leaves, after those before it: one if it was granted and none if it was
refused. To give up a session leaves one only if the session was open. -/
inductive Deed.Leaves (document : Face) (before : List Deed) : Deed → List Entry → Prop
  | addPage : Leaves document before ⟨.draw .addPage, .ok ()⟩ [.addPage]
  | setFont {name : String} {font : Font} (known : Font.ofName? name = some font) :
      Leaves document before ⟨.draw (.setFont name), .ok ()⟩ [.setFont name]
  | setFontSize {size : Float32} :
      Leaves document before ⟨.draw (.setFontSize size), .ok ()⟩ [.setFontSize size]
  | setFillColor {value : String} {color : Color} (read : Color.parse value = .ok color) :
      Leaves document before ⟨.draw (.setFillColor value), .ok ()⟩ [.setFillColor color]
  | drawText {text : String} {options : TextOptions} :
      Leaves document before ⟨.draw (.drawText text options), .ok ()⟩
        [.drawText text (document.after before).font (document.after before).size
          (document.after before).color options]
  | finalize {runtime : Bool} : Leaves document before ⟨.finalize runtime, .ok ()⟩ [.finalize]
  | abandon (opened : before.any Deed.closes = false) :
      Leaves document before ⟨.abandon, .ok ()⟩ [.abandon]
  | abandonLate (closed : before.any Deed.closes = true) :
      Leaves document before ⟨.abandon, .ok ()⟩ []
  | refused {request : Request} {e : SessionError} :
      Leaves document before ⟨request, .error e⟩ []

inductive Logged (document : Face) : List Deed → List Entry → Prop
  | nil : Logged document [] []
  | concat {before : List Deed} {deed : Deed} {entries new : List Entry}
      (earlier : Logged document before entries) (leaves : deed.Leaves document before new) :
      Logged document (before ++ [deed]) (entries ++ new)

def Entry.closes : Entry → Bool
  | finalize | abandon => true
  | addPage | setFont _ | setFontSize _ | setFillColor _ | drawText .. => false

theorem lastSet_concat {α : Type} (set? : Deed → Option α) (initial : α) (history : List Deed)
    (deed : Deed) :
    lastSet set? initial (history ++ [deed]) =
      (set? deed).getD (lastSet set? initial history) := by
  rw [lastSet, List.filterMap_append]
  cases set : set? deed with
  | none => simp [lastSet, set]
  | some a => simp [set]

theorem Face.after_concat (document : Face) (history : List Deed) (deed : Deed) :
    document.after (history ++ [deed]) =
      ⟨deed.font?.getD (document.after history).font,
        deed.size?.getD (document.after history).size,
        deed.color?.getD (document.after history).color⟩ := by
  rw [after, lastSet_concat, lastSet_concat, lastSet_concat]
  rfl

namespace Recorder

variable {s t : Recorder} {document : Face} {options : Options} {history : List Deed}

structure Books (document : Face) (options : Options) (history : List Deed) (s : Recorder) :
    Prop where
  /-- Whoever made the session sees what the session itself keeps. -/
  shared : s.recording = ⟨options, s.entries⟩
  logged : Logged document history s.entries
  face : document.after history = ⟨s.font, s.fontSize, s.color⟩
  closed : history.any Deed.closes = s.closed
  open_entries : s.closed = false → ∀ entry ∈ s.entries, entry.closes = false
  last : ∀ entry ∈ s.entries.dropLast, entry.closes = false

namespace Books

theorem skip (books : s.Books document options history) {deed : Deed}
    (leaves : deed.Leaves document history []) (font : deed.font? = none)
    (size : deed.size? = none) (color : deed.color? = none)
    (late : deed.closes = true → s.closed = true) :
    s.Books document options (history ++ [deed]) where
  shared := books.shared
  logged := (List.append_nil s.entries) ▸ books.logged.concat leaves
  face := by
    rw [Face.after_concat, font, size, color]
    exact books.face
  closed := by
    rw [List.any_append, books.closed, List.any_cons, List.any_nil, Bool.or_false]
    exact Bool.or_eq_left_iff_imp.2 late
  open_entries := books.open_entries
  last := books.last

theorem refuse (books : s.Books document options history) {request : Request} {e : SessionError}
    (stays : (⟨request, .error e⟩ : Deed).closes = false) :
    s.Books document options (history ++ [⟨request, .error e⟩]) := by
  refine books.skip .refused ?_ ?_ ?_ (by rw [stays]; exact Bool.noConfusion)
  all_goals
    cases request with
    | draw what => cases what <;> rfl
    | finalize | abandon => rfl

/-- A deed of an open session that is granted is entered. `r` is the session that it leaves but for
the entry. -/
theorem enter (books : s.Books document options history) (opened : s.closed = false) {deed : Deed}
    {entry : Entry} {r : Recorder} (leaves : deed.Leaves document history [entry])
    (entries : r.entries = s.entries) (recording : r.recording = s.recording)
    (face : (⟨r.font, r.fontSize, r.color⟩ : Face) =
      ⟨deed.font?.getD s.font, deed.size?.getD s.fontSize, deed.color?.getD s.color⟩)
    (closed : r.closed = deed.closes) (closes : entry.closes = deed.closes) :
    (r.record entry).Books document options (history ++ [deed]) := by
  have earlier := books.open_entries opened
  have listed : (r.record entry).entries = s.entries ++ [entry] :=
    congrArg (· ++ [entry]) entries
  constructor
  · have shared : (r.record entry).recording =
        ⟨s.recording.options, s.recording.entries ++ [entry]⟩ :=
      congrArg (fun recording : Recording =>
        (⟨recording.options, recording.entries ++ [entry]⟩ : Recording)) recording
    rw [shared, listed, books.shared]
  · rw [listed]
    exact books.logged.concat leaves
  · rw [Face.after_concat, books.face]
    exact face.symm
  · rw [List.any_append, books.closed, opened, List.any_cons, List.any_nil, Bool.or_false,
      Bool.false_or]
    exact closed.symm
  · intro still other mem
    rw [listed, List.mem_append, List.mem_singleton] at mem
    rcases mem with old | rfl
    · exact earlier other old
    · exact closes.trans (closed.symm.trans still)
  · rw [listed, List.dropLast_concat]
    exact earlier

theorem drawn {what : Drawing} (books : s.Books document options history)
    (granted : s.drawn what = .ok t) :
    t.Books document options (history ++ [⟨.draw what, .ok ()⟩]) := by
  obtain ⟨opened, course⟩ := drawn_eq_ok_iff.1 granted
  cases course with
  | pageAdded => exact books.enter opened .addPage rfl rfl rfl opened rfl
  | @fontSet name font known =>
    refine books.enter opened (.setFont known) rfl rfl ?_ opened rfl
    simp only [Deed.font?, Deed.size?, Deed.color?, known, Option.getD_some, Option.getD_none]
  | sizeSet => exact books.enter opened .setFontSize rfl rfl rfl opened rfl
  | @colorSet value color known =>
    refine books.enter opened (.setFillColor known) rfl rfl ?_ opened rfl
    simp only [Deed.font?, Deed.size?, Deed.color?, known, Except.toOption, Option.getD_some,
      Option.getD_none]
  | @textDrawn text options =>
    have leaves : (⟨.draw (.drawText text options), .ok ()⟩ : Deed).Leaves document history _ :=
      .drawText
    rw [books.face] at leaves
    exact books.enter opened leaves rfl rfl rfl opened rfl

theorem answer (books : s.Books document options history) (request : Request) :
    (backend.answer s request).2.Books document options
      (history ++ [⟨request, (backend.answer s request).1⟩]) := by
  cases request with
  | draw what =>
    cases granted : s.drawn what with
    | error e =>
      simp only [Backend.answer, backend, granted]
      exact books.refuse rfl
    | ok t =>
      simp only [Backend.answer, backend, granted]
      exact books.drawn granted
  | finalize runtime =>
    cases closed : s.closed with
    | true =>
      simp only [Backend.answer, backend, Recorder.finalize, closed, if_true, Except.map]
      exact books.refuse rfl
    | false =>
      cases runtime with
      | false =>
        simp only [Backend.answer, backend, Recorder.finalize, closed, Bool.false_eq_true, if_false,
          Bool.not_false, if_true, Except.map]
        exact books.refuse rfl
      | true =>
        simp only [Backend.answer, backend, Recorder.finalize, closed, Bool.false_eq_true, if_false,
          Bool.not_true, Except.map]
        exact books.enter closed .finalize rfl rfl rfl rfl rfl
  | abandon =>
    cases closed : s.closed with
    | true =>
      -- Giving up is never refused, so it is the books that tell whether it was late.
      have late := books.closed.trans closed
      simp only [Backend.answer, backend, Recorder.abandon, closed, if_true]
      exact books.skip (.abandonLate late) rfl rfl rfl fun _ => closed
    | false =>
      have opened := books.closed.trans closed
      simp only [Backend.answer, backend, Recorder.abandon, closed, Bool.false_eq_true, if_false]
      exact books.enter closed (.abandon opened) rfl rfl rfl rfl rfl

theorem after (books : s.Books document options history) (requests : List Request) :
    (backend.after s requests).Books document options
      (history ++ backend.history s requests) := by
  induction requests generalizing s history with
  | nil => exact (List.append_nil history).symm ▸ books
  | cons request rest ih =>
    have later := ih (books.answer request)
    rwa [List.append_assoc] at later

end Books

theorem books_of_create (created : create options = .ok s) :
    ∃ font, Font.ofName? options.font = some font ∧
      s.Books ⟨font, options.fontSize, .black⟩ options [] := by
  rw [create] at created
  cases known : Font.ofName? options.font with
  | none =>
    rw [known] at created
    cases created
  | some font =>
    rw [known] at created
    cases created
    refine ⟨font, rfl, rfl, .nil, ?_, rfl, nofun, nofun⟩
    rw [start, known]
    rfl

theorem answer_of_closed (closed : s.closed = true) (request : Request) :
    (backend.answer s request).2 = s := by
  cases request with
  | draw what => simp only [Backend.answer, backend, Recorder.drawn, closed, if_true]
  | finalize runtime => simp only [Backend.answer, backend, Recorder.finalize, closed, if_true]
  | abandon => simp only [Backend.answer, backend, Recorder.abandon, closed, if_true]

theorem after_of_closed (closed : s.closed = true) (requests : List Request) :
    backend.after s requests = s := by
  induction requests with
  | nil => rfl
  | cons request rest ih =>
    rw [Backend.after, List.foldl_cons, answer_of_closed closed]
    exact ih

/-- Whatever is asked of a recorder, its own list and the recording of whoever made it have the same
entries: those that the requests with their answers leave, one after the other. An entry of a
session that was closed can only be the last, and once there is one nothing is added any more. -/
theorem recorded_as_answered (created : create options = .ok s) (requests : List Request) :
    let t := backend.after s requests
    t.recording = ⟨options, t.entries⟩ ∧
    (∃ font, Font.ofName? options.font = some font ∧
      Logged ⟨font, options.fontSize, .black⟩ (backend.history s requests) t.entries) ∧
    (∀ entry ∈ t.entries.dropLast, entry.closes = false) ∧
    ((∃ entry ∈ t.entries, entry.closes = true) →
      ∀ later, backend.after s (requests ++ later) = t) := by
  intro t
  obtain ⟨font, known, start⟩ := books_of_create created
  have books : t.Books _ options (backend.history s requests) := start.after requests
  refine ⟨books.shared, ⟨font, known, books.logged⟩, books.last, ?_⟩
  rintro ⟨entry, mem, closes⟩ later
  have closed : t.closed = true := by
    cases still : t.closed with
    | true => rfl
    | false => exact absurd closes (by simp [books.open_entries still entry mem])
  rw [Backend.after_append, after_of_closed closed]

theorem recorded_as_answered_styled :
    let requests : List Request :=
      [.draw (.drawText "early" {}), .draw .addPage, .draw (.setFontSize 9),
        .draw (.setFont "times"), .draw (.setFont "Gothic"), .draw (.setFillColor "#f00"),
        .draw (.drawText "one" {}), .finalize false, .draw (.setFontSize 0), .abandon,
        .finalize true, .abandon]
    let t := backend.after (start {}) requests
    t.recording = ⟨{}, t.entries⟩ ∧
    t.entries = [.addPage, .setFontSize 9, .setFont "times", .setFillColor ⟨255, 0, 0⟩,
      .drawText "one" .timesRoman 9 ⟨255, 0, 0⟩ {}, .abandon] ∧
    (∃ font, Font.ofName? ({} : Options).font = some font ∧
      Logged ⟨font, 12, .black⟩ (backend.history (start {}) requests) t.entries) ∧
    ∀ later, backend.after (start {}) (requests ++ later) = t := by
  intro requests t
  have created : create {} = .ok (start {}) := by decide +kernel
  have entries : t.entries = [.addPage, .setFontSize 9, .setFont "times",
      .setFillColor ⟨255, 0, 0⟩, .drawText "one" .timesRoman 9 ⟨255, 0, 0⟩ {}, .abandon] := by
    decide +kernel
  obtain ⟨shared, logged, _, closed⟩ := recorded_as_answered created requests
  exact ⟨shared, entries, logged, closed ⟨.abandon, by rw [entries]; simp, rfl⟩⟩

end Recorder

end Folio
