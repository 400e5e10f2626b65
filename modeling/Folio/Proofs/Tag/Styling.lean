import Folio.Proofs.Tag.Passage
import Folio.Style.Color
import Folio.Style.Font

/-! # The style of texts

A text sets its font, its size and its colour for itself and for the texts behind it, and nothing
else sets them. Its width and its alignment are its own. So the style of a text can be read off the
texts up to it, whatever session draws them.
-/

namespace Folio

structure Face where
  font : Font
  size : Float32
  color : Color
  deriving DecidableEq

structure Piece where
  text : String
  face : Face
  options : TextOptions
  deriving DecidableEq

/-- The texts that were drawn, and the face in which the next one will be. -/
structure Sheet where
  face : Face
  pieces : List Piece := []

inductive Sheet.Step (x : Sheet) : Drawing → Sheet → Prop
  | addPage : Step x .addPage x
  | setFont {name : String} {font : Font} (known : Font.ofName? name = some font) :
      Step x (.setFont name) { x with face.font := font }
  | setFontSize {size : Float32} : Step x (.setFontSize size) { x with face.size := size }
  | setFillColor {value : String} {color : Color} (known : Color.parse value = .ok color) :
      Step x (.setFillColor value) { x with face.color := color }
  | drawText {text : String} {options : TextOptions} :
      Step x (.drawText text options) { x with pieces := x.pieces ++ [⟨text, x.face, options⟩] }

inductive Sheet.Steps : Sheet → List Drawing → Sheet → Prop
  | nil {x : Sheet} : Steps x [] x
  | cons {x y z : Sheet} {what : Drawing} {rest : List Drawing} (first : x.Step what y)
      (later : Steps y rest z) : Steps x (what :: rest) z

namespace Sheet

variable {x y z : Sheet}

theorem Steps.split {front behind : List Drawing} (steps : x.Steps (front ++ behind) z) :
    ∃ y, x.Steps front y ∧ y.Steps behind z := by
  induction front generalizing x with
  | nil => exact ⟨x, .nil, steps⟩
  | cons what rest ih =>
    cases steps with
    | cons first later =>
      obtain ⟨y, front, behind⟩ := ih later
      exact ⟨y, .cons first front, behind⟩

theorem Steps.single {what : Drawing} (steps : x.Steps [what] y) : x.Step what y := by
  cases steps with
  | cons first later =>
    cases later
    exact first

theorem Steps.optional {α : Type} {value? : Option α} {f : α → Drawing}
    (steps : x.Steps (value?.toList.map f) y) :
    value?.elim (y = x) fun value => x.Step (f value) y := by
  cases value? with
  | none =>
    cases steps
    rfl
  | some value => exact steps.single

theorem Steps.setFont? {name? : Option String}
    (steps : x.Steps (name?.toList.map .setFont) y) :
    ∃ font, y = { x with face.font := font } ∧
      name?.elim (font = x.face.font) fun name => Font.ofName? name = some font := by
  have step := steps.optional
  cases name? with
  | none =>
    obtain rfl := step
    exact ⟨y.face.font, rfl, rfl⟩
  | some name =>
    cases step with
    | setFont known => exact ⟨_, rfl, known⟩

theorem Steps.setFontSize? {size? : Option Float32}
    (steps : x.Steps (size?.toList.map .setFontSize) y) :
    y = { x with face.size := size?.getD x.face.size } := by
  have step := steps.optional
  cases size? with
  | none => exact step
  | some size =>
    cases step
    rfl

theorem Steps.setFillColor? {value? : Option String}
    (steps : x.Steps (value?.toList.map .setFillColor) y) :
    ∃ color, y = { x with face.color := color } ∧
      value?.elim (color = x.face.color) fun value => Color.parse value = .ok color := by
  have step := steps.optional
  cases value? with
  | none =>
    obtain rfl := step
    exact ⟨y.face.color, rfl, rfl⟩
  | some value =>
    cases step with
    | setFillColor known => exact ⟨_, rfl, known⟩

end Sheet

section Law

def latest? (name : String) (tags : List Tag) : Option String :=
  (tags.filterMap fun tag => tag.attribute? name).getLast?

structure Face.Of (document : Options) (texts : List Tag) (face : Face) : Prop where
  font : (latest? "font" texts).elim (Font.ofName? document.font = some face.font) fun name =>
    Font.ofName? name = some face.font
  size : (latest? "fontSize" texts).elim (face.size = document.fontSize) fun value =>
    Attribute.positive value = .ok face.size
  color : (latest? "color" texts).elim (face.color = .black) fun value =>
    Color.parse value = .ok face.color

/-- A text is drawn as its tag says: in the face that the texts up to it have set, and with a width
and an alignment of its own. -/
structure Piece.Styled (document : Options) (upTo : List Tag) (tag : Tag) (piece : Piece) :
    Prop where
  text : piece.text = tag.text
  face : piece.face.Of document upTo
  width : (tag.attribute? "width").elim (piece.options.width = none) fun value =>
    ∃ width, Attribute.positive value = .ok width ∧ piece.options.width = some width
  align : piece.options.align = (tag.attribute? "align").map Align.parse

structure Typeset (document : Options) (texts : List Tag) (pieces : List Piece) : Prop where
  length : pieces.length = texts.length
  styled : ∀ (k : Nat) (tag : Tag) (piece : Piece), texts[k]? = some tag →
    pieces[k]? = some piece → piece.Styled document (texts.take (k + 1)) tag

variable {document : Options} {texts : List Tag} {tag : Tag}

theorem latest?_concat (name : String) (texts : List Tag) (tag : Tag) :
    latest? name (texts ++ [tag]) = (tag.attribute? name).or (latest? name texts) := by
  rw [latest?, List.filterMap_append]
  cases own : tag.attribute? name with
  | none => simp [latest?, own]
  | some value => simp [own]

/-- What a value says holds from then on, and what held before holds if there is none. -/
theorem elim_or {α β : Type} {new? old? : Option α} (kept : β → Prop) (told : α → β → Prop)
    {before after : β} (old : old?.elim (kept before) fun value => told value before)
    (new : new?.elim (after = before) fun value => told value after) :
    (new?.or old?).elim (kept after) fun value => told value after := by
  cases new? with
  | none =>
    obtain rfl := new
    exact old
  | some value => exact new

theorem Typeset.nil (document : Options) : Typeset document [] [] := ⟨rfl, nofun⟩

theorem Typeset.concat {pieces : List Piece} {piece : Piece}
    (typeset : Typeset document texts pieces)
    (styled : piece.Styled document (texts ++ [tag]) tag) :
    Typeset document (texts ++ [tag]) (pieces ++ [piece]) := by
  have lengths := typeset.length
  refine ⟨by simp [lengths], fun k other drawn listed at_k => ?_⟩
  by_cases earlier : k < texts.length
  · rw [List.getElem?_append_left earlier] at listed
    rw [List.getElem?_append_left (lengths ▸ earlier)] at at_k
    rw [List.take_append_of_le_length earlier]
    exact typeset.styled k other drawn listed at_k
  · have bound := (List.getElem?_eq_some_iff.1 listed).1
    rw [List.length_append, List.length_singleton] at bound
    obtain rfl : k = texts.length := by omega
    rw [List.getElem?_concat_length] at listed
    rw [← lengths, List.getElem?_concat_length] at at_k
    obtain rfl := Option.some.inj listed
    obtain rfl := Option.some.inj at_k
    rw [List.take_of_length_le (by simp)]
    exact styled

end Law

section Handlers

variable {σ : Type} {backend : Backend σ} {shows : σ → Sheet → Prop} {s : σ} {x : Sheet}

/-- Sessions keep sheets: `shows` relates a session that carries out a drawing to what the drawing
makes of the sheet. -/
def Backend.Keeps (backend : Backend σ) (shows : σ → Sheet → Prop) : Prop :=
  ∀ {s x what}, shows s x → (backend.draw what s).result = .ok () →
    ∃ y, x.Step what y ∧ shows (backend.draw what s).session y

namespace Handling

theorem of_bind_ok {α β : Type} {handling : Handling α} {next : α → Handling β} {b : β}
    (ok : ((handling >>= next).run.run backend s).result = .ok b) :
    ∃ a, (handling.run.run backend s).result = .ok a ∧
      ((next a).run.run backend (handling.run.run backend s).session).result = .ok b ∧
      ((handling >>= next).run.run backend s).session =
        ((next a).run.run backend (handling.run.run backend s).session).session := by
  cases first : (handling.run.run backend s).result with
  | error e => cases (run_bind_of_error backend next first).symm.trans ok
  | ok a =>
    obtain ⟨result, session⟩ := run_bind_of_ok backend next first
    exact ⟨a, rfl, result.symm.trans ok, session⟩

def drawAll : List Drawing → Handling Unit
  | [] => pure ()
  | what :: rest => draw what >>= fun _ => drawAll rest

theorem of_draw_ok {what : Drawing} (ok : ((draw what).run.run backend s).result = .ok ()) :
    (backend.draw what s).result = .ok () ∧
      ((draw what).run.run backend s).session = (backend.draw what s).session := by
  rw [draw, ExceptT.run_mk, Script.run] at ok ⊢
  cases answer : (backend.draw what s).result with
  | ok value => exact ⟨rfl, rfl⟩
  | error e =>
    rw [answer] at ok
    cases ok

theorem run_liftM {α : Type} (result : Except InterpretError α) :
    (liftM result : Handling α).run.run backend s = { result := result, session := s } := by
  cases result <;> rfl

theorem keeps_drawAll (keeps : backend.Keeps shows) (start : shows s x) {drawings : List Drawing}
    (ok : ((drawAll drawings).run.run backend s).result = .ok ()) :
    ∃ y, x.Steps drawings y ∧ shows ((drawAll drawings).run.run backend s).session y := by
  induction drawings generalizing s x with
  | nil => exact ⟨x, .nil, start⟩
  | cons what rest ih =>
    obtain ⟨_, first, later, session⟩ := of_bind_ok ok
    obtain ⟨granted, drawn⟩ := of_draw_ok first
    obtain ⟨y, step, middle⟩ := keeps start granted
    rw [← drawn] at middle
    obtain ⟨z, steps, last⟩ := ih middle later
    exact ⟨z, .cons step steps, session ▸ last⟩

end Handling

theorem Handler.text_eq (tag : Tag) :
    Handler.text tag = (do
      let (size, options) ← liftM tag.textOptions
      Handling.drawAll ((tag.attribute? "font").toList.map .setFont ++
        (size.toList.map .setFontSize ++ ((tag.attribute? "color").toList.map .setFillColor ++
          [.drawText tag.text options])))) := by
  have last (options : TextOptions) : Handling.draw (.drawText tag.text options) =
      Handling.drawAll [.drawText tag.text options] := (bind_pure _).symm
  rw [Handler.text]
  congr 1
  funext ⟨size, options⟩
  dsimp only
  rw [last]
  cases tag.attribute? "font" <;> cases size <;> cases tag.attribute? "color" <;> rfl

theorem Tag.of_positive? {tag : Tag} {name : String} {number? : Option Float32}
    (ok : tag.positive? name = .ok number?) :
    (tag.attribute? name).elim (number? = none) fun value =>
      ∃ number, Attribute.positive value = .ok number ∧ number? = some number := by
  rw [positive?] at ok
  cases own : tag.attribute? name with
  | none =>
    rw [own] at ok
    cases ok
    rfl
  | some value =>
    simp only [own] at ok
    cases read : Attribute.positive value with
    | error reason =>
      rw [read] at ok
      cases ok
    | ok number =>
      rw [read] at ok
      cases ok
      exact ⟨number, read, rfl⟩

theorem Tag.of_textOptions {tag : Tag} {size : Option Float32} {options : TextOptions}
    (ok : tag.textOptions = .ok (size, options)) :
    tag.positive? "fontSize" = .ok size ∧ tag.positive? "width" = .ok options.width ∧
      options.align = (tag.attribute? "align").map Align.parse := by
  rw [textOptions] at ok
  cases read : tag.positive? "fontSize" with
  | error e =>
    rw [read] at ok
    cases ok
  | ok number =>
    cases wide : tag.positive? "width" with
    | error e =>
      rw [read, wide] at ok
      cases ok
    | ok width =>
      rw [read, wide] at ok
      cases ok
      exact ⟨rfl, rfl, rfl⟩

structure Sheet.Written (document : Options) (texts : List Tag) (sheet : Sheet) : Prop where
  face : sheet.face.Of document texts
  typeset : Typeset document texts sheet.pieces

variable {document : Options} {texts : List Tag} {tag : Tag}

theorem Sheet.written_nil {font : Font} (known : Font.ofName? document.font = some font) :
    Sheet.Written document [] ⟨⟨font, document.fontSize, .black⟩, []⟩ :=
  ⟨⟨known, rfl, rfl⟩, .nil document⟩

theorem Sheet.Written.text {y : Sheet} {size : Option Float32} {options : TextOptions}
    (written : x.Written document texts) (read : tag.textOptions = .ok (size, options))
    (steps : x.Steps ((tag.attribute? "font").toList.map .setFont ++
      (size.toList.map .setFontSize ++ ((tag.attribute? "color").toList.map .setFillColor ++
        [.drawText tag.text options]))) y) : y.Written document (texts ++ [tag]) := by
  obtain ⟨_, fonts, steps⟩ := steps.split
  obtain ⟨_, sizes, steps⟩ := steps.split
  obtain ⟨_, colors, steps⟩ := steps.split
  obtain ⟨font, rfl, named⟩ := fonts.setFont?
  obtain rfl := sizes.setFontSize?
  obtain ⟨color, rfl, painted⟩ := colors.setFillColor?
  cases steps.single
  obtain ⟨sized, wide, aligned⟩ := Tag.of_textOptions read
  have scaled : (tag.attribute? "fontSize").elim (size.getD x.face.size = x.face.size) fun value =>
      Attribute.positive value = .ok (size.getD x.face.size) := by
    have own := Tag.of_positive? sized
    cases asked : tag.attribute? "fontSize" with
    | none =>
      rw [asked] at own
      obtain rfl := own
      rfl
    | some value =>
      rw [asked] at own
      obtain ⟨number, positive, rfl⟩ := own
      exact positive
  have face : Face.Of document (texts ++ [tag]) ⟨font, size.getD x.face.size, color⟩ := by
    constructor
    · rw [latest?_concat]
      exact elim_or (fun font => Font.ofName? document.font = some font)
        (fun name font => Font.ofName? name = some font) written.face.font named
    · rw [latest?_concat]
      exact elim_or (fun size => size = document.fontSize)
        (fun value size => Attribute.positive value = .ok size) written.face.size scaled
    · rw [latest?_concat]
      exact elim_or (fun color => color = .black)
        (fun value color => Color.parse value = .ok color) written.face.color painted
  exact ⟨face, written.typeset.concat ⟨rfl, face, Tag.of_positive? wide, aligned⟩⟩

def textsOf (tags : List Tag) : List Tag := tags.filter fun tag => tag.name = "text"

theorem Registry.get?_standard (name : String) :
    standard.get? name =
      if name = "text" then some Handler.text else if name = "page" then some Handler.page
      else none := by
  simp [standard, withStandard]

theorem Sheet.Written.handled (written : x.Written document texts) (keeps : backend.Keeps shows)
    (start : shows s x) {handler : Handler}
    (handled : Registry.standard.get? tag.name = some handler)
    (ok : ((handler tag).run.run backend s).result = .ok ()) :
    ∃ y, shows ((handler tag).run.run backend s).session y ∧
      y.Written document (texts ++ textsOf [tag]) := by
  rw [Registry.get?_standard] at handled
  by_cases text : tag.name = "text"
  · rw [if_pos text] at handled
    obtain rfl := Option.some.inj handled
    rw [Handler.text_eq] at ok ⊢
    obtain ⟨⟨size, options⟩, read, drawn, session⟩ := Handling.of_bind_ok ok
    rw [Handling.run_liftM] at read drawn session
    obtain ⟨y, steps, last⟩ := Handling.keeps_drawAll keeps start drawn
    refine ⟨y, session ▸ last, ?_⟩
    rw [show textsOf [tag] = [tag] by simp [textsOf, text]]
    exact written.text read steps
  · rw [if_neg text] at handled
    split at handled
    · obtain rfl := Option.some.inj handled
      obtain ⟨granted, drawn⟩ := Handling.of_draw_ok ok
      obtain ⟨y, step, last⟩ := keeps start granted
      cases step
      refine ⟨x, drawn ▸ last, ?_⟩
      rw [show textsOf [tag] = [] by simp [textsOf, text], List.append_nil]
      exact written
    · cases handled

theorem Sheet.Written.called (written : x.Written document texts) (keeps : backend.Keeps shows)
    (start : shows s x) {tags : List Tag} {after : σ}
    (called : backend.called? (Registry.standard.calls tags) s = some after) :
    ∃ y, shows after y ∧ y.Written document (texts ++ textsOf tags) := by
  induction tags generalizing texts s x with
  | nil =>
    obtain rfl := Option.some.inj called
    exact ⟨x, start, (List.append_nil texts).symm ▸ written⟩
  | cons tag rest ih =>
    have split : textsOf (tag :: rest) = textsOf [tag] ++ textsOf rest :=
      List.filter_append [tag] rest
    rw [split, ← List.append_assoc]
    cases handled : Registry.standard.get? tag.name with
    | none =>
      rw [Registry.calls_cons_of_none handled] at called
      have other : tag.name ≠ "text" := by
        intro text
        rw [Registry.get?_standard, if_pos text] at handled
        cases handled
      rw [show textsOf [tag] = [] by simp [textsOf, other], List.append_nil]
      exact ih written start called
    | some handler =>
      rw [Registry.calls_cons_of_some handled, Backend.called?] at called
      cases ended : ((handler tag).run.run backend s).result with
      | error e =>
        simp only [ended] at called
        cases called
      | ok value =>
        simp only [ended] at called
        obtain ⟨y, middle, written⟩ := written.handled keeps start handled ended
        exact ih written middle called

/-- A pass of the two standard tags that succeeds leaves a session that shows the texts below the
root, each in its style, whatever session it is. -/
theorem written_of_pass (keeps : backend.Keeps shows) (start : shows s x)
    (blank : x.Written document []) {children : Markup.Children} {summary : Summary}
    (ok : ((Registry.standard.pass children).run backend s).result = .ok summary) :
    ∃ y, shows ((Registry.standard.pass children).run backend s).session y ∧
      y.Written document (textsOf (Markup.fieldsTags children)) := by
  have ends := Passage.ends_through backend Registry.standard s (Markup.fieldsTags children)
  dsimp only at ends
  rw [Registry.run_pass] at ok ⊢
  rw [ok] at ends
  cases ends with
  | complete called => exact blank.called keeps start called

end Handlers

end Folio
