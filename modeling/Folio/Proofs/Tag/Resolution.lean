import Folio.Proofs.Session.Acceptance
import Mathlib.Logic.Function.Basic

/-! # How a root settles the options

A setting is one field of the options, and it is read from its own attribute in its own way. So all
that matters about a root is the text it gives to each setting. Where the texts can be read they
settle the options, whatever the order, and room between the margins is all that is left to check.
Where some cannot, the setting that comes first by name is to blame.
-/

namespace Folio

namespace Setting

abbrev Value : Setting → Type
  | size => PageSize
  | layout => Orientation
  | margin | fontSize => Float32
  | font => String
  | title | author | subject | keywords | creator | producer => Option String

def of (options : Options) : (s : Setting) → s.Value
  | size => options.size
  | layout => options.orientation
  | margin => options.margin
  | font => options.font
  | fontSize => options.fontSize
  | title => options.info.title
  | author => options.info.author
  | subject => options.info.subject
  | keywords => options.info.keywords
  | creator => options.info.creator
  | producer => options.info.producer

def put (options : Options) : (s : Setting) → s.Value → Options
  | size, page => { options with size := page }
  | layout, side => { options with orientation := side }
  | margin, x => { options with margin := x }
  | font, name => { options with font := name }
  | fontSize, x => { options with fontSize := x }
  | title, entry => { options with info.title := entry }
  | author, entry => { options with info.author := entry }
  | subject, entry => { options with info.subject := entry }
  | keywords, entry => { options with info.keywords := entry }
  | creator, entry => { options with info.creator := entry }
  | producer, entry => { options with info.producer := entry }

def read (value : String) : (s : Setting) → Except Reason s.Value
  | size => (PageSize.parse value).mapError .pageSize
  | layout => (Orientation.parse value).mapError .orientation
  | margin => Attribute.nonNegative value
  | font => .ok value
  | fontSize => Attribute.positive value
  | title | author | subject | keywords | creator | producer => .ok (some value)

def parsed : List Setting := [size, layout, margin, fontSize]

def Legible (s : Setting) (text : Option String) : Prop :=
  ∀ value ∈ text, ∃ x, s.read value = .ok x

/-- What a setting comes to: it stays as it was where there is no text for it. -/
def settled (s : Setting) (options : Options) : Option String → Except Reason s.Value
  | none => .ok (s.of options)
  | some value => s.read value

variable {s t : Setting} {value : String} {options : Options} {text : Option String}

@[simp] theorem of_put (options : Options) (s : Setting) (x : s.Value) :
    s.of (s.put options x) = x := by
  cases s <;> rfl

theorem of_put_of_ne (other : t ≠ s) (x : s.Value) : t.of (s.put options x) = t.of options := by
  cases s <;> cases t <;> first | rfl | exact absurd rfl other

theorem options_ext {a b : Options} (same : ∀ s : Setting, s.of a = s.of b) : a = b := by
  have info : a.info = b.info := by
    rw [Info.mk.injEq]
    exact ⟨same title, same author, same subject, same keywords, same creator, same producer⟩
  rw [Options.mk.injEq]
  exact ⟨same size, same layout, same margin, same font, same fontSize, info⟩

theorem assign_eq_map (s : Setting) (value : String) (options : Options) :
    s.assign value options = (s.read value).map (s.put options) := by
  cases s with
  | size =>
    rw [assign, read]
    cases PageSize.parse value <;> rfl
  | layout =>
    rw [assign, read]
    cases Orientation.parse value <;> rfl
  | margin =>
    rw [assign, read]
    cases Attribute.nonNegative value <;> rfl
  | fontSize =>
    rw [assign, read]
    cases Attribute.positive value <;> rfl
  | font | title | author | subject | keywords | creator | producer => rfl

theorem legible_of_not_parsed (free : s ∉ parsed) : s.Legible text := by
  intro value _
  cases s with
  | size | layout | margin | fontSize => exact absurd (by decide) free
  | font | title | author | subject | keywords | creator | producer => exact ⟨_, rfl⟩

theorem legible_of_settled {x : s.Value} (comes : s.settled options text = .ok x) :
    s.Legible text := by
  intro value given
  cases given
  exact ⟨x, comes⟩

theorem ofName?_name (s : Setting) : ofName? s.name = some s := by cases s <;> decide

theorem name_inj (same : s.name = t.name) : s = t := by
  have found := congrArg ofName? same
  rw [ofName?_name, ofName?_name] at found
  exact Option.some.inj found

end Setting

namespace Options

def text? (attributes : List (String × String)) (s : Setting) : Option String :=
  attributes.lookup s.name

def Settles (start : Options) (texts : Setting → Option String) (options : Options) : Prop :=
  ∀ s : Setting, s.settled start (texts s) = .ok (s.of options)

/-- The setting that comes first by name among those whose text cannot be read. -/
structure FirstRefused (texts : Setting → Option String) (s : Setting) (value : String)
    (reason : Reason) : Prop where
  given : texts s = some value
  refused : s.read value = .error reason
  before : ∀ t : Setting, t.name < s.name → t.Legible (texts t)

section Texts

variable {start options : Options} {texts : Setting → Option String}
  {s : Setting} {value : String}

theorem Settles.unique {other : Options} (settles : Settles start texts options)
    (settles' : Settles start texts other) : options = other := by
  apply Setting.options_ext
  intro s
  exact Except.ok.inj ((settles s).symm.trans (settles' s))

theorem Settles.put {x : s.Value} (fresh : texts s = none) (read : s.read value = .ok x)
    (settles : Settles (s.put start x) texts options) :
    Settles start (Function.update texts s (some value)) options := by
  intro t
  have comes := settles t
  by_cases same : t = s
  · subst same
    rw [fresh, Setting.settled, Setting.of_put] at comes
    rw [Function.update_self, Setting.settled, read, comes]
  · rw [Function.update_of_ne same]
    cases given : texts t with
    | none =>
      rw [given, Setting.settled, Setting.of_put_of_ne same] at comes
      exact comes
    | some other =>
      rw [given] at comes
      exact comes

theorem FirstRefused.put {t : Setting} {other : String} {reason : Reason} {x : s.Value}
    (fresh : texts s = none) (read : s.read value = .ok x)
    (first : FirstRefused texts t other reason) :
    FirstRefused (Function.update texts s (some value)) t other reason where
  given := by
    have apart : t ≠ s := by
      rintro rfl
      cases fresh.symm.trans first.given
    rw [Function.update_of_ne apart]
    exact first.given
  refused := first.refused
  before := by
    intro u behind
    by_cases same : u = s
    · subst same
      rw [Function.update_self]
      intro _ given
      cases given
      exact ⟨x, read⟩
    · rw [Function.update_of_ne same]
      exact first.before u behind

theorem FirstRefused.unique {t : Setting} {value' : String} {reason reason' : Reason}
    (first : FirstRefused texts s value reason) (first' : FirstRefused texts t value' reason') :
    s = t ∧ value = value' ∧ reason = reason' := by
  have last {s t : Setting} {value value' : String} {reason reason' : Reason}
      (first : FirstRefused texts s value reason) (first' : FirstRefused texts t value' reason') :
      ¬ s.name < t.name := by
    intro behind
    obtain ⟨x, read⟩ := first'.before s behind value first.given
    cases read.symm.trans first.refused
  obtain rfl : s = t :=
    Setting.name_inj (String.le_antisymm (String.not_lt.1 (last first' first))
      (String.not_lt.1 (last first first')))
  obtain rfl : value = value' := Option.some.inj (first.given.symm.trans first'.given)
  exact ⟨rfl, rfl, Except.error.inj (first.refused.symm.trans first'.refused)⟩

theorem FirstRefused.not_settles {reason : Reason} (first : FirstRefused texts s value reason) :
    ¬ Settles start texts options := by
  intro settles
  obtain ⟨x, read⟩ := Setting.legible_of_settled (settles s) value first.given
  cases read.symm.trans first.refused

end Texts

section Run

variable {tag : String} {options : Options} {rest : List (String × String)}

theorem text?_cons_unknown {name : String} (unknown : Setting.ofName? name = none)
    (value : String) : text? ((name, value) :: rest) = text? rest := by
  funext s
  have other : s.name ≠ name := by
    rintro rfl
    rw [Setting.ofName?_name] at unknown
    cases unknown
  exact (Ordered.lookup_cons ..).trans (if_neg other)

theorem text?_cons_known (s : Setting) (value : String) :
    text? ((s.name, value) :: rest) = Function.update (text? rest) s (some value) := by
  funext t
  rw [text?, Ordered.lookup_cons]
  by_cases same : t = s
  · subst same
    rw [Function.update_self, if_pos rfl]
  · rw [Function.update_of_ne same, if_neg fun named => same (Setting.name_inj named)]
    rfl

theorem assignAll_cases {attributes : List (String × String)}
    (sorted : attributes.Pairwise (·.1 < ·.1)) :
    (∃ last, (assignAll tag options attributes).1 = .ok last ∧
        Settles options (text? attributes) last) ∨
      ∃ s value reason, FirstRefused (text? attributes) s value reason ∧
        (assignAll tag options attributes).1 =
          .error (.invalidAttribute tag s.name value reason) := by
  induction attributes generalizing options with
  | nil => exact .inl ⟨options, rfl, fun s => rfl⟩
  | cons entry rest ih =>
    obtain ⟨name, value⟩ := entry
    obtain ⟨above, behind⟩ := List.pairwise_cons.1 sorted
    rw [assignAll]
    cases known : Setting.ofName? name with
    | none =>
      rw [text?_cons_unknown known]
      exact ih behind
    | some s =>
      obtain rfl := Setting.name_of_ofName? known
      have fresh : text? rest s = none := Ordered.lookup_of_below String.lt_irrefl above
      dsimp only
      rw [text?_cons_known, Setting.assign_eq_map]
      cases read : s.read value with
      | error reason =>
        right
        refine ⟨s, value, reason, ⟨Function.update_self .., read, ?_⟩, rfl⟩
        -- Whatever is behind this attribute has a greater name.
        intro t before other given
        have apart : t ≠ s := by
          rintro rfl
          exact String.lt_irrefl _ before
        rw [Function.update_of_ne apart] at given
        have greater := above _ (Ordered.mem_of_lookup given)
        exact absurd (String.lt_trans before greater) (String.lt_irrefl _)
      | ok x =>
        rcases @ih (s.put options x) behind with
          ⟨last, taken, settles⟩ | ⟨t, other, reason, first, refused⟩
        · exact .inl ⟨last, taken, settles.put fresh read⟩
        · exact .inr ⟨t, other, reason, first.put fresh read, refused⟩

end Run

/-- Twice the margin is at least the shorter side of the page. -/
def Crowded (options : Options) : Prop := options.margin * 2 ≥ options.page.shortest

structure Resolution (tag : String) (texts : Setting → Option String)
    (result : Except InterpretError Options) : Prop where
  legible : (∃ options, Settles {} texts options) ↔ ∀ s ∈ Setting.parsed, s.Legible (texts s)
  accepted : ∀ options, result = .ok options ↔ Settles {} texts options ∧ ¬ options.Crowded
  refused : (∃ s ∈ Setting.parsed, ¬ s.Legible (texts s)) →
    ∃ s ∈ Setting.parsed, ∃ value reason, FirstRefused texts s value reason ∧
      result = .error (.invalidAttribute tag s.name value reason)
  crowded : ∀ options, Settles {} texts options → options.Crowded →
    (∃ value, texts .margin = some value ∧
      result = .error (.invalidAttribute tag "margin" value
        (.noRoom options.margin options.page))) ∨
    (texts .margin = none ∧ ∃ value, texts .size = some value ∧
      result = .error (.invalidAttribute tag "size" value
        (.noRoom options.margin options.page)))

section Outcome

variable {tag : String} {texts : Setting → Option String} {options : Options}

theorem checkRoom_of_crowded (crowded : options.Crowded) (attributes : Markup.Attributes) :
    checkRoom tag attributes options =
      .error (.invalidAttribute tag (options.blamed attributes).1 (options.blamed attributes).2
        (.noRoom options.margin options.page)) :=
  if_pos crowded

theorem checkRoom_of_not_crowded (room : ¬ options.Crowded) (attributes : Markup.Attributes) :
    checkRoom tag attributes options = .ok options :=
  if_neg room

/-- There is room between the margins unless one of the two is set. -/
theorem not_crowded_of_unset (settles : Settles {} texts options) (margin : texts .margin = none)
    (size : texts .size = none) : ¬ options.Crowded := by
  have margins := settles .margin
  have pages := settles .size
  rw [margin] at margins
  rw [size] at pages
  have own : options.margin = 72 := (Except.ok.inj margins).symm
  have letter : options.size = .letter := (Except.ok.inj pages).symm
  rw [Crowded, page, own, letter]
  cases options.orientation with
  | portrait => decide +kernel
  | landscape => decide +kernel

theorem Resolution.of_firstRefused {s : Setting} {value : String} {reason : Reason}
    (first : FirstRefused texts s value reason) :
    Resolution tag texts (.error (.invalidAttribute tag s.name value reason)) := by
  have illegible : ¬ s.Legible (texts s) := by
    intro legible
    obtain ⟨x, read⟩ := legible value first.given
    cases read.symm.trans first.refused
  have listed : s ∈ Setting.parsed := by
    by_contra free
    exact illegible (Setting.legible_of_not_parsed free)
  constructor
  · constructor
    · rintro ⟨options, settles⟩
      exact absurd settles first.not_settles
    · intro legible
      exact absurd (legible s listed) illegible
  · intro options
    constructor
    · intro accepted
      cases accepted
    · rintro ⟨settles, _⟩
      exact absurd settles first.not_settles
  · intro _
    exact ⟨s, listed, value, reason, first, rfl⟩
  · intro options settles
    exact absurd settles first.not_settles

theorem Resolution.of_settles {attributes : Markup.Attributes}
    (settles : Settles {} (text? attributes.entries) options) :
    Resolution tag (text? attributes.entries) (checkRoom tag attributes options) := by
  constructor
  · constructor
    · intro _ s _
      exact Setting.legible_of_settled (settles s)
    · intro _
      exact ⟨options, settles⟩
  · intro other
    by_cases crowded : options.Crowded
    · rw [checkRoom_of_crowded crowded]
      constructor
      · intro accepted
        cases accepted
      · rintro ⟨others, room⟩
        rw [settles.unique others] at crowded
        exact absurd crowded room
    · rw [checkRoom_of_not_crowded crowded]
      constructor
      · intro accepted
        cases accepted
        exact ⟨settles, crowded⟩
      · rintro ⟨others, _⟩
        rw [settles.unique others]
  · rintro ⟨s, _, illegible⟩
    exact absurd (Setting.legible_of_settled (settles s)) illegible
  · intro other others crowded
    obtain rfl := settles.unique others
    rw [checkRoom_of_crowded crowded, blamed]
    cases margin : attributes.get? "margin" with
    | some value => exact .inl ⟨value, margin, rfl⟩
    | none =>
      cases size : attributes.get? "size" with
      | some value => exact .inr ⟨margin, value, size, rfl⟩
      | none => exact absurd crowded (not_crowded_of_unset settles margin size)

theorem resolution_ofRoot (root : Markup.Element) :
    Resolution root.name (text? root.attributes.entries) (ofRoot root).1 := by
  have split : (ofRoot root).1 =
      (assignAll root.name {} root.attributes.entries).1.bind
        (checkRoom root.name root.attributes) := rfl
  rcases assignAll_cases root.attributes.sorted with
    ⟨options, taken, settles⟩ | ⟨s, value, reason, first, refused⟩
  · rw [split, taken]
    exact .of_settles settles
  · rw [split, refused]
    exact .of_firstRefused first

theorem Resolution.unique {result result' : Except InterpretError Options}
    (resolution : Resolution tag texts result) (resolution' : Resolution tag texts result') :
    result = result' := by
  by_cases legible : ∀ s ∈ Setting.parsed, s.Legible (texts s)
  · obtain ⟨options, settles⟩ := resolution.legible.2 legible
    by_cases crowded : options.Crowded
    · rcases resolution.crowded options settles crowded with
        ⟨value, margin, failed⟩ | ⟨margin, value, size, failed⟩
      · rcases resolution'.crowded options settles crowded with
          ⟨value', margin', failed'⟩ | ⟨margin', _⟩
        · obtain rfl := Option.some.inj (margin.symm.trans margin')
          rw [failed, failed']
        · cases margin.symm.trans margin'
      · rcases resolution'.crowded options settles crowded with
          ⟨value', margin', _⟩ | ⟨_, value', size', failed'⟩
        · cases margin.symm.trans margin'
        · obtain rfl := Option.some.inj (size.symm.trans size')
          rw [failed, failed']
    · rw [(resolution.accepted options).2 ⟨settles, crowded⟩,
        (resolution'.accepted options).2 ⟨settles, crowded⟩]
  · have illegible : ∃ s ∈ Setting.parsed, ¬ s.Legible (texts s) := by
      simpa only [not_forall, exists_prop] using legible
    obtain ⟨s, _, value, reason, first, failed⟩ := resolution.refused illegible
    obtain ⟨t, _, value', reason', first', failed'⟩ := resolution'.refused illegible
    obtain ⟨rfl, rfl, rfl⟩ := first.unique first'
    rw [failed, failed']

end Outcome

/-- A root is resolved by the texts it gives to the settings, and by nothing else. -/
theorem root_resolved (root : Markup.Element) :
    Resolution root.name (text? root.attributes.entries) (ofRoot root).1 ∧
      ∀ other : Markup.Element, other.name = root.name →
        (∀ s : Setting, other.attributes.get? s.name = root.attributes.get? s.name) →
          (ofRoot other).1 = (ofRoot root).1 := by
  constructor
  · exact resolution_ofRoot root
  · intro other named same
    have texts : text? other.attributes.entries = text? root.attributes.entries := funext same
    have resolution := resolution_ofRoot other
    rw [named, texts] at resolution
    exact resolution.unique (resolution_ofRoot root)

theorem layout_reported_before_margin :
    let root : Markup.Element := .mk "document" ""
      (.ofList [("size", "a9"), ("margin", "-1"), ("layout", "up")]) []
    let other := root.withAttribute "class" "x"
    (ofRoot other).1 =
      .error (.invalidAttribute "document" "layout" "up" (.orientation "up")) := by
  intro root other
  rw [(root_resolved root).2 other rfl (by intro s; cases s <;> rfl)]
  rfl

end Options

end Folio
