import Folio.Proofs.Number.Comparison
import Folio.Proofs.Ordered
import Folio.Proofs.Session.Carried
import Folio.Tag.Root

/-! # Sessions from settled options

The options that are settled from a root are such as a session accepts, but for the font, which
only a session looks up. A root is refused where twice the margin is at least the shorter side of
the page, and a session accepts where it is less. These tests are opposites for numbers only, so
what matters is that no attribute lets anything else through.
-/

namespace Folio

theorem exists_of_bind_eq_ok {ε α β : Type} {x : Except ε α} {next : α → Except ε β} {b : β}
    (ok : (x >>= next) = .ok b) : ∃ a, x = .ok a ∧ next a = .ok b := by
  cases x with
  | error e => cases ok
  | ok a => exact ⟨a, rfl, ok⟩

namespace PageSize

def Measured (size : PageSize) : Prop :=
  size.dimensions.width.isFinite = true ∧ size.dimensions.height.isFinite = true

instance (size : PageSize) : Decidable size.Measured := inferInstanceAs (Decidable (_ ∧ _))

theorem isFinite_of_side {s : String} {x : Float32} (ok : side s = .ok x) : x.isFinite = true := by
  rw [side] at ok
  cases read : Number.single? (Text.trim s) with
  | none =>
    simp only [read] at ok
    cases ok
  | some value =>
    simp only [read] at ok
    by_cases positive : (value.isFinite && value > 0) = true
    · rw [if_pos positive] at ok
      obtain rfl := Except.ok.inj ok
      exact (Bool.and_eq_true_iff.1 positive).1
    · rw [if_neg positive] at ok
      cases ok

theorem measured_of_named : ∀ entry ∈ named, entry.2.Measured := by decide +kernel

theorem measured_of_parse {s : String} {size : PageSize} (ok : parse s = .ok size) :
    size.Measured := by
  rw [parse] at ok
  dsimp only at ok
  cases known : named.lookup (Text.upper (Text.trim s)) with
  | some other =>
    rw [known] at ok
    cases ok
    obtain ⟨front, behind, split, _⟩ := List.lookup_eq_some_iff.1 known
    have mem : (Text.upper (Text.trim s), size) ∈ named := by
      rw [split]
      exact List.mem_append_right _ List.mem_cons_self
    exact measured_of_named (Text.upper (Text.trim s), size) mem
  | none =>
    rw [known] at ok
    dsimp only at ok
    split at ok
    · cases ok
    · obtain ⟨width, wide, ok⟩ := exists_of_bind_eq_ok ok
      obtain ⟨height, high, ok⟩ := exists_of_bind_eq_ok ok
      cases ok
      exact ⟨isFinite_of_side wide, isFinite_of_side high⟩

end PageSize

namespace Attribute

theorem isFinite_of_number {value : String} {x : Float32} (ok : number value = .ok x) :
    x.isFinite = true := by
  rw [number] at ok
  cases read : Number.single? (Text.trim value) with
  | none =>
    simp only [read] at ok
    cases ok
  | some y =>
    simp only [read] at ok
    by_cases finite : y.isFinite = true
    · rw [if_pos finite] at ok
      obtain rfl := Except.ok.inj ok
      exact finite
    · rw [if_neg finite] at ok
      cases ok

theorem of_tested {test : Float32 → Prop} [DecidablePred test] {value : String} {reason : Reason}
    {x : Float32}
    (ok : (do let y ← number value; if test y then return y else throw reason) = .ok x) :
    x.isFinite = true ∧ test x := by
  obtain ⟨y, read, ok⟩ := exists_of_bind_eq_ok ok
  by_cases passed : test y
  · rw [if_pos passed] at ok
    cases ok
    exact ⟨isFinite_of_number read, passed⟩
  · rw [if_neg passed] at ok
    cases ok

theorem of_positive {value : String} {x : Float32} (ok : positive value = .ok x) :
    x.isFinite = true ∧ x > 0 :=
  of_tested ok

theorem of_nonNegative {value : String} {x : Float32} (ok : nonNegative value = .ok x) :
    x.isFinite = true ∧ x ≥ 0 :=
  of_tested ok

theorem of_blame {α : Type} {tag key value : String} {result : Except Reason α} {a : α}
    (ok : blame tag key value result = .ok a) : result = .ok a := by
  cases result with
  | error reason => cases ok
  | ok b =>
    cases ok
    rfl

end Attribute

structure Options.Sound (options : Options) : Prop where
  size : options.size.Measured
  margin : options.margin.isFinite = true ∧ options.margin ≥ 0
  fontSize : options.fontSize.isFinite = true ∧ options.fontSize > 0

namespace Setting

variable {setting : Setting} {value : String} {options next : Options}

inductive Assigned (value : String) (options : Options) : Setting → Options → Prop where
  | size {page : PageSize} (read : PageSize.parse value = .ok page) :
    Assigned value options .size { options with size := page }
  | layout {side : Orientation} (read : Orientation.parse value = .ok side) :
    Assigned value options .layout { options with orientation := side }
  | margin {x : Float32} (read : Attribute.nonNegative value = .ok x) :
    Assigned value options .margin { options with margin := x }
  | fontSize {x : Float32} (read : Attribute.positive value = .ok x) :
    Assigned value options .fontSize { options with fontSize := x }
  | font : Assigned value options .font { options with font := value }
  | info {setting : Setting} (info : Info) (other : setting ≠ .font) :
    Assigned value options setting { options with info := info }

theorem assigned_of_assign (ok : setting.assign value options = .ok next) :
    Assigned value options setting next := by
  cases setting with
  | size =>
    rw [assign] at ok
    cases read : PageSize.parse value with
    | error why =>
      rw [read] at ok
      cases ok
    | ok page =>
      rw [read] at ok
      cases ok
      exact .size read
  | layout =>
    rw [assign] at ok
    cases read : Orientation.parse value with
    | error found =>
      rw [read] at ok
      cases ok
    | ok side =>
      rw [read] at ok
      cases ok
      exact .layout read
  | margin =>
    obtain ⟨x, read, ok⟩ := exists_of_bind_eq_ok ok
    cases ok
    exact .margin read
  | fontSize =>
    obtain ⟨x, read, ok⟩ := exists_of_bind_eq_ok ok
    cases ok
    exact .fontSize read
  | font =>
    cases ok
    exact .font
  | title | author | subject | keywords | creator | producer =>
    cases ok
    exact .info _ (by decide)

theorem sound_assign (sound : options.Sound) (ok : setting.assign value options = .ok next) :
    next.Sound := by
  cases assigned_of_assign ok with
  | size read => exact { sound with size := PageSize.measured_of_parse read }
  | margin read => exact { sound with margin := Attribute.of_nonNegative read }
  | fontSize read => exact { sound with fontSize := Attribute.of_positive read }
  | layout | font | info => exact ⟨sound.size, sound.margin, sound.fontSize⟩

theorem font_assign (ok : setting.assign value options = .ok next) :
    next.font = if setting = font then value else options.font := by
  cases assigned_of_assign ok with
  | info _ other => rw [if_neg other]
  | size | layout | margin | fontSize | font => rfl

theorem name_of_ofName? {name : String} (known : ofName? name = some setting) :
    setting.name = name := by
  simpa using List.find?_some known

theorem ofName?_font {name : String} : ofName? name = some font ↔ name = "font" := by
  constructor
  · intro known
    exact (name_of_ofName? known).symm
  · rintro rfl
    decide

end Setting

namespace Options

variable {tag : String} {options last : Options}

theorem of_assignAll_cons {name value : String} {rest : List (String × String)}
    (ok : (assignAll tag options ((name, value) :: rest)).1 = .ok last) :
    (Setting.ofName? name = none ∧ (assignAll tag options rest).1 = .ok last) ∨
      ∃ setting next, Setting.ofName? name = some setting ∧
        setting.assign value options = .ok next ∧ (assignAll tag next rest).1 = .ok last := by
  rw [assignAll] at ok
  cases known : Setting.ofName? name with
  | none =>
    left
    rw [known] at ok
    exact ⟨rfl, ok⟩
  | some setting =>
    right
    rw [known] at ok
    dsimp only at ok
    cases taken : Attribute.blame tag name value (setting.assign value options) with
    | error e =>
      rw [taken] at ok
      cases ok
    | ok next =>
      rw [taken] at ok
      exact ⟨setting, next, rfl, Attribute.of_blame taken, ok⟩

theorem sound_assignAll {attributes : List (String × String)} (sound : options.Sound)
    (ok : (assignAll tag options attributes).1 = .ok last) : last.Sound := by
  induction attributes generalizing options with
  | nil =>
    cases ok
    exact sound
  | cons entry rest ih =>
    rcases of_assignAll_cons ok with ⟨_, later⟩ | ⟨setting, next, _, taken, later⟩
    · exact ih sound later
    · exact ih (Setting.sound_assign sound taken) later

theorem font_assignAll {attributes : List (String × String)}
    (sorted : attributes.Pairwise (·.1 < ·.1))
    (ok : (assignAll tag options attributes).1 = .ok last) :
    last.font = (attributes.lookup "font").getD options.font := by
  induction attributes generalizing options with
  | nil =>
    cases ok
    rfl
  | cons entry rest ih =>
    obtain ⟨name, value⟩ := entry
    obtain ⟨above, sorted⟩ := List.pairwise_cons.1 sorted
    rw [Ordered.lookup_cons]
    rcases of_assignAll_cons ok with ⟨unknown, later⟩ | ⟨setting, next, known, taken, later⟩
    · have other : "font" ≠ name := by
        rintro rfl
        rw [Setting.ofName?_font.2 rfl] at unknown
        cases unknown
      rw [if_neg other]
      exact ih sorted later
    · rw [ih sorted later, Setting.font_assign taken]
      by_cases named : name = "font"
      · subst named
        obtain rfl : setting = .font := by
          rw [Setting.ofName?_font.2 rfl] at known
          exact (Option.some.inj known).symm
        rw [if_pos rfl, if_pos rfl, Ordered.lookup_of_below String.lt_irrefl above]
        rfl
      · have other : setting ≠ .font := by
          rintro rfl
          exact named (Setting.ofName?_font.1 known)
        rw [if_neg other, if_neg (Ne.symm named)]

theorem sound_default : ({} : Options).Sound := by
  constructor
  · decide +kernel
  · decide +kernel
  · decide +kernel

theorem isNaN_shortest (sound : options.Sound) : options.page.shortest.isNaN = false := by
  have width := Number.isNaN_of_isFinite sound.size.1
  have height := Number.isNaN_of_isFinite sound.size.2
  rw [page, Dimensions.shortest]
  cases options.orientation with
  | portrait => exact Number.isNaN_lesser width height
  | landscape => exact Number.isNaN_lesser height width

/-- What a root lets through: sound numbers, margins with room between them, and the font that was
named. -/
theorem of_ofRoot {root : Markup.Element} (accepted : (ofRoot root).1 = .ok options) :
    options.Sound ∧ options.margin * 2 < options.page.shortest ∧
      options.font = (root.attributes.get? "font").getD "Helvetica" := by
  obtain ⟨settled, assigned, checked⟩ := exists_of_bind_eq_ok accepted
  have sound := sound_assignAll sound_default assigned
  have font := font_assignAll root.attributes.sorted assigned
  rw [checkRoom] at checked
  by_cases full : settled.margin * 2 ≥ settled.page.shortest
  · rw [if_pos full] at checked
    cases checked
  · rw [if_neg full] at checked
    cases checked
    have double := Number.isNaN_mul sound.margin.1 (y := 2) (by decide +kernel)
    exact ⟨sound, Number.lt_of_not_ge double (isNaN_shortest sound) full, font⟩

end Options

namespace Compositor

theorem create_of_sound {options : Options} (sound : options.Sound)
    (room : options.margin * 2 < options.page.shortest) :
    create options =
      match Font.ofName? options.font with
      | none => .error (.fontNotFound options.font)
      | some font =>
        .ok { page := options.page, margin := options.margin, info := options.info,
              cursor := options.margin, font := font, fontSize := options.fontSize } := by
  have positive : checkPositive .fontSize options.fontSize = .ok options.fontSize := by
    rw [checkPositive, if_pos (by simp [sound.fontSize])]
  have roomy : (options.margin ≥ 0 && options.margin * 2 < options.page.shortest) = true := by
    simp [sound.margin, room]
  rw [create]
  cases Font.ofName? options.font with
  | none => rfl
  | some font =>
    rw [positive]
    exact if_pos roomy

/-- Whatever a root lets through makes a session, unless it names a font that there is not: that is
the only complaint. -/
theorem accepted_root_makes_session {root : Markup.Element} {options : Options}
    (accepted : (Options.ofRoot root).1 = .ok options) :
    ((∃ s, create options = .ok s) ↔
      root.attributes.get? "font" = none ∨
        ∃ name font, root.attributes.get? "font" = some name ∧ Font.ofName? name = some font) ∧
    ∀ e, create options = .error e →
      ∃ name, root.attributes.get? "font" = some name ∧ e = .fontNotFound name := by
  obtain ⟨sound, room, named⟩ := Options.of_ofRoot accepted
  rw [create_of_sound sound room]
  cases present : root.attributes.get? "font" with
  | none =>
    have font : Font.ofName? options.font = some .helvetica := by
      rw [named, present]
      decide +kernel
    rw [font]
    exact ⟨⟨fun _ => .inl rfl, fun _ => ⟨_, rfl⟩⟩, fun e refused => by cases refused⟩
  | some name =>
    have same : options.font = name := by rw [named, present]; rfl
    rw [same]
    cases found : Font.ofName? name with
    | none =>
      constructor
      · constructor
        · rintro ⟨s, made⟩
          cases made
        · rintro (absent | ⟨other, font, same, known⟩)
          · cases absent
          · cases same
            rw [found] at known
            cases known
      · intro e refused
        cases refused
        exact ⟨name, rfl, rfl⟩
    | some font =>
      constructor
      · constructor
        · intro _
          exact .inr ⟨name, font, rfl, found⟩
        · intro _
          exact ⟨_, rfl⟩
      · intro e refused
        cases refused

/-- A root with a margin of minus zero on a page of the least height that a number can have. -/
def narrowRoot (font : String) : Markup.Element :=
  .mk "document" ""
    (.ofList [("size", "1e-45 X 3e38"), ("layout", "landscape"), ("margin", "-0"),
      ("fontSize", "1e-45"), ("font", font)]) []

def narrowOptions (font : String) : Options :=
  { size := .custom ⟨1e-45, 3e38⟩, orientation := .landscape, margin := -0, font := font,
    fontSize := 1e-45 }

theorem narrow_root_needs_font :
    ((Options.ofRoot (narrowRoot "  times-ROMAN ")).1 = .ok (narrowOptions "  times-ROMAN ") ∧
      ∃ s, create (narrowOptions "  times-ROMAN ") = .ok s) ∧
    (Options.ofRoot (narrowRoot "Comic")).1 = .ok (narrowOptions "Comic") ∧
      ¬ ∃ s, create (narrowOptions "Comic") = .ok s := by
  have upright :
      (Options.ofRoot (narrowRoot "  times-ROMAN ")).1 = .ok (narrowOptions "  times-ROMAN ") := by
    decide +kernel
  have comic : (Options.ofRoot (narrowRoot "Comic")).1 = .ok (narrowOptions "Comic") := by
    decide +kernel
  refine ⟨⟨upright, (accepted_root_makes_session upright).1.2 (.inr ?_)⟩, comic, ?_⟩
  · exact ⟨"  times-ROMAN ", .timesRoman, by decide +kernel, by decide +kernel⟩
  · intro made
    rcases (accepted_root_makes_session comic).1.1 made with absent | ⟨name, font, named, known⟩
    · revert absent
      decide +kernel
    · have same : (narrowRoot "Comic").attributes.get? "font" = some "Comic" := by decide +kernel
      obtain rfl : "Comic" = name := Option.some.inj (same.symm.trans named)
      have unknown : Font.ofName? "Comic" = none := by decide +kernel
      rw [unknown] at known
      cases known

end Compositor

end Folio
