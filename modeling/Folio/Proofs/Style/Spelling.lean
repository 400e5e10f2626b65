import Folio.Bytes
import Folio.Style.Color
import Mathlib.Data.Bool.AllAny
import Mathlib.Data.List.Basic

/-! # Spellings of colours

A colour is spelled with three or six digits to the base sixteen behind a number sign, or by its
name in any case. The digits are read in pairs, and the reader of a pair takes a plus sign for the
first of them, so six characters are read as a colour that have plus signs instead of zeros. Nothing
else is.
-/

namespace Folio

namespace Text

theorem dropWhile_of_full {cs : List Char} (full : ∀ c ∈ cs, isBlank c = false) :
    cs.dropWhile isBlank = cs := by
  cases cs with
  | nil => rfl
  | cons c rest => rw [List.dropWhile_cons, full c List.mem_cons_self, if_neg Bool.false_ne_true]

theorem trimmed_of_full {cs : List Char} (full : ∀ c ∈ cs, isBlank c = false) :
    trimmed cs = cs := by
  rw [trimmed, dropWhile_of_full full, dropWhile_of_full, List.reverse_reverse]
  intro c mem
  exact full c (List.mem_reverse.1 mem)

theorem mem_of_mem_trimmed {cs : List Char} {c : Char} (mem : c ∈ trimmed cs) : c ∈ cs := by
  have front := (List.dropWhile_sublist isBlank).subset (List.mem_reverse.1 mem)
  exact (List.dropWhile_sublist isBlank).subset (List.mem_reverse.1 front)

theorem toNat_lt_of_toLower {c : Char} (low : c.toLower.toNat < 128) : c.toNat < 128 := by
  by_cases capital : c.val ≥ 'A'.val ∧ c.val ≤ 'Z'.val
  · exact Nat.lt_of_le_of_lt (UInt32.le_iff_toNat_le.1 capital.2) (by decide)
  · have same : c.toLower = c := dif_neg capital
    rwa [same] at low

end Text

namespace Color

def hexDigits : List Char := "0123456789abcdefABCDEF".toList

def digitValue (digit : Char) : Nat := "0123456789abcdef".toList.idxOf digit.toLower

structure Pair (c d : Char) (n : UInt8) : Prop where
  high : c ∈ hexDigits
  low : d ∈ hexDigits
  value : n.toNat = 16 * digitValue c + digitValue d

instance (c d : Char) (n : UInt8) : Decidable (Pair c d n) :=
  decidable_of_iff
    (c ∈ hexDigits ∧ d ∈ hexDigits ∧ n.toNat = 16 * digitValue c + digitValue d)
    ⟨fun ⟨high, low, value⟩ => ⟨high, low, value⟩, fun pair => ⟨pair.high, pair.low, pair.value⟩⟩

/-- Two characters and the byte that they are read as: a plus sign is as good as a zero. -/
def Loose (c d : Char) (n : UInt8) : Prop := Pair c d n ∨ c = '+' ∧ Pair '0' d n

/-- Characters behind the number sign. Of three, each stands for two of its kind. -/
inductive Hex (pair : Char → Char → UInt8 → Prop) : List Char → Color → Prop
  | short {r g b : Char} {color : Color} (red : pair r r color.r) (green : pair g g color.g)
      (blue : pair b b color.b) : Hex pair [r, g, b] color
  | long {r r' g g' b b' : Char} {color : Color} (red : pair r r' color.r)
      (green : pair g g' color.g) (blue : pair b b' color.b) : Hex pair [r, r', g, g', b, b'] color

/-- What a text spells, with nothing around it. -/
inductive Spells (pair : Char → Char → UInt8 → Prop) (text : String) : Color → Prop
  | hex {digits : List Char} {color : Color} (split : text.toList = '#' :: digits)
      (hex : Hex pair digits color) : Spells pair text color
  | name {name : String} {color : Color} (listed : (name, color) ∈ named)
      (same : Text.lower text = Text.lower name) : Spells pair text color

theorem toNat_lt_of_mem_hexDigits : ∀ c ∈ hexDigits, c.toNat < 128 :=
  List.all_iff_forall_prop.1 (by decide)

theorem isBlank_of_mem_hexDigits : ∀ c ∈ hexDigits, Text.isBlank c = false :=
  List.all_iff_forall_prop.1 (by decide)

theorem hexDigit?_eq (c : Char) :
    hexDigit? c = if c ∈ hexDigits then some (digitValue c) else none := by
  by_cases ascii : c.toNat < 128
  · have tested : ∀ n : Fin 128, hexDigit? (Char.ofNat n) =
        if Char.ofNat n ∈ hexDigits then some (digitValue (Char.ofNat n)) else none := by
      decide +kernel
    have this := tested ⟨c.toNat, ascii⟩
    rwa [Char.ofNat_toNat] at this
  · have above {d : Char} (low : d.toNat < 128) : ¬ c ≤ d := fun le =>
      ascii (Nat.lt_of_le_of_lt (UInt32.le_iff_toNat_le.1 (Char.le_def.1 le)) low)
    rw [hexDigit?, if_neg fun range => above (by decide) range.2,
      if_neg fun range => above (by decide) range.2, if_neg fun range => above (by decide) range.2,
      if_neg fun mem => ascii (toNat_lt_of_mem_hexDigits c mem)]

theorem digitValue_lt : ∀ c ∈ hexDigits, digitValue c < 16 :=
  List.all_iff_forall_prop.1 (by decide +kernel)

theorem component_eq_ok_iff_pair {which : Component} {c d : Char} {n : UInt8} (digit : c ≠ '+') :
    component which c d = .ok n ↔ Pair c d n := by
  rw [component, if_neg digit, hexDigit?_eq, hexDigit?_eq]
  by_cases high : c ∈ hexDigits
  · by_cases low : d ∈ hexDigits
    · have value : (UInt8.ofNat (16 * digitValue c + digitValue d)).toNat =
          16 * digitValue c + digitValue d := by
        have first := digitValue_lt c high
        have second := digitValue_lt d low
        exact UInt8.toNat_ofNat_of_lt' (by show _ < 256; omega)
      rw [if_pos high, if_pos low]
      constructor
      · intro same
        cases same
        exact ⟨high, low, value⟩
      · intro pair
        exact congrArg Except.ok (UInt8.toNat_inj.1 (value.trans pair.value.symm))
    · rw [if_pos high, if_neg low]
      exact iff_of_false nofun fun pair => low pair.low
  · rw [if_neg high]
    exact iff_of_false nofun fun pair => high pair.high

theorem component_eq_ok_iff {which : Component} {c d : Char} {n : UInt8} :
    component which c d = .ok n ↔ Loose c d n := by
  by_cases plus : c = '+'
  · subst plus
    have zero : component which '+' d = component which '0' d := rfl
    rw [zero, component_eq_ok_iff_pair (by decide), Loose, and_iff_right rfl, or_iff_right]
    exact fun pair => absurd pair.high (by decide)
  · rw [component_eq_ok_iff_pair plus, Loose, or_iff_left fun loose => plus loose.1]

section

variable {pair other : Char → Char → UInt8 → Prop} {digits : List Char} {color : Color}

theorem hex_short_iff {r g b : Char} :
    Hex pair [r, g, b] color ↔ pair r r color.r ∧ pair g g color.g ∧ pair b b color.b := by
  constructor
  · intro hex
    cases hex with
    | short red green blue => exact ⟨red, green, blue⟩
  · rintro ⟨red, green, blue⟩
    exact .short red green blue

theorem hex_long_iff {r r' g g' b b' : Char} :
    Hex pair [r, r', g, g', b, b'] color ↔
      pair r r' color.r ∧ pair g g' color.g ∧ pair b b' color.b := by
  constructor
  · intro hex
    cases hex with
    | long red green blue => exact ⟨red, green, blue⟩
  · rintro ⟨red, green, blue⟩
    exact .long red green blue

theorem Hex.imp (hex : Hex pair digits color)
    (imp : ∀ c ∈ digits, ∀ d n, pair c d n → other c d n) : Hex other digits color := by
  cases hex with
  | short red green blue =>
    exact .short (imp _ (by simp) _ _ red) (imp _ (by simp) _ _ green) (imp _ (by simp) _ _ blue)
  | long red green blue =>
    exact .long (imp _ (by simp) _ _ red) (imp _ (by simp) _ _ green) (imp _ (by simp) _ _ blue)

theorem Loose.ascii {c d : Char} {n : UInt8} (loose : Loose c d n) :
    c.toNat < 128 ∧ d.toNat < 128 := by
  rcases loose with pair | ⟨rfl, pair⟩
  · exact ⟨toNat_lt_of_mem_hexDigits c pair.high, toNat_lt_of_mem_hexDigits d pair.low⟩
  · exact ⟨by decide, toNat_lt_of_mem_hexDigits d pair.low⟩

theorem Hex.all {P : Char → Prop} (hex : Hex pair digits color)
    (both : ∀ {c d n}, pair c d n → P c ∧ P d) : ∀ c ∈ digits, P c := by
  cases hex with
  | short red green blue => simp [both red, both green, both blue]
  | long red green blue => simp [both red, both green, both blue]

end

theorem components_eq_ok_iff {red green blue : Except Unreadable UInt8} {color : Color} :
    (do return ⟨← red, ← green, ← blue⟩ : Except Unreadable Color) = .ok color ↔
      red = .ok color.r ∧ green = .ok color.g ∧ blue = .ok color.b := by
  obtain ⟨r, g, b⟩ := color
  cases red with
  | error why => exact iff_of_false nofun fun all => nomatch all.1
  | ok =>
    cases green with
    | error why => exact iff_of_false nofun fun all => nomatch all.2.1
    | ok =>
      cases blue with
      | error why => exact iff_of_false nofun fun all => nomatch all.2.2
      | ok => simp [bind, Except.bind, pure, Except.pure]

theorem ofHex_eq_ok_iff {text : String} {digits : List Char} {color : Color} :
    ofHex text digits = .ok color ↔ Hex Loose digits color := by
  rw [ofHex.eq_def]
  by_cases ascii : digits.any (128 ≤ ·.toNat) = true
  · rw [if_pos ascii]
    refine iff_of_false nofun fun hex => ?_
    obtain ⟨c, mem, high⟩ := List.any_eq_true.1 ascii
    exact absurd (hex.all Loose.ascii c mem) (by simpa using high)
  · rw [if_neg ascii]
    dsimp only
    split
    · refine components_eq_ok_iff.trans ?_
      rw [component_eq_ok_iff, component_eq_ok_iff, component_eq_ok_iff, hex_short_iff]
    · refine components_eq_ok_iff.trans ?_
      rw [component_eq_ok_iff, component_eq_ok_iff, component_eq_ok_iff, hex_long_iff]
    · rename_i three six
      refine iff_of_false nofun fun hex => ?_
      cases hex with
      | short => exact three _ _ _ rfl
      | long => exact six _ _ _ _ _ _ rfl

theorem lookup_named : ∀ entry ∈ named,
    named.lookup entry.1 = some entry.2 ∧ Text.lower entry.1 = entry.1 ∧
      entry.1.toList.head? ≠ some '#' ∧ entry.1.toList.all (·.toNat < 128) := by
  decide +kernel

theorem lookup_named_iff {name : String} {color : Color} :
    named.lookup name = some color ↔ (name, color) ∈ named := by
  constructor
  · intro found
    obtain ⟨front, behind, split, _⟩ := List.lookup_eq_some_iff.1 found
    rw [split]
    simp
  · intro listed
    exact (lookup_named _ listed).1

theorem lower_eq_of_listed {text name : String} {color : Color} (listed : (name, color) ∈ named)
    (same : Text.lower text = Text.lower name) : Text.lower text = name :=
  same.trans (lookup_named _ listed).2.1

theorem not_sign_of_listed {text name : String} {color : Color} (listed : (name, color) ∈ named)
    (same : Text.lower text = Text.lower name) (digits : List Char) :
    text.toList ≠ '#' :: digits := by
  intro split
  apply (lookup_named _ listed).2.2.1
  rw [← lower_eq_of_listed listed same, Text.lower, split, String.toList_ofList]
  rfl

/-- The reader of colours reads what is spelled with loose pairs. -/
theorem parse_eq_ok_iff {s : String} {color : Color} :
    parse s = .ok color ↔ Spells Loose (Text.trim s) color := by
  rw [parse]
  generalize Text.trim s = text
  split
  · rename_i digits split
    rw [ofHex_eq_ok_iff]
    constructor
    · exact .hex split
    · intro spells
      cases spells with
      | hex other hex =>
        cases split.symm.trans other
        exact hex
      | name listed same => exact absurd split (not_sign_of_listed listed same digits)
  · rename_i other
    constructor
    · intro read
      cases found : named.lookup (Text.lower text) with
      | none =>
        rw [found] at read
        cases read
      | some c =>
        rw [found] at read
        cases read
        have listed := lookup_named_iff.1 found
        exact .name listed (lookup_named _ listed).2.1.symm
    · intro spells
      cases spells with
      | hex split => exact absurd split (other _)
      | name listed same =>
        rw [lower_eq_of_listed listed same, lookup_named_iff.2 listed]

theorem Spells.ascii {text : String} {color : Color} (spells : Spells Loose text color) :
    ∀ c ∈ text.toList, c.toNat < 128 := by
  intro c mem
  cases spells with
  | hex split hex =>
    rw [split] at mem
    rcases List.mem_cons.1 mem with rfl | mem
    · decide
    · exact hex.all Loose.ascii c mem
  | name listed same =>
    apply Text.toNat_lt_of_toLower
    apply List.all_iff_forall_prop.1 (lookup_named _ listed).2.2.2
    rw [← lower_eq_of_listed listed same, Text.lower, String.toList_ofList]
    exact List.mem_map_of_mem mem

theorem Spells.loose {text : String} {color : Color} (spells : Spells Pair text color) :
    Spells Loose text color := by
  cases spells with
  | hex split hex => exact .hex split (hex.imp fun _ _ _ _ pair => .inl pair)
  | name listed same => exact .name listed same

theorem spells_pair_iff {text : String} (none : '+' ∉ text.toList) {color : Color} :
    Spells Loose text color ↔ Spells Pair text color := by
  refine ⟨?_, Spells.loose⟩
  intro spells
  cases spells with
  | hex split hex =>
    refine .hex split (hex.imp fun c mem d n loose => loose.resolve_right fun plus => none ?_)
    rw [split, ← plus.1]
    exact List.mem_cons_of_mem _ mem
  | name listed same => exact .name listed same

theorem pair_hexPair (n : UInt8) : ∃ c d, hexPair n = [c, d] ∧ Pair c d n := by
  have tested : ∀ n : UInt8,
      Pair (Nat.digitChar (n.toNat / 16)) (Nat.digitChar (n.toNat % 16)) n :=
    forall_byte (by decide +kernel)
  exact ⟨_, _, rfl, tested n⟩

theorem spells_text (color : Color) : Spells Pair (Text.trim color.text) color := by
  obtain ⟨r, r', red, redPair⟩ := pair_hexPair color.r
  obtain ⟨g, g', green, greenPair⟩ := pair_hexPair color.g
  obtain ⟨b, b', blue, bluePair⟩ := pair_hexPair color.b
  have written : color.text = String.ofList ['#', r, r', g, g', b, b'] := by
    rw [text, red, green, blue]
    rfl
  have hex := Hex.long redPair greenPair bluePair
  have full := hex.all fun pair =>
    ⟨isBlank_of_mem_hexDigits _ pair.high, isBlank_of_mem_hexDigits _ pair.low⟩
  have trimmed : Text.trimmed ['#', r, r', g, g', b, b'] = ['#', r, r', g, g', b, b'] :=
    Text.trimmed_of_full (List.forall_mem_cons.2 ⟨by decide, full⟩)
  refine .hex ?_ hex
  rw [written, Text.trim, String.toList_ofList, String.toList_ofList, trimmed]

/-- A text is read as a colour just if it spells it, but for plus signs that stand for zeros. Where
there is none it is read by the grammar. Every other text is refused, among them all that have a
character outside ASCII in their midst, and a written colour is read as itself. -/
theorem color_read_by_spelling (s : String) :
    (∀ color, parse s = .ok color ↔ Spells Loose (Text.trim s) color) ∧
      ('+' ∉ s.toList → ∀ color, parse s = .ok color ↔ Spells Pair (Text.trim s) color) ∧
      (∀ c ∈ (Text.trim s).toList, 128 ≤ c.toNat → ∃ why, parse s = .error why) ∧
      ∀ color : Color, parse color.text = .ok color := by
  refine ⟨fun color => parse_eq_ok_iff, ?_, ?_, fun color => ?_⟩
  · intro none color
    rw [parse_eq_ok_iff, spells_pair_iff]
    rw [Text.trim, String.toList_ofList]
    exact mt Text.mem_of_mem_trimmed none
  · intro c mem high
    cases read : parse s with
    | error why => exact ⟨why, rfl⟩
    | ok color => exact absurd ((parse_eq_ok_iff.1 read).ascii c mem) (Nat.not_lt_of_le high)
  · exact parse_eq_ok_iff.2 (spells_text color).loose

theorem color_read_by_spelling_blue :
    parse " #36C\n" = .ok ⟨51, 102, 204⟩ ∧ parse "#3366cC" = .ok ⟨51, 102, 204⟩ ∧
      parse "NaVy" = .ok ⟨0, 0, 128⟩ ∧ ∃ why, parse "#3366é" = .error why := by
  obtain ⟨_, short, _, _⟩ := color_read_by_spelling " #36C\n"
  obtain ⟨_, long, _, _⟩ := color_read_by_spelling "#3366cC"
  obtain ⟨_, name, _, _⟩ := color_read_by_spelling "NaVy"
  obtain ⟨_, _, high, _⟩ := color_read_by_spelling "#3366é"
  have three : Hex Pair ['3', '6', 'C'] ⟨51, 102, 204⟩ :=
    .short (by decide) (by decide) (by decide)
  have six : Hex Pair ['3', '3', '6', '6', 'c', 'C'] ⟨51, 102, 204⟩ :=
    .long (by decide) (by decide) (by decide)
  have listed : ("navy", (⟨0, 0, 128⟩ : Color)) ∈ named := by decide
  refine ⟨(short (by decide) _).2 (.hex ?_ three), (long (by decide) _).2 (.hex ?_ six),
    (name (by decide) _).2 (.name listed ?_), high 'é' ?_ (by decide)⟩ <;>
  decide +kernel

/-- A sign is no digit, and yet it is read as one. -/
theorem signed_digits_read_as_color :
    parse "#+f0000" = .ok ⟨15, 0, 0⟩ ∧ ∀ color, ¬ Spells Pair (Text.trim "#+f0000") color := by
  refine ⟨by decide +kernel, fun color spells => ?_⟩
  have text : (Text.trim "#+f0000").toList = '#' :: "+f0000".toList := by decide +kernel
  cases spells with
  | hex split hex =>
    cases text.symm.trans split
    cases hex with
    | long red => exact absurd red.high (by decide)
  | name listed same => exact not_sign_of_listed listed same _ text

end Color

end Folio
