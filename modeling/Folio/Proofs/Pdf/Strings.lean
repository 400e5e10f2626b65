import Folio.Proofs.Pdf.Word

/-! # Strings and names

A string is read back from either of its notations, and a name from its bytes behind the solidus.
-/

namespace Folio.Pdf

/-- A string as it is read: every end of a line in it is a line feed. -/
def lineFeeds (behindReturn : Bool) : Bytes → Bytes
  | [] => []
  | b :: rest =>
    if b = byteOf '\r' then byteOf '\n' :: lineFeeds true rest
    else if b = byteOf '\n' ∧ behindReturn = true then lineFeeds false rest
    else b :: lineFeeds false rest

def PlainName (n : Bytes) : Prop := ∀ b ∈ n, isRegular b = true ∧ b ≠ byteOf '#'

instance : DecidablePred PlainName := fun n =>
  List.decidableBAll (fun b => isRegular b = true ∧ b ≠ byteOf '#') n

theorem isPlain_of_isDigit {b : UInt8} :
    isDigit b = true → isRegular b = true ∧ b ≠ byteOf '#' :=
  forall_byte (P := fun b => isDigit b = true → isRegular b = true ∧ b ≠ byteOf '#')
    (by decide +kernel) b

theorem literal?_escaped {b : UInt8} (h : b = byteOf '(' ∨ b = byteOf ')' ∨ b = byteOf '\\')
    {pending : Pending} (quiet : pending = .nothing ∨ pending = .lineEnd) (rest : Bytes) :
    literal? 0 pending (byteOf '\\' :: b :: rest) =
      (literal? 0 .nothing rest).map fun (s, rest) => (b :: s, rest) := by
  have behind : literal? 0 .escape (b :: rest) =
      (literal? 0 .nothing rest).map fun (s, rest) => (b :: s, rest) := by
    rcases h with rfl | rfl | rfl <;> rfl
  have front : literal? 0 pending (byteOf '\\' :: b :: rest) =
      (literal? 0 .escape (b :: rest)).map fun (s, rest) => ([] ++ s, rest) := by
    rcases quiet with rfl | rfl <;> rfl
  rw [front, behind, Option.map_map]
  rfl

theorem literal?_plain {b : UInt8} (h : ¬ (b = byteOf '(' ∨ b = byteOf ')' ∨ b = byteOf '\\'))
    (behindReturn : Bool) (rest : Bytes) :
    literal? 0 (if behindReturn then .lineEnd else .nothing) (b :: rest) =
      if b = byteOf '\r' then
        (literal? 0 .lineEnd rest).map fun (s, rest) => (byteOf '\n' :: s, rest)
      else if b = byteOf '\n' ∧ behindReturn = true then literal? 0 .nothing rest
      else (literal? 0 .nothing rest).map fun (s, rest) => (b :: s, rest) := by
  obtain ⟨opening, closing, slash⟩ : b ≠ byteOf '(' ∧ b ≠ byteOf ')' ∧ b ≠ byteOf '\\' := by
    simpa using h
  by_cases ret : b = byteOf '\r'
  · subst ret
    cases behindReturn <;> rfl
  · by_cases feed : b = byteOf '\n' ∧ behindReturn = true
    · obtain ⟨rfl, rfl⟩ := feed
      show (literal? 0 .nothing rest).map (fun (s, rest) => ([] ++ s, rest)) = _
      simp [ret]
    · have plain : plainByte 0 b = ([b], some (0, .nothing)) := by
        simp [plainByte, opening, closing, slash, ret]
      cases behindReturn with
      | false => simp [literal?, stringByte, plain, ret]
      | true =>
        have other : b ≠ byteOf '\n' := fun same => feed ⟨same, rfl⟩
        simp [literal?, stringByte, plain, ret, other]

/-- A string between parentheses is read with its ends of lines as line feeds. -/
theorem literal?_flatMap (s rest : Bytes) (behindReturn : Bool) :
    literal? 0 (if behindReturn then .lineEnd else .nothing)
        (s.flatMap literalByte ++ byteOf ')' :: rest) =
      some (lineFeeds behindReturn s, rest) := by
  induction s generalizing behindReturn with
  | nil => cases behindReturn <;> rfl
  | cons b s ih =>
    have plain : literal? 0 .nothing (s.flatMap literalByte ++ byteOf ')' :: rest) =
        some (lineFeeds false s, rest) := ih false
    have behindLine : literal? 0 .lineEnd (s.flatMap literalByte ++ byteOf ')' :: rest) =
        some (lineFeeds true s, rest) := ih true
    rw [List.flatMap_cons, literalByte]
    by_cases marked : b = byteOf '(' ∨ b = byteOf ')' ∨ b = byteOf '\\'
    · simp only [if_pos marked, List.cons_append, List.nil_append]
      have quiet : (if behindReturn then Pending.lineEnd else .nothing) = .nothing ∨
          (if behindReturn then Pending.lineEnd else .nothing) = .lineEnd := by
        cases behindReturn <;> simp
      refine (literal?_escaped marked quiet _).trans ?_
      rw [plain]
      rcases marked with rfl | rfl | rfl <;> rfl
    · simp only [if_neg marked, List.cons_append, List.nil_append]
      refine (literal?_plain marked behindReturn _).trans ?_
      rw [lineFeeds, behindLine, plain]
      split
      · rfl
      · split <;> rfl

theorem hexPair_values (b : UInt8) :
    ∃ high low, hexPair b = [high, low] ∧ hexValue? high = some (b.toNat / 16) ∧
      hexValue? low = some (b.toNat % 16) ∧ (16 * (b.toNat / 16) + b.toNat % 16) = b.toNat := by
  refine ⟨_, _, rfl, ?_⟩
  revert b
  exact forall_byte (by decide +kernel)

theorem hexBytes?_flatMap (s : Bytes) : hexBytes? (s.flatMap hexPair) = some s := by
  induction s with
  | nil => rfl
  | cons b s ih =>
    obtain ⟨high, low, pair, first, second, whole⟩ := hexPair_values b
    rw [List.flatMap_cons, pair]
    simp only [List.cons_append, List.nil_append, hexBytes?, first, second, ih, Option.bind_eq_bind,
      Option.bind_some, whole, UInt8.ofNat_toNat, Option.pure_def]

theorem hexPair_marks {b d : UInt8} (mem : d ∈ hexPair b) :
    (d != byteOf '>') = true ∧ (!isSpace d) = true ∧ (d != byteOf '<') = true := by
  have tested : ∀ b, ((hexPair b).all fun d =>
      d != byteOf '>' && (!isSpace d && d != byteOf '<')) = true :=
    forall_byte (by decide +kernel)
  have marks := List.all_eq_true.1 (tested b) d mem
  simpa only [Bool.and_eq_true] using marks

theorem hexString?_flatMap (s rest : Bytes) :
    hexString? (s.flatMap hexPair ++ byteOf '>' :: rest) = some (s, rest) := by
  have marks : ∀ d ∈ s.flatMap hexPair, (d != byteOf '>') = true ∧ (!isSpace d) = true := by
    intro d hd
    obtain ⟨b, _, hd⟩ := List.mem_flatMap.1 hd
    obtain ⟨bracket, space, _⟩ := hexPair_marks hd
    exact ⟨bracket, space⟩
  have front : (byteOf '>' :: rest).takeWhile (fun d => d != byteOf '>') = [] := by simp
  have behind : (byteOf '>' :: rest).dropWhile (fun d => d != byteOf '>') =
      byteOf '>' :: rest := by simp
  rw [hexString?, List.takeWhile_append_of_pos fun d hd => (marks d hd).1,
    List.dropWhile_append_of_pos fun d hd => (marks d hd).1, front, behind, List.append_nil,
    List.filter_eq_self.2 fun d hd => (marks d hd).2, hexBytes?_flatMap]
  rfl

theorem head?_hexString (s rest : Bytes) :
    (s.flatMap hexPair ++ byteOf '>' :: rest).head? ≠ some (byteOf '<') := by
  cases s with
  | nil => exact fun h => absurd (Option.some.inj h) (by decide)
  | cons b s =>
    obtain ⟨high, low, pair, _⟩ := hexPair_values b
    have first : high ∈ hexPair b := by simp [pair]
    have mark := (hexPair_marks first).2.2
    simpa [pair] using mark

theorem unescape_of_plain {n : Bytes} (h : PlainName n) : unescape n = n := by
  fun_induction unescape n with
  | case1 high low rest _ _ _ _ _ => exact absurd rfl (h _ List.mem_cons_self).2
  | case2 high low rest _ _ => exact absurd rfl (h _ List.mem_cons_self).2
  | case3 b high low rest mark ih => rw [ih fun b hb => h b (List.mem_cons_of_mem _ hb)]
  | case4 => rfl

theorem nameFrom_append {n rest : Bytes} (h : PlainName n) (ended : Ended rest) :
    nameFrom (n ++ rest) = (n, rest) := by
  obtain ⟨front, behind⟩ := regular_run (fun b hb => (h b hb).1) ended
  rw [nameFrom, front, behind, unescape_of_plain h]

end Folio.Pdf
