import Mathlib.Tactic.IntervalCases
import SchemaNormal.Json.Scan
import SchemaNormal.Proofs.Json.Spelling

/-!
# Scanning one token

The scan of a token is a walk from state to state.  A spelling of a number takes a number that has
just begun to its numeral, and a spelling of characters takes a string by these characters further;
where in the text they stand does not matter.
-/

namespace SchemaNormal.Json

/-! ## Walks -/

/-- The characters `t`, from one offset to another, take a token from one state to another and do
not close it. -/
inductive Goes {Open Closed : Type} (step : Open → Nat → Char → TokenStep Open Closed) :
    Open → Nat → List Char → Open → Nat → Prop where
  | refl (s : Open) (offset : Nat) : Goes step s offset [] s offset
  | cons {s s' s'' : Open} {offset offset' : Nat} {c : Char} {t : List Char} :
      step s offset c = .more s' → Goes step s' (offset + c.utf8Size) t s'' offset' →
      Goes step s offset (c :: t) s'' offset'

section Goes

variable {Open Closed : Type} {step : Open → Nat → Char → TokenStep Open Closed}

theorem Goes.single {s s' : Open} {offset : Nat} {c : Char} (h : step s offset c = .more s') :
    Goes step s offset [c] s' (offset + c.utf8Size) :=
  .cons h (.refl _ _)

theorem Goes.trans {s s' s'' : Open} {offset offset' offset'' : Nat} {t t' : List Char}
    (h : Goes step s offset t s' offset') (h' : Goes step s' offset' t' s'' offset'') :
    Goes step s offset (t ++ t') s'' offset'' := by
  induction h with
  | refl s offset => exact h'
  | cons hstep _ ih => exact .cons hstep (ih h')

/-- Inside a scan a token goes as it does alone. -/
theorem run_goes (embed : Open → Scan)
    (hembed : ∀ s offset c s', step s offset c = .more s' → (embed s).step offset c = embed s')
    {s s' : Open} {offset offset' : Nat} {t : List Char} (h : Goes step s offset t s' offset')
    (rest : List Char) : (embed s).run offset (t ++ rest) = (embed s').run offset' rest := by
  induction h with
  | refl s offset => rfl
  | cons hstep _ ih =>
    rw [List.cons_append, Scan.run, hembed _ _ _ _ hstep]
    exact ih

end Goes

/-! ## Digits -/

theorem Digit.ofChar?_char (d : Digit) : Digit.ofChar? d.char = some d := by
  revert d
  decide

theorem Digit.ofChar?_digitChar {k : Nat} (h : k < 10) :
    Digit.ofChar? k.digitChar = some ⟨k, h⟩ := by
  interval_cases k <;> rfl

theorem natChars_of_lt {k : Nat} (h : k < 10) : natChars k = [k.digitChar] :=
  Nat.toDigits_of_lt_base h

/-- All digits but the last are those of the tenth part. -/
theorem natChars_of_le {k : Nat} (h : 10 ≤ k) :
    natChars k = natChars (k / 10) ++ [(k % 10).digitChar] :=
  Nat.toDigits_of_base_le (by omega) h

theorem exists_cons_natChars (k : Nat) :
    ∃ c d cs, natChars k = c :: cs ∧ Digit.ofChar? c = some d := by
  induction k using Nat.strong_induction_on with
  | _ k ih =>
    by_cases hk : k < 10
    · exact ⟨_, _, _, natChars_of_lt hk, Digit.ofChar?_digitChar hk⟩
    · obtain ⟨c, d, cs, hcs, hd⟩ := ih (k / 10) (by omega)
      refine ⟨c, d, cs ++ [(k % 10).digitChar], ?_, hd⟩
      rw [natChars_of_le (by omega), hcs, List.cons_append]

/-! ## Numbers -/

namespace OpenNumber

/-- The digits of the whole part take a number from its sign to the end of that part. -/
theorem goes_natChars (n : OpenNumber) (hplace : n.place = .sign) (k offset : Nat) :
    ∃ offset', Goes OpenNumber.step n offset (natChars k)
      { n with place := if k = 0 then .zero else .whole, numeral := { n.numeral with whole := k } }
      offset' := by
  induction k using Nat.strong_induction_on with
  | _ k ih =>
    by_cases hk : k < 10
    · have hstep : n.step offset k.digitChar = .more (n.firstDigit ⟨k, hk⟩) := by
        unfold OpenNumber.step
        rw [hplace, Digit.ofChar?_digitChar hk]
      have hzero : ((⟨k, hk⟩ : Digit) = 0) ↔ k = 0 := by
        rw [Fin.ext_iff]
        rfl
      simp only [firstDigit, hzero] at hstep
      rw [natChars_of_lt hk]
      exact ⟨_, .single hstep⟩
    · -- the last digit comes after those of the tenth part, which do not begin with a zero
      obtain ⟨offset', h⟩ := ih (k / 10) (by omega)
      rw [if_neg (by omega)] at h
      have hlast : k % 10 < 10 := Nat.mod_lt k (by omega)
      have hvalue : k / 10 * 10 + k % 10 = k := by omega
      rw [natChars_of_le (by omega), if_neg (by omega)]
      refine ⟨_, h.trans (.single ?_)⟩
      unfold OpenNumber.step
      rw [Digit.ofChar?_digitChar hlast]
      simp only [pushWhole, hvalue]

/-- The digits after the point. -/
theorem goes_fraction (ds : List Digit) (n : OpenNumber) (hplace : n.place = .fraction)
    (offset : Nat) :
    ∃ offset', Goes OpenNumber.step n offset (ds.map Digit.char)
      { n with numeral := { n.numeral with fraction := n.numeral.fraction ++ ds } } offset' := by
  induction ds generalizing n offset with
  | nil =>
    rw [List.append_nil]
    exact ⟨_, .refl _ _⟩
  | cons d ds ih =>
    have hstep : n.step offset d.char = .more (n.pushFraction d) := by
      unfold OpenNumber.step
      rw [hplace, Digit.ofChar?_char]
    obtain ⟨offset', h⟩ := ih (n.pushFraction d) rfl (offset + d.char.utf8Size)
    simp only [pushFraction, List.append_assoc, List.singleton_append] at h hstep
    rw [← hplace] at h hstep
    exact ⟨offset', .cons hstep h⟩

/-- The digits of an exponent. -/
theorem goes_exponent (ds : List Digit) (n : OpenNumber) (hplace : n.place = .exponent)
    {e : Exponent} (hexponent : n.numeral.exponent = some e) (offset : Nat) :
    ∃ offset', Goes OpenNumber.step n offset (ds.map Digit.char)
      { n with numeral := { n.numeral with
          exponent := some { e with digits := e.digits ++ ds } } } offset' := by
  induction ds generalizing n e offset with
  | nil =>
    rw [List.append_nil, ← hexponent]
    exact ⟨_, .refl _ _⟩
  | cons d ds ih =>
    have hstep : n.step offset d.char = .more (n.pushExponent d) := by
      unfold OpenNumber.step
      rw [hplace, Digit.ofChar?_char]
    simp only [pushExponent, hexponent, Option.getD_some, ← hplace] at hstep
    obtain ⟨offset', h⟩ := ih { n with numeral := { n.numeral with exponent := some { e with
      digits := e.digits ++ [d] } } } hplace rfl (offset + d.char.utf8Size)
    simp only [List.append_assoc, List.singleton_append] at h
    exact ⟨offset', .cons hstep h⟩

/-- The point and the digits after it. -/
theorem goes_point {ds : List Digit} (hne : ds ≠ []) (n : OpenNumber)
    (hplace : n.place = .zero ∨ n.place = .whole) (hfraction : n.numeral.fraction = [])
    (offset : Nat) :
    ∃ offset', Goes OpenNumber.step n offset ('.' :: ds.map Digit.char)
      { n with place := .fraction, numeral := { n.numeral with fraction := ds } } offset' := by
  obtain ⟨d, ds, rfl⟩ := List.exists_cons_of_ne_nil hne
  have hpoint : n.step offset '.' = .more { n with place := .point } := by
    unfold OpenNumber.step
    obtain h | h := hplace <;> rw [h] <;> rfl
  have hdigit : ({ n with place := .point } : OpenNumber).step (offset + 1) d.char =
      .more ({ n with place := .point }.pushFraction d) := by
    unfold OpenNumber.step
    rw [Digit.ofChar?_char]
  obtain ⟨offset', h⟩ := goes_fraction ds ({ n with place := .point }.pushFraction d) rfl
    (offset + 1 + d.char.utf8Size)
  simp only [pushFraction, hfraction, List.nil_append, List.singleton_append] at h hdigit
  exact ⟨offset', .cons hpoint (.cons hdigit h)⟩

/-- The same where there may be no fraction, and the number stays where it is. -/
theorem goes_fractionPart (ds : List Digit) (n : OpenNumber)
    (hplace : n.place = .zero ∨ n.place = .whole) (hfraction : n.numeral.fraction = [])
    (offset : Nat) :
    ∃ place : NumberPlace, (place = .zero ∨ place = .whole ∨ place = .fraction) ∧
      ∃ offset', Goes OpenNumber.step n offset
        (if ds.isEmpty then [] else '.' :: ds.map Digit.char)
        { n with place, numeral := { n.numeral with fraction := ds } } offset' := by
  by_cases hempty : ds = []
  · subst hempty
    refine ⟨n.place, hplace.elim .inl fun h => .inr (.inl h), offset, ?_⟩
    obtain ⟨start, place, negative, whole, fraction, exponent⟩ := n
    obtain rfl : fraction = [] := hfraction
    exact .refl _ _
  · rw [if_neg (by simpa using hempty)]
    exact ⟨.fraction, .inr (.inr rfl), goes_point hempty n hplace hfraction offset⟩

/-- The sign of an exponent, if there is one, and the first digit. -/
theorem goes_sign {negative : Bool} {sign : List Char}
    (hsign : sign ∈ (if negative then [['-']] else [[], ['+']])) (n : OpenNumber)
    (hplace : n.place = .mark) (hexponent : n.numeral.exponent = none) (d : Digit)
    (offset : Nat) :
    ∃ offset', Goes OpenNumber.step n offset (sign ++ [d.char])
      { n with
        place := .exponent
        numeral := { n.numeral with exponent := some ⟨negative, [d]⟩ } } offset' := by
  have hsigned : ∀ c, (c = '+' ∧ negative = false) ∨ (c = '-' ∧ negative = true) →
      n.step offset c = .more (n.signExponent negative) := by
    intro c hc
    unfold OpenNumber.step
    obtain ⟨rfl, rfl⟩ | ⟨rfl, rfl⟩ := hc <;> rw [hplace] <;> rfl
  have hdigit : ∀ offset, (n.signExponent negative).step offset d.char = .more { n with
      place := .exponent
      numeral := { n.numeral with exponent := some ⟨negative, [d]⟩ } } := by
    intro offset
    unfold OpenNumber.step
    rw [signExponent, Digit.ofChar?_char]
    rfl
  cases negative with
  | false =>
    have hsign : sign = [] ∨ sign = ['+'] := by simpa using hsign
    obtain rfl | rfl := hsign
    · -- a digit right after the mark, and no sign
      refine ⟨_, .single ?_⟩
      unfold OpenNumber.step
      rw [hplace, Digit.ofChar?_char]
      simp only [pushExponent, hexponent, Option.getD_none, List.nil_append]
    · exact ⟨_, .cons (hsigned '+' (.inl ⟨rfl, rfl⟩)) (.single (hdigit _))⟩
  | true =>
    obtain rfl : sign = ['-'] := by simpa using hsign
    exact ⟨_, .cons (hsigned '-' (.inr ⟨rfl, rfl⟩)) (.single (hdigit _))⟩

/-- The mark of an exponent, its sign and its digits. -/
theorem goes_mark {e : Exponent} {t : List Char} (he : SpelledExponent (some e) t)
    (n : OpenNumber) (hplace : n.place = .zero ∨ n.place = .whole ∨ n.place = .fraction)
    (hexponent : n.numeral.exponent = none) (offset : Nat) :
    ∃ offset', Goes OpenNumber.step n offset t
      { n with place := .exponent, numeral := { n.numeral with exponent := some e } } offset' := by
  obtain ⟨negative, digits⟩ := e
  cases he with
  | @some _ mark sign hmark hsign hdigits =>
    obtain ⟨d, ds, rfl⟩ := List.exists_cons_of_ne_nil hdigits
    have hstep : n.step offset mark = .more { n with place := .mark } := by
      have hmark : mark = 'e' ∨ mark = 'E' := by simpa using hmark
      unfold OpenNumber.step
      obtain rfl | rfl := hmark <;> obtain h | h | h := hplace <;> rw [h] <;> rfl
    have hsplit : sign ++ (d :: ds).map Digit.char = (sign ++ [d.char]) ++ ds.map Digit.char := by
      rw [List.map_cons, List.append_assoc, List.singleton_append]
    obtain ⟨offset₁, hfirst⟩ := goes_sign hsign { n with place := .mark } rfl hexponent d
      (offset + mark.utf8Size)
    obtain ⟨offset₂, hrest⟩ := goes_exponent ds { n with
      place := .exponent
      numeral := { n.numeral with exponent := some ⟨negative, [d]⟩ } } rfl rfl offset₁
    refine ⟨offset₂, .cons hstep ?_⟩
    show Goes _ _ _ (sign ++ (d :: ds).map Digit.char) _ _
    rw [hsplit]
    exact hfirst.trans hrest

/-- A number may end here. -/
def Ends (n : OpenNumber) : Prop :=
  n.place = .zero ∨ n.place = .whole ∨ n.place = .fraction ∨ n.place = .exponent

/-- What is spelled after the sign takes a number from its sign to its end. -/
theorem goes_numeral {numeral : Numeral} {exponent : List Char}
    (hexponent : SpelledExponent numeral.exponent exponent) (start offset : Nat) :
    ∃ n : OpenNumber, n.start = start ∧ n.numeral = numeral ∧ n.Ends ∧ ∃ offset',
      Goes OpenNumber.step
        ⟨start, .sign, { negative := numeral.negative, whole := 0 }⟩ offset
        (natChars numeral.whole ++ ((if numeral.fraction.isEmpty then []
          else '.' :: numeral.fraction.map Digit.char) ++ exponent)) n offset' := by
  obtain ⟨negative, whole, fraction, e⟩ := numeral
  obtain ⟨offset₁, hwhole⟩ :=
    goes_natChars ⟨start, .sign, { negative, whole := 0 }⟩ rfl whole offset
  -- a lone zero and other digits leave the number at different places, alike for what follows
  have hplace : ∃ place : NumberPlace, (if whole = 0 then .zero else .whole) = place ∧
      (place = .zero ∨ place = .whole) := by
    split
    · exact ⟨.zero, rfl, .inl rfl⟩
    · exact ⟨.whole, rfl, .inr rfl⟩
  obtain ⟨place₁, heq, hplace₁⟩ := hplace
  rw [heq] at hwhole
  obtain ⟨place₂, hplace₂, offset₂, hfraction⟩ :=
    goes_fractionPart fraction ⟨start, place₁, { negative, whole }⟩ hplace₁ rfl offset₁
  cases e with
  | none =>
    cases hexponent
    refine ⟨⟨start, place₂, { negative, whole, fraction }⟩, rfl, rfl, ?_, offset₂, ?_⟩
    · obtain h | h | h := hplace₂
      · exact .inl h
      · exact .inr (.inl h)
      · exact .inr (.inr (.inl h))
    · rw [List.append_nil]
      exact hwhole.trans hfraction
  | some e =>
    obtain ⟨offset₃, hmark⟩ := goes_mark hexponent
      ⟨start, place₂, { negative, whole, fraction }⟩ hplace₂ rfl offset₂
    exact ⟨⟨start, .exponent, { negative, whole, fraction, exponent := some e }⟩, rfl, rfl,
      .inr (.inr (.inr rfl)), offset₃, hwhole.trans (hfraction.trans hmark)⟩

end OpenNumber

/-! ## Strings -/

namespace OpenString

theorem toNat_le_iff {a b : Char} : a ≤ b ↔ a.toNat ≤ b.toNat := by
  rw [Char.le_def, UInt32.le_iff_toNat_le]
  rfl

theorem hexDigit?_of_isHex {c : Char} {d : Nat} (h : IsHex c d) : hexDigit? c = some d := by
  unfold hexDigit?
  simp only [toNat_le_iff, Char.reduceToNat]
  -- the three ranges of digits lie apart
  obtain ⟨hd, hc⟩ | ⟨hd, hd', hc | hc⟩ := h
  · rw [if_pos (by omega), hc]
    congr 1
    omega
  · rw [if_neg (by omega), if_neg (by omega), if_pos (by omega), hc]
    congr 1
    omega
  · rw [if_neg (by omega), if_pos (by omega), hc]
    congr 1
    omega

theorem utf8Size_of_isHex {c : Char} {d : Nat} (h : IsHex c d) : c.utf8Size = 1 := by
  have hc : c.toNat ≤ 127 := by
    obtain ⟨hd, hc⟩ | ⟨hd, hd', hc | hc⟩ := h <;> omega
  rw [Char.utf8Size_eq_one_iff, UInt32.le_iff_toNat_le]
  exact hc

theorem shortEscape?_of_mem {letter c : Char} (h : (letter, c) ∈ shortEscapes) :
    letter ≠ 'u' ∧ shortEscape? letter = some c := by
  simp only [shortEscapes, List.mem_cons, Prod.mk.injEq, List.not_mem_nil, or_false] at h
  obtain ⟨rfl, rfl⟩ | ⟨rfl, rfl⟩ | ⟨rfl, rfl⟩ | ⟨rfl, rfl⟩ | ⟨rfl, rfl⟩ | ⟨rfl, rfl⟩ |
    ⟨rfl, rfl⟩ | ⟨rfl, rfl⟩ := h <;> exact ⟨by decide, rfl⟩

/-- A unit decides where the string goes on. -/
theorem takeUnit_place (s : OpenString) (place : StringPlace) (high : Option Nat)
    (u offset : Nat) : { s with place }.takeUnit high u offset = s.takeUnit high u offset := by
  unfold takeUnit
  cases high with
  | none =>
    dsimp only
    split
    · rfl
    · split <;> rfl
  | some first =>
    dsimp only
    split <;> rfl

/-- A unit is taken after its four digits, each of which is one byte long. -/
theorem goes_unit {u : Nat} {t : List Char} (h : SpelledUnit u t) (s : OpenString)
    (high : Option Nat) (start : Nat) :
    Goes OpenString.step { s with place := .unit start (some 0) high } start t
      (s.takeUnit high u (start + 4)) (start + 4) := by
  cases h with
  | @digits a b c d p q r s' ha hb hc hd =>
    have hmore : ∀ x k v offset, IsHex x k → offset + 1 < start + 4 →
        ({ s with place := .unit start (some v) high } : OpenString).step offset x =
          .more { s with place := .unit start (some (v * 16 + k)) high } := by
      intro x k v offset hx hlt
      simp only [OpenString.step, stepUnit, utf8Size_of_isHex hx, if_pos hlt]
      simp only [Option.bind_some, hexDigit?_of_isHex hx, Option.map_some]
    have hlast : ∀ v, ({ s with place := .unit start (some v) high } : OpenString).step
        (start + 3) d = .more (s.takeUnit high (v * 16 + s') (start + 4)) := by
      intro v
      simp only [OpenString.step, stepUnit, utf8Size_of_isHex hd, Option.bind_some,
        hexDigit?_of_isHex hd, Option.map_some, Nat.lt_irrefl, if_false, takeUnit_place]
    -- three digits that leave the unit open, and the fourth that ends it
    refine .cons (hmore a p 0 start ha (by omega)) ?_
    rw [utf8Size_of_isHex ha]
    refine .cons (hmore b q _ (start + 1) hb (by omega)) ?_
    rw [utf8Size_of_isHex hb]
    refine .cons (hmore c r _ (start + 2) hc (by omega)) ?_
    rw [utf8Size_of_isHex hc]
    have hgoes := Goes.single (hlast ((((0 * 16 + p) * 16 + q) * 16 + r)))
    rw [utf8Size_of_isHex hd, Nat.zero_mul, Nat.zero_add] at hgoes
    rw [Nat.zero_mul, Nat.zero_add]
    exact hgoes

theorem char_toNat (c : Char) : c.toNat < 0xD800 ∨ 0xDFFF < c.toNat ∧ c.toNat < 0x110000 :=
  c.valid

theorem takeUnit_of_char (s : OpenString) (c : Char) (offset : Nat) :
    s.takeUnit none c.toNat offset = s.push c := by
  have hc := char_toNat c
  have hhigh : isHighSurrogate c.toNat = false := by
    simp only [isHighSurrogate, Bool.and_eq_false_iff, decide_eq_false_iff_not]
    omega
  have hlow : isLowSurrogate c.toNat = false := by
    simp only [isLowSurrogate, Bool.and_eq_false_iff, decide_eq_false_iff_not]
    omega
  simp only [takeUnit, hhigh, hlow, Bool.false_eq_true, if_false, Char.ofNat_toNat]

theorem takeUnit_high (s : OpenString) {k : Nat} (hk : k < 0x400) (offset : Nat) :
    s.takeUnit none (0xD800 + k) offset = { s with place := .high (0xD800 + k) } := by
  have hhigh : isHighSurrogate (0xD800 + k) = true := by
    simp only [isHighSurrogate, Bool.and_eq_true, decide_eq_true_eq]
    omega
  simp only [takeUnit, hhigh, if_true]

theorem takeUnit_low (s : OpenString) {c : Char} (hc : 0x10000 ≤ c.toNat) (offset : Nat) :
    s.takeUnit (some (0xD800 + (c.toNat - 0x10000) / 0x400))
      (0xDC00 + (c.toNat - 0x10000) % 0x400) offset = s.push c := by
  have hlow : isLowSurrogate (0xDC00 + (c.toNat - 0x10000) % 0x400) = true := by
    simp only [isLowSurrogate, Bool.and_eq_true, decide_eq_true_eq]
    omega
  have hjoin : joinSurrogates (0xD800 + (c.toNat - 0x10000) / 0x400)
      (0xDC00 + (c.toNat - 0x10000) % 0x400) = c.toNat := by
    unfold joinSurrogates
    omega
  simp only [takeUnit, hlow, if_true, hjoin, Char.ofNat_toNat]

/-- Whatever its spelling, a character is pushed. -/
theorem goes_char {c : Char} {u : List Char} (h : SpelledChar c u) (s : OpenString)
    (hplace : s.place = .plain) (offset : Nat) :
    ∃ offset', Goes OpenString.step s offset u (s.push c) offset' := by
  have hescape : s.step offset '\\' = .more { s with place := .escape } := by
    unfold OpenString.step
    rw [hplace]
    rfl
  have hunit : ∀ offset, ({ s with place := .escape } : OpenString).step offset 'u' =
      .more { s with place := .unit (offset + 1) (some 0) none } := fun _ => rfl
  -- the cases are the ways to spell a character
  cases h with
  | plain hquote hslash hcontrol =>
    have hstep : s.step offset c = .more (s.push c) := by
      simp only [OpenString.step, hplace, stepPlain, if_neg hquote, if_neg hslash,
        if_neg (show ¬ c.toNat < 32 by omega)]
    exact ⟨_, .single hstep⟩
  | @short letter _ hletter =>
    obtain ⟨hu, hshort⟩ := shortEscape?_of_mem hletter
    have hstep : ∀ offset, ({ s with place := .escape } : OpenString).step offset letter =
        .more (s.push c) := by
      intro offset
      simp only [OpenString.step, stepEscape, if_neg hu, hshort]
      rfl
    exact ⟨_, .cons hescape (.single (hstep _))⟩
  | unit hdigits =>
    have hgoes := goes_unit hdigits s none (offset + '\\'.utf8Size + 1)
    rw [takeUnit_of_char] at hgoes
    exact ⟨_, .cons hescape (.cons (hunit _) hgoes)⟩
  | @pair _ high low hc hhigh hlow =>
    -- the first unit leaves its half of the pair behind, and the second one joins it
    have hk : (c.toNat - 0x10000) / 0x400 < 0x400 := by
      have := char_toNat c
      omega
    have hfirst := goes_unit hhigh s none (offset + '\\'.utf8Size + 1)
    rw [takeUnit_high s hk] at hfirst
    have hsecond := fun offset => goes_unit hlow s
      (some (0xD800 + (c.toNat - 0x10000) / 0x400)) (offset + '\\'.utf8Size + 1)
    simp only [takeUnit_low s hc] at hsecond
    exact ⟨_, .cons hescape (.cons (hunit _) (hfirst.trans
      (.cons rfl (.cons rfl (hsecond _)))))⟩

/-- The state after some characters of a string: they are all that has changed. -/
theorem goes_chars {cs t : List Char} (h : SpelledChars cs t) (s : OpenString)
    (hplace : s.place = .plain) (offset : Nat) :
    ∃ offset', Goes OpenString.step s offset t
      { s with chars := cs.reverse ++ s.chars, place := .plain } offset' := by
  induction h generalizing s offset with
  | nil =>
    rw [← hplace]
    exact ⟨offset, .refl _ _⟩
  | @cons c cs u t hc _ ih =>
    obtain ⟨offset₁, hchar⟩ := goes_char hc s hplace offset
    obtain ⟨offset₂, hchars⟩ := ih (s.push c) rfl offset₁
    refine ⟨offset₂, ?_⟩
    rw [List.reverse_cons, List.append_assoc]
    exact hchar.trans hchars

/-- A string is open from its first quote to its last one, which closes it with its content. -/
theorem goes_string {s : String} {t : List Char} (h : SpelledString s t) (start : Nat) :
    ∃ body last stop, t = '"' :: body ++ ['"'] ∧
      Goes OpenString.step { start } (start + 1) body last stop ∧ last.start = start ∧
      last.step stop '"' = .closed (.ok s) := by
  obtain ⟨body, hchars, rfl⟩ := h
  obtain ⟨stop, hgoes⟩ := goes_chars hchars { start } rfl (start + 1)
  refine ⟨body, _, stop, rfl, hgoes, rfl, ?_⟩
  show TokenStep.closed (Except.ok (String.ofList (s.toList.reverse ++ []).reverse)) = _
  rw [List.append_nil, List.reverse_reverse, String.ofList_toList]

end OpenString

end SchemaNormal.Json
