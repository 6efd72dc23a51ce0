import Mathlib.Data.Nat.Digits.Lemmas
import SchemaNormal.Proofs.Json.Layouts

/-!
# White space outside strings

The two layouts differ in white space between tokens only: without it the pretty text of a value is
its compact text.
-/

namespace SchemaNormal.Json

/-- Where a character of a text stands. -/
inductive Region where
  | outside
  /-- Between the quotes of a string. -/
  | string
  /-- In a string, after a backslash. -/
  | escape
deriving DecidableEq, Repr

/-- Where the next character stands. -/
def Region.after : Region → Char → Region
  | .outside, c => if c = '"' then .string else .outside
  | .string, c => if c = '"' then .outside else if c = '\\' then .escape else .string
  | .escape, _ => .string

/-- The characters that are no white space or stand in a string. -/
def withoutBlanksFrom : Region → List Char → List Char
  | _, [] => []
  | region, c :: cs =>
      if region = .outside ∧ c ∈ [' ', '\t', '\n', '\r'] then withoutBlanksFrom region cs
      else c :: withoutBlanksFrom (region.after c) cs

/-- The text without the white space that stands outside of its strings. -/
def withoutBlanks (text : String) : String :=
  String.ofList (withoutBlanksFrom .outside text.toList)

/-- Without its white space the part `t`, which holds whole tokens, is `u`. -/
def Tightens (t u : List Char) : Prop :=
  ∀ rest, withoutBlanksFrom .outside (t ++ rest) = u ++ withoutBlanksFrom .outside rest

/-- The character is a token's, and no string begins with it. -/
def IsPlain (c : Char) : Prop :=
  c ≠ '"' ∧ c ∉ [' ', '\t', '\n', '\r']

instance : DecidablePred IsPlain := fun c =>
  inferInstanceAs (Decidable (c ≠ '"' ∧ c ∉ [' ', '\t', '\n', '\r']))

/-! ## Parts of a text -/

theorem Tightens.nil : Tightens [] [] := fun _ => rfl

theorem Tightens.append {t t' u u' : List Char} (h : Tightens t u) (h' : Tightens t' u') :
    Tightens (t ++ t') (u ++ u') := by
  intro rest
  rw [List.append_assoc, h, h', List.append_assoc]

theorem Tightens.plain {c : Char} {t u : List Char} (hc : IsPlain c) (h : Tightens t u) :
    Tightens (c :: t) (c :: u) := by
  intro rest
  rw [List.cons_append, withoutBlanksFrom, if_neg fun hblank => hc.2 hblank.2, Region.after,
    if_neg hc.1, h, List.cons_append]

theorem tightens_of_isPlain {t : List Char} (h : ∀ c ∈ t, IsPlain c) : Tightens t t := by
  induction t with
  | nil => exact .nil
  | cons c t ih =>
    obtain ⟨hc, ht⟩ := List.forall_mem_cons.mp h
    exact .plain hc (ih ht)

theorem tightens_blank {t : List Char} (h : Blank t) : Tightens t [] := by
  intro rest
  induction t with
  | nil => rfl
  | cons c t ih =>
    obtain ⟨hc, ht⟩ := List.forall_mem_cons.mp h
    rw [List.cons_append, withoutBlanksFrom, if_pos ⟨rfl, hc⟩]
    exact ih ht

/-! ## Tokens -/

theorem isPlain_of_isDigit {c : Char} (h : c.isDigit = true) : IsPlain c := by
  refine ⟨?_, fun hc => ?_⟩
  · rintro rfl
    cases h
  · simp only [List.mem_cons, List.not_mem_nil, or_false] at hc
    obtain rfl | rfl | rfl | rfl := hc <;> cases h

theorem isPlain_digit (d : Digit) : IsPlain d.char := by
  revert d
  decide

theorem isPlain_numeral (n : Numeral) : ∀ c ∈ n.chars, IsPlain c := by
  have hdigits : ∀ ds : List Digit, ∀ c ∈ ds.map Digit.char, IsPlain c := fun ds =>
    List.forall_mem_map.mpr fun d _ => isPlain_digit d
  have hsign : ∀ negative : Bool, ∀ c ∈ (if negative then ['-'] else []), IsPlain c := by
    intro negative
    cases negative <;> simp [IsPlain]
  have hwhole : ∀ c ∈ natChars n.whole, IsPlain c := fun c hc =>
    isPlain_of_isDigit (Nat.isDigit_of_mem_toDigits (by decide) (by decide) hc)
  unfold Numeral.chars
  simp only [List.forall_mem_append]
  refine ⟨⟨⟨hsign n.negative, hwhole⟩, ?_⟩, ?_⟩
  · split
    · exact List.forall_mem_nil _
    · exact List.forall_mem_cons.mpr ⟨by decide, hdigits n.fraction⟩
  · cases n.exponent with
    | none => exact List.forall_mem_nil _
    | some e =>
      refine List.forall_mem_cons.mpr ⟨by decide, ?_⟩
      exact List.forall_mem_append.mpr ⟨hsign e.negative, hdigits e.digits⟩

/-- In a string the part `t` stays as it is and does not end the string. -/
def StaysInString (t : List Char) : Prop :=
  ∀ rest, withoutBlanksFrom .string (t ++ rest) = t ++ withoutBlanksFrom .string rest

theorem StaysInString.append {t t' : List Char} (h : StaysInString t) (h' : StaysInString t') :
    StaysInString (t ++ t') := by
  intro rest
  rw [List.append_assoc, h, h', List.append_assoc]

theorem StaysInString.single {c : Char} (hquote : c ≠ '"') (hslash : c ≠ '\\') :
    StaysInString [c] := by
  intro rest
  rw [List.singleton_append, withoutBlanksFrom, if_neg (by simp), Region.after, if_neg hquote,
    if_neg hslash, List.singleton_append]

/-- A backslash takes the next character with it. -/
theorem StaysInString.escape (c : Char) : StaysInString ['\\', c] := by
  intro rest
  rw [List.cons_append, withoutBlanksFrom, if_neg (by simp), List.singleton_append,
    withoutBlanksFrom, if_neg (by simp [Region.after])]
  rfl

theorem staysInString_hex {c : Char} {d : Nat} (h : IsHex c d) : StaysInString [c] := by
  -- the digits and letters are neither 34 nor 92
  have hne : ∀ c' : Char, c'.toNat = 34 ∨ c'.toNat = 92 → c ≠ c' := by
    rintro c' hc' rfl
    unfold IsHex at h
    omega
  exact .single (hne '"' (Or.inl rfl)) (hne '\\' (Or.inr rfl))

theorem staysInString_unit {n : Nat} {u : List Char} (h : SpelledUnit n u) :
    StaysInString ('\\' :: 'u' :: u) := by
  obtain ⟨ha, hb, hc, hd⟩ := h
  exact (StaysInString.escape 'u').append ((staysInString_hex ha).append
    ((staysInString_hex hb).append ((staysInString_hex hc).append (staysInString_hex hd))))

theorem staysInString_char {c : Char} {u : List Char} (h : SpelledChar c u) : StaysInString u := by
  cases h with
  | plain hquote hslash _ => exact .single hquote hslash
  | short _ => exact .escape _
  | unit hunit => exact staysInString_unit hunit
  | pair _ hhigh hlow => exact (staysInString_unit hhigh).append (staysInString_unit hlow)

theorem staysInString_chars {cs t : List Char} (h : SpelledChars cs t) : StaysInString t := by
  induction h with
  | nil => exact fun _ => rfl
  | cons hchar _ ih => exact (staysInString_char hchar).append ih

theorem tightens_string {s : String} {t : List Char} (h : SpelledString s t) : Tightens t t := by
  obtain ⟨body, hbody, rfl⟩ := h
  intro rest
  have hquote : ∀ region rest, withoutBlanksFrom region ('"' :: rest) =
      '"' :: withoutBlanksFrom (region.after '"') rest := fun region rest =>
    if_neg fun hblank => absurd hblank.2 (by decide)
  rw [List.cons_append, List.cons_append, hquote, List.append_assoc]
  show '"' :: withoutBlanksFrom .string _ = _
  rw [staysInString_chars hbody, List.singleton_append, hquote, List.cons_append,
    List.append_assoc]
  rfl

/-! ## The pretty layout -/

theorem tightens_newline (level : Nat) : Tightens (newline level) [] :=
  tightens_blank (blank_newline level)

theorem tightens_member (key : String) {t u : List Char} (h : Tightens t u) :
    Tightens (stringChars key ++ ':' :: ' ' :: t) (stringChars key ++ ':' :: u) :=
  (tightens_string (spelledString_stringChars key)).append
    (.plain (by decide) ((tightens_blank blank_space).append h))

/-- What stands between two brackets, each of them on a line of its own. -/
theorem tightens_bracketed (start stop : Char) {t u : List Char} (level : Nat)
    (hstart : IsPlain start) (hstop : IsPlain stop) (h : Tightens t u) :
    Tightens (start :: newline (level + 1) ++ t ++ newline level ++ [stop])
      (start :: u ++ [stop]) := by
  have hclose : Tightens (newline level ++ [stop]) [stop] :=
    (tightens_newline level).append (.plain hstop .nil)
  have hinside := ((tightens_newline (level + 1)).append h).append hclose
  have hall := Tightens.plain hstart hinside
  simpa only [List.cons_append, List.append_assoc, List.nil_append] using hall

mutual

theorem tightens_pretty (level : Nat) :
    ∀ v : Json, Tightens (prettyChars level v) (compactChars v)
  | .null => tightens_of_isPlain (t := ['n', 'u', 'l', 'l']) (by simp [IsPlain])
  | .bool b => tightens_of_isPlain (t := boolChars b) (by cases b <;> simp [boolChars, IsPlain])
  | .number n => tightens_of_isPlain (isPlain_numeral n)
  | .string s => tightens_string (spelledString_stringChars s)
  | .list [] => tightens_of_isPlain (t := ['[', ']']) (by simp [IsPlain])
  | .list (v :: vs) => by
    have hitems := (tightens_pretty (level + 1) v).append (tightens_prettyItems (level + 1) vs)
    have hlist := tightens_bracketed '[' ']' level (by decide) (by decide) hitems
    simpa only [prettyChars, compactChars, List.cons_append, List.append_assoc] using hlist
  | .object [] => tightens_of_isPlain (t := ['\x7b', '\x7d']) (by simp [IsPlain])
  | .object ((key, v) :: ms) => by
    have hmembers := (tightens_member key (tightens_pretty (level + 1) v)).append
      (tightens_prettyMembers (level + 1) ms)
    have hobject := tightens_bracketed '\x7b' '\x7d' level (by decide) (by decide) hmembers
    simpa only [prettyChars, compactChars, List.cons_append, List.append_assoc] using hobject

theorem tightens_prettyItems (level : Nat) :
    ∀ vs : List Json, Tightens (prettyItems level vs) (compactItems vs)
  | [] => .nil
  | v :: vs => by
    have hitem := (tightens_newline level).append
      ((tightens_pretty level v).append (tightens_prettyItems level vs))
    have hitems := Tightens.plain (c := ',') (by decide) hitem
    simpa only [prettyItems, compactItems, List.cons_append, List.append_assoc,
      List.nil_append] using hitems

theorem tightens_prettyMembers (level : Nat) :
    ∀ ms : List (String × Json), Tightens (prettyMembers level ms) (compactMembers ms)
  | [] => .nil
  | (key, v) :: ms => by
    have hmember := (tightens_newline level).append
      ((tightens_member key (tightens_pretty level v)).append (tightens_prettyMembers level ms))
    have hmembers := Tightens.plain (c := ',') (by decide) hmember
    simpa only [prettyMembers, compactMembers, List.cons_append, List.append_assoc,
      List.nil_append] using hmembers

end

/-- The pretty text of a value, as a line or not, is its compact text without the white space
outside of strings. -/
theorem withoutBlanks_pretty (v : Json) {blanks : String} (h : Blank blanks.toList) :
    withoutBlanks (v.pretty ++ blanks) = v.compact := by
  unfold withoutBlanks pretty compact
  rw [String.toList_append, String.toList_ofList, tightens_pretty 0 v,
    ← List.append_nil blanks.toList, tightens_blank h, List.nil_append, withoutBlanksFrom,
    List.append_nil]

end SchemaNormal.Json
