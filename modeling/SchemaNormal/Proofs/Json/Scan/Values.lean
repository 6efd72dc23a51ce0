import SchemaNormal.Proofs.Json.Located
import SchemaNormal.Proofs.Json.Scan.Tokens

/-!
# Scanning a whole value

Every spelling of a value is scanned to a whole node that denotes it.  The scan is followed from
the state that awaits the value to the state after it, whatever brackets stand open around it and
whatever comes next, as long as that cannot go on with a number.
-/

namespace SchemaNormal.Json

namespace Scan

/-! ## White space and what may follow a value -/

/-- Nothing follows, or white space, a comma or a closing bracket. -/
def Follows (rest : List Char) : Prop :=
  ∀ c ∈ rest.head?, c ∈ [' ', '\t', '\n', '\r', ',', ']', '\x7d']

theorem follows_cons {c : Char} (h : c ∈ [' ', '\t', '\n', '\r', ',', ']', '\x7d'])
    (rest : List Char) : Follows (c :: rest) := by
  intro c' hc'
  obtain rfl : c' = c := by simpa using hc'.symm
  exact h

theorem follows_blank {b rest : List Char} (hb : Blank b) (h : Follows rest) :
    Follows (b ++ rest) := by
  cases b with
  | nil => exact h
  | cons c b =>
    apply follows_cons
    have hc := hb c List.mem_cons_self
    simp only [List.mem_cons, List.not_mem_nil, or_false] at hc ⊢
    tauto

theorem isBlank_of_mem {c : Char} (h : c ∈ [' ', '\t', '\n', '\r']) : isBlank c = true := by
  simpa [isBlank, or_assoc] using h

/-- A state that white space does not change. -/
def Rests (scan : Scan) : Prop :=
  ∀ offset c, isBlank c = true → scan.step offset c = scan

theorem rests_value (stack : List Frame) : Rests (.value stack) := by
  intro offset c hc
  unfold step stepValue
  exact if_pos hc

theorem rests_after (node : Node) (stack : List Frame) : Rests (.after node stack) := by
  intro offset c hc
  unfold step stepAfter
  exact if_pos hc

theorem rests_key (start : Nat) (members : List (SeenMember × Nat)) (stack : List Frame) :
    Rests (.key start members stack) := by
  intro offset c hc
  unfold step stepKey
  exact if_pos hc

theorem rests_colon (key : Key) (start : Nat) (members : List (SeenMember × Nat))
    (stack : List Frame) : Rests (.colon key start members stack) := by
  intro offset c hc
  unfold step stepColon
  exact if_pos hc

theorem run_blank {scan : Scan} (h : scan.Rests) {b : List Char} (hb : Blank b)
    (rest : List Char) (offset : Nat) :
    ∃ offset', scan.run offset (b ++ rest) = scan.run offset' rest := by
  induction b generalizing offset with
  | nil => exact ⟨offset, rfl⟩
  | cons c b ih =>
    obtain ⟨hc, hb⟩ := List.forall_mem_cons.mp hb
    obtain ⟨offset', h'⟩ := ih hb (offset + c.utf8Size)
    refine ⟨offset', ?_⟩
    rw [List.cons_append, run, h offset c (isBlank_of_mem hc)]
    exact h'

/-! ## Scalars -/

theorem run_null (stack : List Frame) (offset : Nat) (rest : List Char) :
    run (.value stack) offset (['n', 'u', 'l', 'l'] ++ rest) =
      run (.after (.null offset) stack) (offset + 4) rest := rfl

theorem run_bool (b : Bool) (stack : List Frame) (offset : Nat) (rest : List Char) :
    ∃ stop, run (.value stack) offset (boolChars b ++ rest) =
      run (.after (.bool offset stop b) stack) stop rest := by
  cases b with
  | true => exact ⟨offset + 4, rfl⟩
  | false => exact ⟨offset + 5, rfl⟩

/-- A number ends where it cannot go on. -/
theorem run_number_end {n : OpenNumber} (hends : n.Ends) (stack : List Frame) (offset : Nat)
    {rest : List Char} (hrest : Follows rest) :
    run (.number n stack) offset rest =
      run (.after (.number n.start offset n.numeral) stack) offset rest := by
  -- at the end of the text the number is ended from outside, else by the character after it
  cases rest with
  | nil =>
    have hended : n.ended offset = .ok n.numeral := by
      unfold OpenNumber.ended
      obtain h | h | h | h := hends <;> rw [h]
    rw [run, run, finish, finish, hended]
  | cons c rest =>
    have hclosed : n.step offset c = .closed n.numeral := by
      have hc := hrest c rfl
      simp only [List.mem_cons, List.not_mem_nil, or_false] at hc
      unfold OpenNumber.step
      obtain h | h | h | h := hends <;> rw [h] <;>
        obtain rfl | rfl | rfl | rfl | rfl | rfl | rfl := hc <;> rfl
    rw [run, run, step, hclosed, step]

/-- A number without a sign begins like one whose sign has been taken. -/
theorem run_value_digit {c : Char} {d : Digit} (hc : Digit.ofChar? c = some d)
    (stack : List Frame) (offset : Nat) (rest : List Char) :
    run (.value stack) offset (c :: rest) =
      run (.number ⟨offset, .sign, { whole := 0 }⟩ stack) offset (c :: rest) := by
  -- a digit is none of the characters that begin something else
  have hne : ∀ c', Digit.ofChar? c' = none → c ≠ c' := by
    rintro c' hc' rfl
    rw [hc] at hc'
    cases hc'
  have hblank : ¬ isBlank c = true := by
    simp [isBlank, hne ' ' rfl, hne '\t' rfl, hne '\n' rfl, hne '\r' rfl]
  have hvalue : stepValue stack offset c = .number (.ofDigit offset d) stack := by
    unfold stepValue
    rw [if_neg hblank, if_neg (hne '"' rfl), if_neg (hne '[' rfl), if_neg (hne '\x7b' rfl),
      if_neg (hne '-' rfl), hc]
  have hnumber : OpenNumber.step ⟨offset, .sign, { whole := 0 }⟩ offset c =
      .more (.ofDigit offset d) := by
    unfold OpenNumber.step
    rw [hc]
    rfl
  rw [run, run, step, step, hvalue, hnumber]

theorem run_numeral {n : Numeral} {t : List Char} (h : n.Spelled t) (stack : List Frame)
    (offset : Nat) {rest : List Char} (hrest : Follows rest) :
    ∃ start stop, run (.value stack) offset (t ++ rest) =
      run (.after (.number start stop n) stack) stop rest := by
  obtain ⟨exponent, hexponent, rfl⟩ := h
  have hembed : ∀ (s : OpenNumber) offset c s', s.step offset c = .more s' →
      (Scan.number s stack).step offset c = .number s' stack := by
    intro s offset c s' hstep
    rw [step, hstep]
  -- after the sign, or where there is none, the rest of the number is the same
  have hbody : ∀ offset', ∃ stop,
      run (.number ⟨offset, .sign, { negative := n.negative, whole := 0 }⟩ stack) offset'
        (natChars n.whole ++ ((if n.fraction.isEmpty then []
          else '.' :: n.fraction.map Digit.char) ++ exponent) ++ rest) =
      run (.after (.number offset stop n) stack) stop rest := by
    intro offset'
    obtain ⟨m, rfl, rfl, hends, stop, hgoes⟩ :=
      OpenNumber.goes_numeral hexponent offset offset'
    refine ⟨stop, ?_⟩
    rw [run_goes (Scan.number · stack) hembed hgoes]
    exact run_number_end hends stack stop hrest
  by_cases hnegative : n.negative = true
  · obtain ⟨stop, hstop⟩ := hbody (offset + 1)
    rw [hnegative] at hstop
    rw [if_pos hnegative]
    simp only [List.append_assoc] at hstop ⊢
    exact ⟨offset, stop, hstop⟩
  · obtain ⟨stop, hstop⟩ := hbody offset
    obtain ⟨c, d, cs, hcs, hd⟩ := exists_cons_natChars n.whole
    have hpositive : n.negative = false := eq_false_of_ne_true hnegative
    rw [hpositive] at hstop
    rw [if_neg hnegative]
    simp only [List.append_assoc, List.nil_append, hcs, List.cons_append] at hstop ⊢
    rw [run_value_digit hd]
    exact ⟨offset, stop, hstop⟩

theorem run_string {s : String} {t : List Char} (h : SpelledString s t) (stack : List Frame)
    (offset : Nat) (rest : List Char) :
    ∃ stop, run (.value stack) offset (t ++ rest) =
      run (.after (.string offset stop (.ok s)) stack) stop rest := by
  obtain ⟨body, last, stop, rfl, hgoes, rfl, hclosed⟩ := OpenString.goes_string h offset
  have hembed : ∀ (s : OpenString) offset c s', s.step offset c = .more s' →
      (Scan.string s stack).step offset c = .string s' stack := by
    intro s offset c s' hstep
    rw [step, hstep]
  refine ⟨stop + 1, ?_⟩
  rw [List.append_assoc, List.cons_append]
  -- the first quote opens the string; it is still the same one at the last quote
  show run (.string { start := last.start } stack) (last.start + 1) (body ++ ('"' :: rest)) = _
  rw [run_goes (Scan.string · stack) hembed hgoes, run, step, hclosed]
  rfl

theorem run_key {key : String} {t : List Char} (h : SpelledKey key t) (start : Nat)
    (members : List (SeenMember × Nat)) (stack : List Frame) (offset : Nat) (rest : List Char) :
    ∃ stop colon offset', run (.key start members stack) offset (t ++ rest) =
      run (.value (.object start members ⟨.ok key, stop⟩ colon :: stack)) offset' rest := by
  obtain ⟨b, k, b', hb, hk, hb', rfl⟩ := h
  obtain ⟨offset₁, hblank⟩ :=
    run_blank (rests_key start members stack) hb (k ++ (b' ++ ':' :: rest)) offset
  obtain ⟨body, last, stop, rfl, hgoes, -, hclosed⟩ := OpenString.goes_string hk offset₁
  have hembed : ∀ (s : OpenString) offset c s', s.step offset c = .more s' →
      (Scan.keyString s start members stack).step offset c =
        .keyString s' start members stack := by
    intro s offset c s' hstep
    rw [step, hstep]
  obtain ⟨offset₂, hcolon⟩ :=
    run_blank (rests_colon ⟨.ok key, stop + 1⟩ start members stack) hb' (':' :: rest) (stop + 1)
  refine ⟨stop + 1, offset₂, offset₂ + 1, ?_⟩
  simp only [List.append_assoc, List.cons_append, List.nil_append] at hblank ⊢
  rw [hblank]
  show run (.keyString { start := offset₁ } start members stack) (offset₁ + 1)
    (body ++ '"' :: (b' ++ ':' :: rest)) = _
  rw [run_goes (Scan.keyString · start members stack) hembed hgoes, run, step, hclosed]
  exact hcolon

/-! ## Brackets -/

/-- Where a value is awaited, the text is scanned to a node of this value. -/
def ScansTo (t : List Char) (v : Json) : Prop :=
  ∀ (stack : List Frame) (offset : Nat) {rest : List Char}, Follows rest →
    ∃ node offset', node.Denotes v ∧
      run (.value stack) offset (t ++ rest) = run (.after node stack) offset' rest

theorem ScansTo.padded {v : Json} {t : List Char} (h : ScansTo t v) {b b' : List Char}
    (hb : Blank b) (hb' : Blank b') : ScansTo (b ++ t ++ b') v := by
  intro stack offset rest hrest
  obtain ⟨offset₁, hbefore⟩ := run_blank (rests_value stack) hb (t ++ (b' ++ rest)) offset
  obtain ⟨node, offset₂, hnode, hrun⟩ := h stack offset₁ (follows_blank hb' hrest)
  obtain ⟨offset₃, hafter⟩ := run_blank (rests_after node stack) hb' rest offset₂
  refine ⟨node, offset₃, hnode, ?_⟩
  rw [List.append_assoc, List.append_assoc, hbefore, hrun, hafter]

mutual

theorem scansTo_of_spelled {v : Json} {t : List Char} (h : Spelled v t) : ScansTo t v := by
  -- by recursion on the spelling; in a bracket the stack has grown by the bracket's frame
  intro stack offset rest hrest
  match h with
  | .null => exact ⟨_, _, .null offset, run_null stack offset rest⟩
  | .bool b =>
    obtain ⟨stop, hrun⟩ := run_bool b stack offset rest
    exact ⟨_, _, .bool offset stop b, hrun⟩
  | .number hn =>
    obtain ⟨start, stop, hrun⟩ := run_numeral hn stack offset hrest
    exact ⟨_, _, .number start stop _, hrun⟩
  | .string hs =>
    obtain ⟨stop, hrun⟩ := run_string hs stack offset rest
    exact ⟨_, _, .string offset stop _, hrun⟩
  | .emptyList hb =>
    obtain ⟨offset', hrun⟩ :=
      run_blank (rests_value (.list offset [] :: stack)) hb (']' :: rest) (offset + 1)
    rw [List.append_assoc]
    exact ⟨_, _, .emptyList offset offset', hrun⟩
  | .list hvs =>
    obtain ⟨items, offset', hitems, hrun⟩ :=
      run_spelledItems hvs offset [] stack (offset + 1) rest
    rw [List.append_assoc]
    exact ⟨_, _, .list offset hitems, hrun⟩
  | .emptyObject hb =>
    obtain ⟨offset', hrun⟩ :=
      run_blank (rests_key offset [] stack) hb ('\x7d' :: rest) (offset + 1)
    rw [List.append_assoc]
    exact ⟨_, _, .emptyObject offset offset', hrun⟩
  | .object hms =>
    obtain ⟨members, offset', hmembers, hrun⟩ :=
      run_spelledMembers hms offset [] stack (offset + 1) rest
    rw [List.append_assoc]
    exact ⟨_, _, .object offset hmembers, hrun⟩

/-- The items to come end up behind those already seen. -/
theorem run_spelledItems {vs : List Json} {t : List Char} (h : SpelledItems vs t) (start : Nat)
    (seen : List (Node × Nat)) (stack : List Frame) (offset : Nat) (rest : List Char) :
    ∃ items offset', items.Denote vs ∧
      run (.value (.list start seen :: stack)) offset (t ++ ']' :: rest) =
        run (.after (.ofItems start seen items) stack) offset' rest := by
  match h with
  | .last hb hv hb' =>
    obtain ⟨node, offset₁, hnode, hrun⟩ := (scansTo_of_spelled hv).padded hb hb'
      (.list start seen :: stack) offset (follows_cons (c := ']') (by decide) rest)
    exact ⟨.item node (.close offset₁), offset₁ + 1, .last offset₁ hnode, hrun⟩
  | @SpelledItems.cons v vs b t b' ts hb hv hb' hvs =>
    obtain ⟨node, offset₁, hnode, hrun⟩ := (scansTo_of_spelled hv).padded hb hb'
      (.list start seen :: stack) offset
      (follows_cons (c := ',') (by decide) (ts ++ ']' :: rest))
    obtain ⟨items, offset₂, hitems, hrest⟩ :=
      run_spelledItems hvs start ((node, offset₁) :: seen) stack (offset₁ + 1) rest
    refine ⟨.item node (.comma offset₁ items), offset₂, .cons offset₁ hnode hitems, ?_⟩
    -- the comma moves the item to those already seen
    rw [List.append_assoc, List.cons_append, hrun]
    exact hrest

theorem run_spelledMembers {ms : List (String × Json)} {t : List Char} (h : SpelledMembers ms t)
    (start : Nat) (seen : List (SeenMember × Nat)) (stack : List Frame) (offset : Nat)
    (rest : List Char) :
    ∃ members offset', members.Denote ms ∧
      run (.key start seen stack) offset (t ++ '\x7d' :: rest) =
        run (.after (.ofMembers start seen members) stack) offset' rest := by
  match h with
  | @SpelledMembers.last name v k b t b' hk hb hv hb' =>
    obtain ⟨stop, colon, offset₁, hkey⟩ :=
      run_key hk start seen stack offset (b ++ t ++ b' ++ '\x7d' :: rest)
    obtain ⟨node, offset₂, hnode, hrun⟩ := (scansTo_of_spelled hv).padded hb hb'
      (.object start seen ⟨.ok _, stop⟩ colon :: stack) offset₁
      (follows_cons (c := '\x7d') (by decide) rest)
    refine ⟨.member ⟨.ok _, stop⟩ colon node (.close offset₂), offset₂ + 1,
      .last stop colon offset₂ hnode, ?_⟩
    rw [hrun] at hkey
    simp only [List.append_assoc] at hkey ⊢
    exact hkey
  | @SpelledMembers.cons name v ms k b t b' ts hk hb hv hb' hms =>
    obtain ⟨stop, colon, offset₁, hkey⟩ :=
      run_key hk start seen stack offset (b ++ t ++ b' ++ ',' :: (ts ++ '\x7d' :: rest))
    obtain ⟨node, offset₂, hnode, hrun⟩ := (scansTo_of_spelled hv).padded hb hb'
      (.object start seen ⟨.ok _, stop⟩ colon :: stack) offset₁
      (follows_cons (c := ',') (by decide) (ts ++ '\x7d' :: rest))
    obtain ⟨members, offset₃, hmembers, hrest⟩ := run_spelledMembers hms start
      ((⟨⟨.ok _, stop⟩, colon, node⟩, offset₂) :: seen) stack (offset₂ + 1) rest
    refine ⟨.member ⟨.ok _, stop⟩ colon node (.comma offset₂ members), offset₃,
      .cons stop colon offset₂ hnode hmembers, ?_⟩
    rw [hrun] at hkey
    simp only [List.append_assoc, List.cons_append] at hkey ⊢
    exact hkey.trans hrest

end

end Scan

/-- A text that spells a value is scanned to a node of that value, with nothing after it. -/
theorem Document.ofText_of_spelledBy {v : Json} {text : String} (h : v.SpelledBy text) :
    ∃ node, node.Denotes v ∧ Document.ofText text = ⟨node, none⟩ := by
  obtain ⟨b, t, b', hb, ht, hb', htext⟩ := h
  have hend : Scan.Follows [] := fun c hc => by cases hc
  obtain ⟨node, offset, hnode, hrun⟩ :=
    (Scan.scansTo_of_spelled ht).padded hb hb' [] 0 hend
  refine ⟨node, hnode, ?_⟩
  rw [List.append_nil, ← htext] at hrun
  exact hrun

/-- A text spells one value at most. -/
theorem SpelledBy.unique {v w : Json} {text : String} (hv : v.SpelledBy text)
    (hw : w.SpelledBy text) : v = w := by
  obtain ⟨node, hnode, hdocument⟩ := Document.ofText_of_spelledBy hv
  obtain ⟨node', hnode', hdocument'⟩ := Document.ofText_of_spelledBy hw
  have hroot : node = node' := congrArg Document.root (hdocument.symm.trans hdocument')
  exact hnode.unique (hroot ▸ hnode')

end SchemaNormal.Json
