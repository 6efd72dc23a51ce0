import Mathlib.Tactic.IntervalCases
import SchemaNormal.Proofs.Json.Spelling

/-!
# What is written is a spelling

Both layouts write a spelling of the value.  The compact one has no white space; in the pretty one
the white space is the line breaks with their indentation, and the space after a colon.
-/

namespace SchemaNormal.Json

mutual

/-- Every exponent in the value has a digit, so its numbers can be spelled. -/
def Proper : Json → Prop
  | .null | .bool _ | .string _ => True
  | .number n => ∀ e ∈ n.exponent, e.digits ≠ []
  | .list items => ProperItems items
  | .object members => ProperMembers members

def ProperItems : List Json → Prop
  | [] => True
  | v :: vs => Proper v ∧ ProperItems vs

def ProperMembers : List (String × Json) → Prop
  | [] => True
  | (_, v) :: ms => Proper v ∧ ProperMembers ms

end

/-! ## Tokens -/

theorem isHex_hexChar {k : Nat} (h : k < 16) : IsHex (hexChar k) k := by
  interval_cases k <;> simp [IsHex, hexChar]

theorem spelledChar_escape (c : Char) : SpelledChar c (escape c) := by
  have hshort : ∀ letter c', (letter, c') ∈ shortEscapes → c = c' →
      SpelledChar c ['\\', letter] := by
    rintro letter c' h rfl
    exact .short h
  -- the cases are the tests of `escape` in their order: seven letters, then the controls, then
  -- what stands for itself
  unfold escape
  split
  · exact hshort '"' '"' (by decide) ‹_›
  split
  · exact hshort '\\' '\\' (by decide) ‹_›
  split
  · exact hshort 'b' '\x08' (by decide) ‹_›
  split
  · exact hshort 'f' '\x0c' (by decide) ‹_›
  split
  · exact hshort 'n' '\n' (by decide) ‹_›
  split
  · exact hshort 'r' '\r' (by decide) ‹_›
  split
  · exact hshort 't' '\t' (by decide) ‹_›
  split
  · rename_i hcontrol
    -- two zeros and the two digits of a number below 32
    have hunit := SpelledUnit.digits (isHex_hexChar (k := 0) (by omega))
      (isHex_hexChar (k := 0) (by omega)) (isHex_hexChar (k := c.toNat / 16) (by omega))
      (isHex_hexChar (k := c.toNat % 16) (by omega))
    have hvalue : ((0 * 16 + 0) * 16 + c.toNat / 16) * 16 + c.toNat % 16 = c.toNat := by omega
    rw [hvalue] at hunit
    exact .unit hunit
  · rename_i hquote hslash _ _ _ _ _ hcontrol
    exact .plain hquote hslash (by omega)

theorem spelledChars_escape (cs : List Char) : SpelledChars cs (cs.flatMap escape) := by
  induction cs with
  | nil => exact .nil
  | cons c cs ih =>
    rw [List.flatMap_cons]
    exact .cons (spelledChar_escape c) ih

theorem spelledString_stringChars (s : String) : SpelledString s (stringChars s) :=
  ⟨s.toList.flatMap escape, spelledChars_escape s.toList, rfl⟩

theorem blank_nil : Blank [] := fun _ h => by cases h

theorem spelledKey_after {b : List Char} (hb : Blank b) (key : String) :
    SpelledKey key (b ++ stringChars key ++ [':']) :=
  ⟨b, stringChars key, [], hb, spelledString_stringChars key, blank_nil, by simp⟩

theorem spelled_numeral {n : Numeral} (h : ∀ e ∈ n.exponent, e.digits ≠ []) :
    n.Spelled n.chars := by
  obtain ⟨negative, whole, fraction, exponent⟩ := n
  cases exponent with
  | none => exact ⟨[], .none, rfl⟩
  | some e =>
    have hsign : (if e.negative then ['-'] else []) ∈
        (if e.negative then [['-']] else [[], ['+']]) := by
      split <;> simp
    have hmark : 'e' ∈ ['e', 'E'] := by decide
    exact ⟨_, .some hmark hsign (h e rfl), rfl⟩

/-! ## The compact layout -/

mutual

theorem spelled_compact : ∀ v : Json, v.Proper → Spelled v (compactChars v)
  | .null, _ => .null
  | .bool b, _ => .bool b
  | .number _, h => .number (spelled_numeral h)
  | .string s, _ => .string (spelledString_stringChars s)
  | .list [], _ => .emptyList blank_nil
  | .list (v :: vs), h => .list (spelledItems_compact vs (spelled_compact v h.1) h.2)
  | .object [], _ => .emptyObject blank_nil
  | .object ((key, v) :: ms), h => by
    have hmembers := spelledMembers_compact ms (spelledKey_after blank_nil key)
      (spelled_compact v h.1) h.2
    have hobject := Spelled.object hmembers
    simpa only [compactChars, List.cons_append, List.append_assoc, List.nil_append] using hobject

theorem spelledItems_compact {v : Json} {t : List Char} :
    ∀ vs : List Json, Spelled v t → ProperItems vs → SpelledItems (v :: vs) (t ++ compactItems vs)
  | [], hv, _ => .last blank_nil hv blank_nil
  | v' :: vs, hv, h => by
    have hrest := spelledItems_compact vs (spelled_compact v' h.1) h.2
    have hitems := SpelledItems.cons blank_nil hv blank_nil hrest
    simpa only [compactItems, List.nil_append, List.append_nil, List.cons_append] using hitems

theorem spelledMembers_compact {key : String} {v : Json} {k t : List Char} :
    ∀ ms : List (String × Json), SpelledKey key k → Spelled v t → ProperMembers ms →
      SpelledMembers ((key, v) :: ms) (k ++ t ++ compactMembers ms)
  | [], hk, hv, _ => by
    have hmember := SpelledMembers.last hk blank_nil hv blank_nil
    simpa only [compactMembers, List.append_nil] using hmember
  | (key', v') :: ms, hk, hv, h => by
    have hrest := spelledMembers_compact ms (spelledKey_after blank_nil key')
      (spelled_compact v' h.1) h.2
    have hmembers := SpelledMembers.cons hk blank_nil hv blank_nil hrest
    simpa only [compactMembers, List.append_nil, List.append_assoc, List.cons_append,
      List.nil_append] using hmembers

end

/-! ## The pretty layout -/

theorem blank_newline (level : Nat) : Blank (newline level) := by
  intro c hc
  obtain rfl | hc := List.mem_cons.mp hc
  · decide
  · obtain rfl := List.eq_of_mem_replicate hc
    decide

theorem blank_space : Blank [' '] := by
  intro c hc
  obtain rfl := List.mem_singleton.mp hc
  decide

mutual

theorem spelled_pretty : ∀ (v : Json) (level : Nat), v.Proper → Spelled v (prettyChars level v)
  | .null, _, _ => .null
  | .bool b, _, _ => .bool b
  | .number _, _, h => .number (spelled_numeral h)
  | .string s, _, _ => .string (spelledString_stringChars s)
  | .list [], _, _ => .emptyList blank_nil
  | .list (v :: vs), level, h => by
    have hitems := spelledItems_pretty (level + 1) (blank_newline level) vs
      (spelled_pretty v (level + 1) h.1) h.2
    have hlist := Spelled.list hitems
    simpa only [prettyChars, List.cons_append, List.append_assoc] using hlist
  | .object [], _, _ => .emptyObject blank_nil
  | .object ((key, v) :: ms), level, h => by
    have hmembers := spelledMembers_pretty (level + 1) (blank_newline level) ms key
      (spelled_pretty v (level + 1) h.1) h.2
    have hobject := Spelled.object hmembers
    simpa only [prettyChars, List.cons_append, List.append_assoc] using hobject

/-- Each item is on a line of its own, and so is the bracket after the last one. -/
theorem spelledItems_pretty {v : Json} {t close : List Char} (level : Nat) (hclose : Blank close) :
    ∀ vs : List Json, Spelled v t → ProperItems vs →
      SpelledItems (v :: vs) (newline level ++ t ++ prettyItems level vs ++ close)
  | [], hv, _ => by
    have hitem := SpelledItems.last (blank_newline level) hv hclose
    simpa only [prettyItems, List.append_nil] using hitem
  | v' :: vs, hv, h => by
    have hrest := spelledItems_pretty level hclose vs (spelled_pretty v' level h.1) h.2
    have hitems := SpelledItems.cons (blank_newline level) hv blank_nil hrest
    simpa only [prettyItems, List.append_nil, List.append_assoc, List.cons_append] using hitems

theorem spelledMembers_pretty {v : Json} {t close : List Char} (level : Nat)
    (hclose : Blank close) :
    ∀ (ms : List (String × Json)) (key : String), Spelled v t → ProperMembers ms →
      SpelledMembers ((key, v) :: ms)
        (newline level ++ stringChars key ++ ':' :: ' ' :: t ++ prettyMembers level ms ++ close)
  | [], key, hv, _ => by
    -- the space after the colon is the white space before the value
    have hkey := spelledKey_after (blank_newline level) key
    have hmember := SpelledMembers.last hkey blank_space hv hclose
    simpa only [prettyMembers, List.append_nil, List.append_assoc, List.cons_append,
      List.nil_append] using hmember
  | (key', v') :: ms, key, hv, h => by
    have hrest := spelledMembers_pretty level hclose ms key' (spelled_pretty v' level h.1) h.2
    have hkey := spelledKey_after (blank_newline level) key
    have hmembers := SpelledMembers.cons hkey blank_space hv blank_nil hrest
    simpa only [prettyMembers, List.append_nil, List.append_assoc, List.cons_append,
      List.nil_append] using hmembers

end

/-- In either layout the text written for a value spells it. -/
theorem spelledBy_render (layout : Layout) {v : Json} (h : v.Proper) :
    v.SpelledBy (render layout v) := by
  have hchars : ∀ t, Spelled v t → v.SpelledBy (String.ofList t) := by
    intro t ht
    refine ⟨[], t, [], blank_nil, ht, blank_nil, ?_⟩
    rw [String.toList_ofList, List.nil_append, List.append_nil]
  cases layout with
  | compact => exact hchars _ (spelled_compact v h)
  | pretty => exact hchars _ (spelled_pretty v 0 h)

/-- White space at the end belongs to no token. -/
theorem SpelledBy.append_blank {v : Json} {text blank : String} (h : v.SpelledBy text)
    (hblank : Blank blank.toList) : v.SpelledBy (text ++ blank) := by
  obtain ⟨b, t, b', hb, ht, hb', htext⟩ := h
  refine ⟨b, t, b' ++ blank.toList, hb, ht, ?_, ?_⟩
  · intro c hc
    rcases List.mem_append.mp hc with hc | hc
    · exact hb' c hc
    · exact hblank c hc
  · rw [String.toList_append, htext, List.append_assoc]

theorem spelledBy_render_newline (layout : Layout) {v : Json} (h : v.Proper) :
    v.SpelledBy (render layout v ++ "\n") :=
  (spelledBy_render layout h).append_blank (blank_newline 0)

end SchemaNormal.Json
