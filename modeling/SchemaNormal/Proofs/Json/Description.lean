import Mathlib.Data.List.Forall2
import SchemaNormal.Json.Basic

/-!
# Descriptions

What a typed reader is for, said without a reader: which values describe a list, something that may
be null, a name, or a record.  A record stands either in an object, where only the values under its
keys count, or in a list of its values in order.

A record's entries are said of any type, so that the values of a record can be compared with other
things that stand in their places.
-/

namespace SchemaNormal.Json

variable {α β γ : Type}

/-- The value is a list, and its items describe the elements one by one. -/
def IsListOf (Describes : α → Json → Prop) (xs : List α) (v : Json) : Prop :=
  ∃ vs, v = .list vs ∧ List.Forall₂ Describes xs vs

/-- Nothing is described by null. -/
def IsNullable (Describes : α → Json → Prop) (x : Option α) (v : Json) : Prop :=
  x.elim (v = .null) (Describes · v)

/-- A name stands for itself, or is the key of an object whose only member is null. -/
def IsName (name : String) (v : Json) : Prop :=
  v = .string name ∨ v = .object [(name, .null)]

/-! ## Records -/

/-- The values under a key, in the order of the members. -/
def valuesUnder (key : String) (members : List (String × β)) : List β :=
  (members.filter (·.1 = key)).map (·.2)

/-- One key of a record: which value may stand there, and whether none may. -/
structure Entry (β : Type) where
  key : String
  Admits : Option β → Prop

/-- These are all the values under the key: one that may stand there, or none if none may. -/
def Entry.Found (e : Entry β) : List β → Prop
  | [] => e.Admits none
  | [v] => e.Admits (some v)
  | _ :: _ :: _ => False

/-- Only the values under the keys count. -/
def InMembers (entries : List (Entry β)) (members : List (String × β)) : Prop :=
  ∀ e ∈ entries, e.Found (valuesUnder e.key members)

/-- The values stand for the keys in order; those that are missing are the last ones. -/
def InOrder : List (Entry β) → List β → Prop
  | [], vs => vs = []
  | e :: entries, [] => e.Admits none ∧ InOrder entries []
  | e :: entries, v :: vs => e.Admits (some v) ∧ InOrder entries vs

/-- The value is a record with these entries. -/
def IsRecord (entries : List (Entry Json)) : Json → Prop
  | .object members => InMembers entries members
  | .list items => InOrder entries items
  | _ => False

/-- A key that has to be there. -/
def required (key : String) (P : Json → Prop) : Entry Json :=
  ⟨key, fun v => v.elim False P⟩

/-- A list that is empty if its key is absent. -/
def listEntry (key : String) (Describes : α → Json → Prop) (xs : List α) : Entry Json :=
  ⟨key, fun v => v.elim (xs = []) (IsListOf Describes xs)⟩

/-- A value that may be null or absent. -/
def nullableEntry (key : String) (Describes : α → Json → Prop) (x : Option α) : Entry Json :=
  ⟨key, fun v => v.elim (x = none) (IsNullable Describes x)⟩

/-- A value that is the default if its key is absent. -/
def defaultEntry (key : String) (default : α) (Describes : α → Json → Prop) (x : α) : Entry Json :=
  ⟨key, fun v => v.elim (x = default) (Describes x)⟩

/-! ## Members -/

theorem valuesUnder_cons (key : String) (m : String × β) (members : List (String × β)) :
    valuesUnder key (m :: members) =
      if m.1 = key then m.2 :: valuesUnder key members else valuesUnder key members := by
  unfold valuesUnder
  rw [List.filter_cons]
  by_cases h : m.1 = key
  · simp only [h, decide_true, if_true, List.map_cons]
  · simp only [h, decide_false, Bool.false_eq_true, if_false]

theorem valuesUnder_singleton_self (key : String) (v : β) : valuesUnder key [(key, v)] = [v] := by
  rw [valuesUnder_cons, if_pos rfl]
  rfl

theorem valuesUnder_singleton_of_ne {key key' : String} (h : key' ≠ key) (v : β) :
    valuesUnder key [(key', v)] = [] := by
  rw [valuesUnder_cons, if_neg h]
  rfl

theorem valuesUnder_append (key : String) (as bs : List (String × β)) :
    valuesUnder key (as ++ bs) = valuesUnder key as ++ valuesUnder key bs := by
  unfold valuesUnder
  rw [List.filter_append, List.map_append]

theorem mem_of_mem_valuesUnder {key : String} {members : List (String × β)} {v : β}
    (h : v ∈ valuesUnder key members) : (key, v) ∈ members := by
  obtain ⟨⟨key', v'⟩, hm, rfl⟩ := List.mem_map.mp h
  rw [List.mem_filter, decide_eq_true_eq] at hm
  obtain ⟨hm, rfl⟩ := hm
  exact hm

theorem forall₂_valuesUnder {S : β → γ → Prop} {ms : List (String × β)} {ns : List (String × γ)}
    (h : List.Forall₂ (fun m n => m.1 = n.1 ∧ S m.2 n.2) ms ns) (key : String) :
    List.Forall₂ S (valuesUnder key ms) (valuesUnder key ns) := by
  induction h with
  | nil => exact .nil
  | @cons m n ms ns hmn hrest ih =>
    obtain ⟨hkey, hS⟩ := hmn
    rw [valuesUnder_cons, valuesUnder_cons, ← hkey]
    by_cases hm : m.1 = key
    · rw [if_pos hm, if_pos hm]
      exact .cons hS ih
    · rw [if_neg hm, if_neg hm]
      exact ih

theorem Entry.Found.admits {e : Entry β} {vs : List β} (h : e.Found vs) :
    ∃ slot, e.Admits slot := by
  match vs with
  | [] => exact ⟨none, h⟩
  | [v] => exact ⟨some v, h⟩
  -- a repeated key is never found
  | _ :: _ :: _ => exact h.elim

theorem InMembers.admits {es : List (Entry β)} {members : List (String × β)}
    (h : InMembers es members) : ∀ e ∈ es, ∃ slot, e.Admits slot :=
  fun e he => (h e he).admits

theorem InOrder.admits {es : List (Entry β)} {vs : List β} (h : InOrder es vs) :
    ∀ e ∈ es, ∃ slot, e.Admits slot := by
  induction es generalizing vs with
  | nil => exact nofun
  | cons e es ih =>
    rw [List.forall_mem_cons]
    cases vs with
    | nil => exact ⟨⟨none, h.1⟩, ih h.2⟩
    | cons v vs => exact ⟨⟨some v, h.1⟩, ih h.2⟩

/-! ## Order of members -/

theorem Entry.found_perm {e : Entry β} {vs ws : List β} (h : vs.Perm ws)
    (hfound : e.Found vs) : e.Found ws := by
  match vs with
  | [] =>
    rw [List.nil_perm.mp h]
    exact hfound
  | [v] =>
    rw [List.perm_singleton.mp h.symm]
    exact hfound
  | _ :: _ :: _ => exact hfound.elim

theorem InMembers.perm {es : List (Entry β)} {ms ns : List (String × β)} (h : ms.Perm ns)
    (hin : InMembers es ms) : InMembers es ns :=
  fun e he => Entry.found_perm ((h.filter _).map _) (hin e he)

/-! ## Depth -/

theorem depth_le_depthItems {v : Json} {vs : List Json} (h : v ∈ vs) : v.depth ≤ depthItems vs := by
  induction vs with
  | nil => cases h
  | cons w vs ih =>
    rw [depthItems]
    obtain rfl | h := List.mem_cons.mp h
    · exact Nat.le_max_left _ _
    · exact Nat.le_trans (ih h) (Nat.le_max_right _ _)

theorem depth_le_depthMembers {key : String} {v : Json} {ms : List (String × Json)}
    (h : (key, v) ∈ ms) : v.depth ≤ depthMembers ms := by
  induction ms with
  | nil => cases h
  | cons m ms ih =>
    rw [depthMembers]
    obtain rfl | h := List.mem_cons.mp h
    · exact Nat.le_max_left _ _
    · exact Nat.le_trans (ih h) (Nat.le_max_right _ _)

/-! ## One record for another -/

/-- What may stand for one entry may be replaced by what is related to it and then stands for the
other. -/
structure Entry.Carries (S : β → γ → Prop) (e : Entry β) (e' : Entry γ) : Prop where
  key : e.key = e'.key
  admits : ∀ {v w}, Option.Rel S v w → e.Admits v → e'.Admits w

theorem Entry.Carries.found {S : β → γ → Prop} {e : Entry β} {e' : Entry γ} (h : e.Carries S e')
    {vs : List β} {ws : List γ} (hvs : List.Forall₂ S vs ws) (hfound : e.Found vs) :
    e'.Found ws := by
  cases hvs with
  | nil => exact h.admits .none hfound
  | cons hv hrest =>
    -- related lists are of one length, so there is one value on both sides or a second one on both
    cases hrest with
    | nil => exact h.admits (.some hv) hfound
    | cons _ _ => exact hfound.elim

section Carry

variable {S : β → γ → Prop} {es : List (Entry β)} {es' : List (Entry γ)}

theorem InMembers.carry (h : List.Forall₂ (Entry.Carries S) es es') {ms : List (String × β)}
    {ns : List (String × γ)}
    (hms : ∀ e ∈ es, List.Forall₂ S (valuesUnder e.key ms) (valuesUnder e.key ns))
    (hin : InMembers es ms) : InMembers es' ns := by
  intro e' he'
  -- the entry that `e'` takes the place of
  obtain ⟨e, he, hcarries⟩ : ∃ e ∈ es, e.Carries S e' := by
    induction h with
    | nil => cases he'
    | cons hhead _ ih =>
      obtain rfl | he' := List.mem_cons.mp he'
      · exact ⟨_, List.mem_cons_self, hhead⟩
      · obtain ⟨e, he, hcarries⟩ := ih (fun e he => hms e (List.mem_cons_of_mem _ he))
          (fun e he => hin e (List.mem_cons_of_mem _ he)) he'
        exact ⟨e, List.mem_cons_of_mem _ he, hcarries⟩
  rw [← hcarries.key]
  exact hcarries.found (hms e he) (hin e he)

theorem InOrder.carry (h : List.Forall₂ (Entry.Carries S) es es') {vs : List β} {ws : List γ}
    (hvs : List.Forall₂ S vs ws) (hin : InOrder es vs) : InOrder es' ws := by
  induction h generalizing vs ws with
  | nil =>
    obtain rfl : vs = [] := hin
    cases hvs
    rfl
  | cons hhead _ ih =>
    cases hvs with
    -- the values have run out, and every entry that is left admits none
    | nil => exact ⟨hhead.admits .none hin.1, ih .nil hin.2⟩
    | cons hv hrest => exact ⟨hhead.admits (.some hv) hin.1, ih hrest hin.2⟩

end Carry

end SchemaNormal.Json
