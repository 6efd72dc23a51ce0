import Mathlib.Data.List.Forall2
import SchemaNormal.Json.Node

/-!
# Values without their places

A node that is whole denotes a value: what is left of it when its places are forgotten.  A whole
node has nothing in it that a reader could stumble over when it only skips.
-/

namespace SchemaNormal.Json

mutual

/-- The node is whole, and this is its value. -/
inductive Node.Denotes : Node → Json → Prop where
  | null (start : Nat) : Node.Denotes (.null start) .null
  | bool (start stop : Nat) (b : Bool) : Node.Denotes (.bool start stop b) (.bool b)
  | number (start stop : Nat) (n : Numeral) : Node.Denotes (.number start stop n) (.number n)
  | string (start stop : Nat) (s : String) : Node.Denotes (.string start stop (.ok s)) (.string s)
  | emptyList (start stop : Nat) : Node.Denotes (.list start (.close stop)) (.list [])
  | list {items : Items} {vs : List Json} (start : Nat) : items.Denote vs →
      Node.Denotes (.list start items) (.list vs)
  | emptyObject (start stop : Nat) : Node.Denotes (.object start (.close stop)) (.object [])
  | object {members : Members} {ms : List (String × Json)} (start : Nat) : members.Denote ms →
      Node.Denotes (.object start members) (.object ms)

/-- The items end with their bracket, and these are their values; there is at least one. -/
inductive Items.Denote : Items → List Json → Prop where
  | last {value : Node} {v : Json} (stop : Nat) : value.Denotes v →
      Items.Denote (.item value (.close stop)) [v]
  | cons {value : Node} {v : Json} {rest : Items} {vs : List Json} (comma : Nat) :
      value.Denotes v → rest.Denote vs → Items.Denote (.item value (.comma comma rest)) (v :: vs)

/-- The members end with their bracket, and these are they; there is at least one. -/
inductive Members.Denote : Members → List (String × Json) → Prop where
  | last {key : String} {value : Node} {v : Json} (keyStop colon stop : Nat) : value.Denotes v →
      Members.Denote (.member ⟨.ok key, keyStop⟩ colon value (.close stop)) [(key, v)]
  | cons {key : String} {value : Node} {v : Json} {rest : Members} {ms : List (String × Json)}
      (keyStop colon comma : Nat) : value.Denotes v → rest.Denote ms →
      Members.Denote (.member ⟨.ok key, keyStop⟩ colon value (.comma comma rest))
        ((key, v) :: ms)

end

mutual

theorem Node.Denotes.skipFault? {node : Node} {v : Json} :
    node.Denotes v → node.skipFault? = none
  | .null _ => rfl
  | .bool _ _ _ => rfl
  | .number _ _ _ => rfl
  | .string _ _ _ => rfl
  | .emptyList _ _ => rfl
  | .list _ h => h.skipFault? true
  | .emptyObject _ _ => rfl
  | .object _ h => h.skipFault? true

theorem Items.Denote.skipFault? {items : Items} {vs : List Json} :
    items.Denote vs → ∀ first, items.skipFault? first = none
  | .last _ h, _ => by
    rw [Items.skipFault?, h.skipFault?]
    rfl
  | .cons _ h hrest, _ => by
    rw [Items.skipFault?, h.skipFault?, AfterItem.skipFault?, hrest.skipFault? false]
    rfl

theorem Members.Denote.skipFault? {members : Members} {ms : List (String × Json)} :
    members.Denote ms → ∀ first, members.skipFault? first = none
  | .last _ _ _ h, _ => by
    rw [Members.skipFault?, h.skipFault?]
    rfl
  | .cons _ _ _ h hrest, _ => by
    rw [Members.skipFault?, h.skipFault?, AfterMember.skipFault?, hrest.skipFault? false]
    rfl

end

mutual

theorem Node.Denotes.unique {node : Node} {v w : Json} :
    node.Denotes v → node.Denotes w → v = w
  | .null _, .null _ => rfl
  | .bool _ _ _, .bool _ _ _ => rfl
  | .number _ _ _, .number _ _ _ => rfl
  | .string _ _ _, .string _ _ _ => rfl
  | .emptyList _ _, .emptyList _ _ => rfl
  | .list _ h, .list _ h' => by rw [h.unique h']
  | .emptyObject _ _, .emptyObject _ _ => rfl
  | .object _ h, .object _ h' => by rw [h.unique h']

theorem Items.Denote.unique {items : Items} {vs ws : List Json} :
    items.Denote vs → items.Denote ws → vs = ws
  | .last _ h, .last _ h' => by rw [h.unique h']
  | .cons _ h hrest, .cons _ h' hrest' => by rw [h.unique h', hrest.unique hrest']

theorem Members.Denote.unique {members : Members} {ms ns : List (String × Json)} :
    members.Denote ms → members.Denote ns → ms = ns
  | .last _ _ _ h, .last _ _ _ h' => by rw [h.unique h']
  | .cons _ _ _ h hrest, .cons _ _ _ h' hrest' => by rw [h.unique h', hrest.unique hrest']

end

/-! ## What stands in a bracket -/

mutual

/-- The nodes of a list, as far as it goes. -/
def Items.nodes : Items → List Node
  | .item value rest => value :: rest.nodes
  | .close _ | .ended _ => []

def AfterItem.nodes : AfterItem → List Node
  | .comma _ rest => rest.nodes
  | .close _ | .other _ | .ended _ => []

end

mutual

/-- The members of an object whose keys can be read. -/
def Members.nodes : Members → List (String × Node)
  | .member ⟨.ok key, _⟩ _ value rest => (key, value) :: rest.nodes
  | .member ⟨.error _, _⟩ _ _ rest => rest.nodes
  | .close _ | .ended _ | .other _ | .brokenKey _ | .bareKey _ _ _ => []

def AfterMember.nodes : AfterMember → List (String × Node)
  | .comma _ rest => rest.nodes
  | .close _ | .other _ | .ended _ => []

end

theorem Items.Denote.nodes {items : Items} {vs : List Json} (h : items.Denote vs) :
    List.Forall₂ Node.Denotes items.nodes vs := by
  -- by induction on the values, as the items are of two types in turn
  induction vs generalizing items with
  | nil => cases h
  | cons v vs ih =>
    cases h with
    | last stop hv => exact .cons hv .nil
    | cons comma hv hrest => exact .cons hv (ih hrest)

theorem Members.Denote.nodes {members : Members} {ms : List (String × Json)}
    (h : members.Denote ms) :
    List.Forall₂ (fun m n => m.1 = n.1 ∧ m.2.Denotes n.2) members.nodes ms := by
  induction ms generalizing members with
  | nil => cases h
  | cons m ms ih =>
    cases h with
    | last keyStop colon stop hv => exact .cons ⟨rfl, hv⟩ .nil
    | cons keyStop colon comma hv hrest => exact .cons ⟨rfl, hv⟩ (ih hrest)

end SchemaNormal.Json
