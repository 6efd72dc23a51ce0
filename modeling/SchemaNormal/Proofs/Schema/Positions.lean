import SchemaNormal.Proofs.Schema.Members
import SchemaNormal.Schema.Edit

/-!
# Messages at their places

A place picks its message on its own, one position after the other.  The list of all messages visits
each place that has a message once, and the places in their lexical order: a place comes before
those that go on from it, and these come before the next sibling.
-/

namespace SchemaNormal

namespace Message

/-- A place picks the message at its first position, or goes on inside that message. -/
theorem at?_cons_eq_some_iff {i : Nat} {place : List Nat} {ms : List Message} {a : Message} :
    at? (i :: place) ms = some a ↔
      ∃ m, ms[i]? = some m ∧ ((place = [] ∧ m = a) ∨ at? place m.messages = some a) := by
  cases place with
  | nil => simp only [at?, true_and, reduceCtorEq, or_false, exists_eq_right]
  | cons j place =>
    simp only [at?, Option.bind_eq_bind, Option.bind_eq_some_iff, reduceCtorEq, false_and, false_or]

mutual

/-- A message at the empty place, and all messages inside it at their places below. -/
def placed : Message → List (List Nat × Message)
  | ⟨name, fields, messages, enums⟩ => ([], ⟨name, fields, messages, enums⟩) :: placedAll 0 messages

/-- Messages side by side, the first of them at position `i`, and all messages inside them. -/
def placedAll : Nat → List Message → List (List Nat × Message)
  | _, [] => []
  | i, m :: ms => (placed m).map (fun x => (i :: x.1, x.2)) ++ placedAll (i + 1) ms

end

mutual

theorem map_snd_placed : ∀ m : Message, (placed m).map (·.2) = preorder m
  | ⟨_, _, messages, _⟩ => by
    rw [placed, preorder, List.map_cons, map_snd_placedAll messages 0]

theorem map_snd_placedAll : ∀ (ms : List Message) (i : Nat),
    (placedAll i ms).map (·.2) = preorderAll ms
  | [], _ => rfl
  | m :: ms, i => by
    rw [placedAll, preorderAll, List.map_append, List.map_map, map_snd_placedAll ms (i + 1),
      ← map_snd_placed m]
    rfl

end

theorem mem_placedAll {place : List Nat} {a : Message} {ms : List Message} {i : Nat} :
    (place, a) ∈ placedAll i ms ↔
      ∃ j rest m, place = (i + j) :: rest ∧ ms[j]? = some m ∧ (rest, a) ∈ placed m := by
  induction ms generalizing i with
  | nil => simp [placedAll]
  | cons m ms ih =>
    rw [placedAll, List.mem_append, List.mem_map, ih]
    constructor
    · rintro (⟨⟨rest, b⟩, hmem, heq⟩ | ⟨j, rest, c, rfl, hc, hmem⟩)
      · obtain ⟨rfl, rfl⟩ := Prod.mk.inj heq
        exact ⟨0, rest, m, rfl, rfl, hmem⟩
      · refine ⟨j + 1, rest, c, ?_, hc, hmem⟩
        rw [Nat.add_right_comm, Nat.add_assoc]
    · rintro ⟨j, rest, c, rfl, hc, hmem⟩
      -- the first message is the one at offset 0, a later one stands one position further on
      cases j with
      | zero =>
        obtain rfl := Option.some.inj hc
        exact Or.inl ⟨(rest, a), hmem, rfl⟩
      | succ j =>
        refine Or.inr ⟨j, rest, c, ?_, hc, hmem⟩
        rw [Nat.add_right_comm, Nat.add_assoc]

/-- Once the places inside each message are right, so are those of the whole list. -/
theorem mem_placedAll_iff_at? {ms : List Message}
    (h : ∀ m ∈ ms, ∀ rest a, (rest, a) ∈ placed m ↔
      (rest = [] ∧ m = a) ∨ at? rest m.messages = some a) (place : List Nat) (a : Message) :
    (place, a) ∈ placedAll 0 ms ↔ at? place ms = some a := by
  cases place with
  | nil =>
    rw [mem_placedAll]
    constructor
    · rintro ⟨j, rest, m, hplace, -⟩
      cases hplace
    · intro hat
      cases hat
  | cons i rest =>
    rw [mem_placedAll, at?_cons_eq_some_iff]
    constructor
    · rintro ⟨j, rest', m, hplace, hm, hmem⟩
      rw [Nat.zero_add] at hplace
      obtain ⟨rfl, rfl⟩ := List.cons.inj hplace
      exact ⟨m, hm, (h m (List.mem_of_getElem? hm) _ a).mp hmem⟩
    · rintro ⟨m, hm, hrest⟩
      refine ⟨i, rest, m, ?_, hm, (h m (List.mem_of_getElem? hm) rest a).mpr hrest⟩
      rw [Nat.zero_add]

theorem mem_placed (m : Message) (place : List Nat) (a : Message) :
    (place, a) ∈ placed m ↔ (place = [] ∧ m = a) ∨ at? place m.messages = some a := by
  induction m generalizing place a with
  | mk name fields messages enums ih =>
    rw [placed, List.mem_cons, mem_placedAll_iff_at? ih place a, Prod.mk.injEq,
      eq_comm (a := a)]

mutual

/-- The places of a message and of those inside it come in lexical order. -/
theorem pairwise_placed : ∀ m : Message,
    ((placed m).map (·.1)).Pairwise (List.Lex (· < ·))
  | ⟨_, _, messages, _⟩ => by
    rw [placed, List.map_cons, List.pairwise_cons]
    refine ⟨?_, pairwise_placedAll messages 0⟩
    intro place hplace
    obtain ⟨⟨place, a⟩, hmem, rfl⟩ := List.mem_map.mp hplace
    obtain ⟨j, rest, m, rfl, -, -⟩ := mem_placedAll.mp hmem
    exact List.Lex.nil

theorem pairwise_placedAll : ∀ (ms : List Message) (i : Nat),
    ((placedAll i ms).map (·.1)).Pairwise (List.Lex (· < ·))
  | [], _ => List.Pairwise.nil
  | m :: ms, i => by
    rw [placedAll, List.map_append, List.map_map, List.pairwise_append]
    refine ⟨?_, pairwise_placedAll ms (i + 1), ?_⟩
    · have hbelow := (pairwise_placed m).map (i :: ·) fun _ _ h => List.Lex.cons h
      rwa [List.map_map] at hbelow
    · -- every place in `m` starts with `i`, and every later one with a higher position
      intro place hplace later hlater
      obtain ⟨x, -, rfl⟩ := List.mem_map.mp hplace
      obtain ⟨⟨later, a⟩, hmem, rfl⟩ := List.mem_map.mp hlater
      obtain ⟨j, rest, c, rfl, -, -⟩ := mem_placedAll.mp hmem
      apply List.Lex.rel
      omega

end

end Message

namespace File

/-- The messages of a file, at every depth, each with its place. -/
def placedMessages (f : File) : List (List Nat × Message) :=
  Message.placedAll 0 f.messages

theorem map_snd_placedMessages (f : File) : f.placedMessages.map (·.2) = f.allMessages :=
  Message.map_snd_placedAll f.messages 0

theorem pairwise_placedMessages (f : File) :
    (f.placedMessages.map (·.1)).Pairwise (List.Lex (· < ·)) :=
  Message.pairwise_placedAll f.messages 0

theorem mem_placedMessages_iff (f : File) (place : List Nat) (m : Message) :
    (place, m) ∈ f.placedMessages ↔ f.messageAt? place = some m :=
  Message.mem_placedAll_iff_at? (fun m _ => m.mem_placed) place m

/-- What holds of the messages at all places holds of all messages. -/
theorem forall_mem_allMessages_iff (f : File) (P : Message → Prop) :
    (∀ m ∈ f.allMessages, P m) ↔ ∀ place m, f.messageAt? place = some m → P m := by
  rw [← map_snd_placedMessages, List.forall_mem_map]
  constructor
  · intro h place m hm
    exact h (place, m) ((f.mem_placedMessages_iff place m).mpr hm)
  · rintro h ⟨place, m⟩ hmem
    exact h place m ((f.mem_placedMessages_iff place m).mp hmem)

theorem exists_mem_allMessages_iff (f : File) (P : Message → Prop) :
    (∃ m ∈ f.allMessages, P m) ↔ ∃ place m, f.messageAt? place = some m ∧ P m := by
  have h := not_congr (f.forall_mem_allMessages_iff fun m => ¬ P m)
  push Not at h
  exact h

end File

end SchemaNormal
