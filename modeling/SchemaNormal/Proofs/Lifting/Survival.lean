import Mathlib.Data.List.Flatten
import SchemaNormal.Proofs.Lifting.Walk

/-!
# Lifting keeps every definition

A message that lifting takes out has a copy that stays, and with the copy everything inside the
message stays too.  So the definitions of the file afterwards are those from before, stripped.
-/

namespace SchemaNormal

namespace File

theorem liftMessages_messages (f : File) :
    f.liftMessages.file.messages =
      f.messages.map f.stripped ++ f.lifted.map (f.stripped ·.message) := by
  rw [f.liftMessages_file]

theorem mem_liftMessages_messages {f : File} {m : Message} :
    m ∈ f.liftMessages.file.messages ↔
      (∃ a ∈ f.messages, f.stripped a = m) ∨ ∃ x ∈ f.lifted, f.stripped x.message = m := by
  rw [liftMessages_messages, List.mem_append, List.mem_map, List.mem_map]

theorem exists_of_mem_liftMessages_messages {f : File} {m : Message}
    (h : m ∈ f.liftMessages.file.messages) : ∃ a ∈ f.allMessages, f.stripped a = m := by
  obtain ⟨a, ha, hm⟩ | ⟨x, hx, hm⟩ := mem_liftMessages_messages.mp h
  · exact ⟨a, mem_allMessages_of_mem ha, hm⟩
  · exact ⟨x.message, message_mem_of_mem_taken (mem_taken_of_mem_lifted hx), hm⟩

theorem agrees_of_mem_taken {f : File} {x : Nested} (h : x ∈ f.taken) : f.Agrees x.name :=
  of_decide_eq_true (List.mem_filter.mp h).2

/-- A message taken out has a copy that stands at the top or is lifted. -/
theorem exists_copy_of_mem_taken {f : File} {x : Nested} (h : x ∈ f.taken) :
    x.message ∈ f.messages ∨ ∃ y ∈ f.lifted, y.message = x.message := by
  have hagrees := agrees_of_mem_taken h
  have hx := message_mem_of_mem_taken h
  -- whatever has the name of `x` is the same message, so it is enough to find one that stays
  by_cases htop : x.name ∈ f.topNames
  · obtain ⟨m, hm, hname⟩ := List.mem_map.mp htop
    have heq : m = x.message := hagrees m (mem_allMessages_of_mem hm) x.message hx hname rfl
    exact Or.inl (heq ▸ hm)
  · obtain ⟨y, hy, hname⟩ := Nested.exists_first h htop
    have hymem := message_mem_of_mem_taken (mem_taken_of_mem_lifted hy)
    exact Or.inr ⟨y, hy, hagrees y.message hymem x.message hx hname rfl⟩

theorem stripped_mem_of_mem_taken {f : File} {x : Nested} (h : x ∈ f.taken) :
    f.stripped x.message ∈ f.liftMessages.file.messages := by
  rw [mem_liftMessages_messages]
  obtain hm | ⟨y, hy, hmessage⟩ := exists_copy_of_mem_taken h
  · exact Or.inl ⟨x.message, hm, rfl⟩
  · exact Or.inr ⟨y, hy, congrArg f.stripped hmessage⟩

/-- The messages inside those of the file, stripped, are inside them afterwards or among what the
messages taken out keep. -/
theorem map_stripped_inner_perm (f : File) :
    ((f.messages.flatMap Message.inner).map f.stripped).Perm
      ((f.messages.map f.stripped).flatMap Message.inner ++
        Message.preorderAll (f.taken.map (f.stripped ·.message))) := by
  have hcarried : Message.carried (fun name => f.Agrees name) (f.nested.map (·.message)) =
      Message.preorderAll (f.taken.map (f.stripped ·.message)) := by
    unfold Message.carried
    rw [List.filter_map, List.map_map]
    rfl
  have hnested : (Message.carried (fun name => f.Agrees name)
        (f.messages.flatMap Message.inner)).Perm
      (Message.carried (fun name => f.Agrees name) (f.nested.map (·.message))) :=
    Message.carried_perm f.nested_perm.symm
  rw [← hcarried]
  apply (Message.map_strip_inner_perm f.messages).trans
  exact hnested.append_left _

/-- The messages lifted are some of those taken out, and so is what they keep inside. -/
theorem inner_lifted_sublist (f : File) :
    ((f.lifted.map (f.stripped ·.message)).flatMap Message.inner).Sublist
      ((f.taken.map (f.stripped ·.message)).flatMap Message.inner) := by
  have hlifted : f.lifted.Sublist f.taken := Nested.firsts_sublist f.topNames f.taken
  exact (hlifted.map _).flatMap Message.inner

theorem stripped_mem_liftMessages {f : File} {a : Message} (h : a ∈ f.allMessages) :
    f.stripped a ∈ f.liftMessages.file.allMessages := by
  obtain ⟨top, htop, ha⟩ := Message.mem_preorderAll.mp h
  have hstays : f.stripped top ∈ f.liftMessages.file.messages :=
    mem_liftMessages_messages.mpr (Or.inl ⟨top, htop, rfl⟩)
  rw [Message.preorder_eq, List.mem_cons] at ha
  obtain rfl | ha := ha
  · exact mem_allMessages_of_mem hstays
  · have hinner : f.stripped a ∈ (f.messages.flatMap Message.inner).map f.stripped :=
      List.mem_map_of_mem (List.mem_flatMap.mpr ⟨top, htop, ha⟩)
    rw [f.map_stripped_inner_perm.mem_iff, List.mem_append] at hinner
    obtain hkept | hcarried := hinner
    · -- it is still inside a message at the top
      obtain ⟨m, hm, hmem⟩ := List.mem_flatMap.mp hkept
      obtain ⟨b, hb, rfl⟩ := List.mem_map.mp hm
      have hstays : f.stripped b ∈ f.liftMessages.file.messages :=
        mem_liftMessages_messages.mpr (Or.inl ⟨b, hb, rfl⟩)
      exact mem_allMessages_of_mem_inner (mem_allMessages_of_mem hstays) hmem
    · -- a message taken out holds it, and a copy of that one is at the top afterwards
      obtain ⟨m, hm, hmem⟩ := Message.mem_preorderAll.mp hcarried
      obtain ⟨x, hx, rfl⟩ := List.mem_map.mp hm
      have hcopy := stripped_mem_of_mem_taken hx
      exact mem_allMessages_of_mem_preorder (mem_allMessages_of_mem hcopy) hmem

theorem exists_of_mem_liftMessages {f : File} {m : Message}
    (h : m ∈ f.liftMessages.file.allMessages) : ∃ a ∈ f.allMessages, f.stripped a = m := by
  obtain ⟨top, htop, hm⟩ := Message.mem_preorderAll.mp h
  obtain ⟨b, hb, rfl⟩ := exists_of_mem_liftMessages_messages htop
  have hmem : m ∈ (Message.preorder b).map f.stripped := by
    apply (Message.map_strip_preorder_perm b).mem_iff.mpr
    exact List.mem_append_left _ hm
  obtain ⟨a, ha, heq⟩ := List.mem_map.mp hmem
  exact ⟨a, mem_allMessages_of_mem_preorder hb ha, heq⟩

theorem mem_allEnums_liftMessages {f : File} {e : Enum} :
    e ∈ f.liftMessages.file.allEnums ↔ e ∈ f.allEnums := by
  have henums : f.liftMessages.file.enums = f.enums := by rw [f.liftMessages_file]
  rw [mem_allEnums, mem_allEnums, henums]
  apply or_congr_right
  constructor
  · rintro ⟨m, hm, he⟩
    obtain ⟨a, ha, rfl⟩ := exists_of_mem_liftMessages hm
    exact ⟨a, ha, Message.strip_enums a ▸ he⟩
  · rintro ⟨a, ha, he⟩
    exact ⟨f.stripped a, stripped_mem_liftMessages ha, (Message.strip_enums a).symm ▸ he⟩

/-- Where the walk takes a message out, the message is stripped already. -/
theorem lift_fst_eq_stripped {f : File} {m : Message} (h : m ∈ f.allMessages) (scope : String)
    (state : Lifting) : (m.lift f.groups.liftable scope state).1 = f.stripped m := by
  rw [← dotted_singleton scope, Message.lift_eq, strip_liftable h]

/-- All messages at the top with the name of one taken out are what that one has become. -/
theorem eq_stripped_of_mem_taken {f : File} {x : Nested} (h : x ∈ f.taken) {t : Message}
    (ht : t ∈ f.liftMessages.file.messages) (hname : t.name = x.name) :
    t = f.stripped x.message := by
  obtain ⟨a, ha, rfl⟩ := exists_of_mem_liftMessages_messages ht
  rw [stripped, Message.strip_name] at hname
  have heq : a = x.message :=
    agrees_of_mem_taken h a ha x.message (message_mem_of_mem_taken h) hname rfl
  rw [heq]

/-- The changes name the messages taken out, one for each and in order. -/
theorem changes_getElem? (f : File) (i : Nat) (c : Change)
    (h : f.liftMessages.changes[i]? = some c) :
    ∃ x, f.taken[i]? = some x ∧ (c = .messageLifted x.path x.name ∨
      c = .duplicateDropped x.path x.name) := by
  rw [f.liftMessages_changes, List.getElem?_map, Option.map_eq_some_iff] at h
  obtain ⟨p, hp, rfl⟩ := h
  refine ⟨p.2, ?_, ?_⟩
  · rw [← map_snd_withEarlier f.taken, List.getElem?_map, hp]
    rfl
  · unfold Nested.change
    split
    · exact Or.inl rfl
    · exact Or.inr rfl

/-- Lifting loses and invents no definition.  What a message declares itself stays somewhere, also
when the message stood inside one that was dropped; and a dropped message, as the walk left it, is
at the top under its name. -/
theorem liftMessages_keeps_definitions (f : File) :
    (∀ m, m ∈ f.liftMessages.file.allMessages ↔ ∃ a ∈ f.allMessages, f.stripped a = m) ∧
      (∀ a ∈ f.allMessages, ∃ m ∈ f.liftMessages.file.allMessages,
        m.name = a.name ∧ m.fields = a.fields ∧ m.enums = a.enums) ∧
      ∀ (i : Nat) (path name : String),
        f.liftMessages.changes[i]? = some (.duplicateDropped path name) →
        ∃ x, f.taken[i]? = some x ∧ x.path = path ∧ x.name = name ∧
          ∀ scope state, (x.message.lift f.groups.liftable scope state).1 ∈
              f.liftMessages.file.messages ∧
            ∀ t ∈ f.liftMessages.file.messages, t.name = name →
              t = (x.message.lift f.groups.liftable scope state).1 := by
  refine ⟨fun m => ⟨exists_of_mem_liftMessages, ?_⟩, fun a ha => ?_, fun i path name h => ?_⟩
  · rintro ⟨a, ha, rfl⟩
    exact stripped_mem_liftMessages ha
  · exact ⟨f.stripped a, stripped_mem_liftMessages ha, Message.strip_name a,
      Message.strip_fields a, Message.strip_enums a⟩
  · -- the change stands where the message stands among those taken out
    obtain ⟨x, hx, hchange⟩ := f.changes_getElem? i _ h
    obtain ⟨rfl, rfl⟩ : path = x.path ∧ name = x.name := by simpa using hchange
    have htaken : x ∈ f.taken := List.mem_of_getElem? hx
    refine ⟨x, hx, rfl, rfl, fun scope state => ?_⟩
    rw [lift_fst_eq_stripped (message_mem_of_mem_taken htaken)]
    exact ⟨stripped_mem_of_mem_taken htaken, fun t => eq_stripped_of_mem_taken htaken⟩

/-- Two copies of `B` with a `K` inside, and another `K` at the top. -/
def twoCopies : File :=
  { messages :=
      [ { name := "A", messages := [{ name := "B", messages := [{ name := "K" }] }] },
        { name := "C", messages := [{ name := "B", messages := [{ name := "K" }] }] },
        { name := "K", enums := [{ name := "E" }] } ] }

/-- The second `B` is dropped with its `K`, and both are at the top in the first one. -/
theorem twoCopies_keeps_definitions :
    twoCopies.liftMessages.changes[1]? = some (.duplicateDropped "C.B" "B") ∧
      ∃ t ∈ twoCopies.liftMessages.file.messages,
        t.name = "B" ∧ t.messages = [{ name := "K" }] := by
  have hchange : twoCopies.liftMessages.changes[1]? = some (.duplicateDropped "C.B" "B") := by
    decide +kernel
  obtain ⟨x, hx, -, -, h⟩ := (liftMessages_keeps_definitions twoCopies).2.2 1 "C.B" "B" hchange
  obtain rfl : x = ⟨["C"], { name := "B", messages := [{ name := "K" }] }⟩ := by
    have : twoCopies.taken[1]? = some ⟨["C"], { name := "B", messages := [{ name := "K" }] }⟩ := by
      decide +kernel
    exact Option.some.inj (hx.symm.trans this)
  exact ⟨hchange, _, (h "C" { placed := [] }).1, by decide +kernel, by decide +kernel⟩

end File

end SchemaNormal
