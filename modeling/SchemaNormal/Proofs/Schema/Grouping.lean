import Mathlib.Data.List.Nodup
import SchemaNormal.Proofs.Schema.Members
import SchemaNormal.Schema.Grouping

/-!
# Groups and agreement

Grouping the messages of a file by name keeps each of them once, under its name and in order.  So
a name is liftable exactly when it occurs in the file and all its messages agree.
-/

namespace SchemaNormal

/-! ## One message more -/

namespace Groups

def names (groups : Groups) : List String :=
  groups.map (·.1)

theorem find_cons (name : String) (group : List Message) (groups : Groups) (n : String) :
    Groups.find ((name, group) :: groups) n = if n = name then group else groups.find n := by
  by_cases h : n = name
  · subst h
    simp only [find, List.lookup_cons_self, Option.getD_some, if_true]
  · simp only [find, List.lookup_cons, beq_false_of_ne h, if_neg h]

theorem find_add (m : Message) (groups : Groups) (name : String) :
    (groups.add m).find name =
      if name = m.name then groups.find name ++ [m] else groups.find name := by
  induction groups with
  | nil => rw [add, find_cons]; rfl
  | cons entry groups ih =>
    obtain ⟨n, group⟩ := entry
    by_cases hn : n = m.name
    · rw [add, if_pos hn, find_cons, find_cons, hn]
      split <;> rfl
    · rw [add, if_neg hn, find_cons, find_cons, ih]
      by_cases hname : name = n
      · have hother : name ≠ m.name := hname ▸ hn
        rw [if_pos hname, if_pos hname, if_neg hother]
      · rw [if_neg hname, if_neg hname]

theorem names_add (m : Message) (groups : Groups) :
    (groups.add m).names =
      if m.name ∈ groups.names then groups.names else groups.names ++ [m.name] := by
  induction groups with
  | nil => rfl
  | cons entry groups ih =>
    obtain ⟨n, group⟩ := entry
    by_cases hn : n = m.name
    · have hmem : m.name ∈ names ((n, group) :: groups) := by
        show m.name ∈ n :: names groups
        rw [hn]
        exact List.mem_cons_self
      rw [add, if_pos hn, if_pos hmem]
      rfl
    · have hmem : m.name ∈ names ((n, group) :: groups) ↔ m.name ∈ names groups := by
        show m.name ∈ n :: names groups ↔ _
        rw [List.mem_cons, or_iff_right (Ne.symm hn)]
      rw [add, if_neg hn]
      show n :: names (add m groups) = _
      simp only [ih, hmem]
      split <;> rfl

/-- With one group a name, a group is found under its name. -/
theorem mem_iff_find {groups : Groups} (h : groups.names.Nodup) {name : String}
    {group : List Message} :
    (name, group) ∈ groups ↔ name ∈ groups.names ∧ groups.find name = group := by
  induction groups with
  | nil => simp [names]
  | cons entry groups ih =>
    obtain ⟨n, g⟩ := entry
    obtain ⟨hn, hnodup⟩ := List.nodup_cons.mp h
    have hn : n ∉ names groups := hn
    rw [List.mem_cons, ih hnodup, find_cons, Prod.mk.injEq]
    show _ ↔ name ∈ n :: names groups ∧ _
    rw [List.mem_cons]
    by_cases hname : name = n
    · -- the name has no second group further down
      subst hname
      rw [if_pos rfl]
      constructor
      · rintro (⟨-, rfl⟩ | ⟨hmem, -⟩)
        · exact ⟨Or.inl rfl, rfl⟩
        · exact absurd hmem hn
      · rintro ⟨-, rfl⟩
        exact Or.inl ⟨rfl, rfl⟩
    · rw [if_neg hname]
      simp only [hname, false_and, false_or]

/-! ## A list of messages, grouped -/

/-- The groups hold the messages of a list: each name once, and under it its messages in order. -/
structure Holds (groups : Groups) (ms : List Message) : Prop where
  nodup : groups.names.Nodup
  mem_names : ∀ name, name ∈ groups.names ↔ ∃ m ∈ ms, m.name = name
  find_eq : ∀ name, groups.find name = ms.filter (·.name = name)

theorem Holds.nil : Holds [] [] :=
  ⟨List.nodup_nil, by simp [names], fun _ => rfl⟩

theorem Holds.add {groups : Groups} {ms : List Message} (h : Holds groups ms) (m : Message) :
    Holds (groups.add m) (ms ++ [m]) := by
  refine ⟨?_, fun name => ?_, fun name => ?_⟩
  · rw [names_add]
    split
    · exact h.nodup
    · rename_i hm
      rw [← List.concat_eq_append]
      exact List.Nodup.concat hm h.nodup
  · have hmem : (∃ a ∈ ms ++ [m], a.name = name) ↔ name ∈ groups.names ∨ m.name = name := by
      rw [h.mem_names name]
      simp only [List.mem_append, List.mem_singleton, or_and_right, exists_or, exists_eq_left]
    rw [hmem, names_add]
    split
    · rename_i hm
      exact ⟨Or.inl, fun hor => hor.elim id fun heq => heq ▸ hm⟩
    · rw [List.mem_append, List.mem_singleton, eq_comm (a := name)]
  · rw [find_add, h.find_eq name, List.filter_append]
    by_cases hname : name = m.name
    · have hlast : [m].filter (·.name = name) = [m] := by simp [hname]
      rw [if_pos hname, hlast]
    · have hlast : [m].filter (·.name = name) = [] := by simpa using Ne.symm hname
      rw [if_neg hname, hlast, List.append_nil]

end Groups

mutual

theorem Groups.Holds.collect {groups : Groups} {ms : List Message} (h : groups.Holds ms) :
    ∀ m : Message, (m.collect groups).Holds (ms ++ m.preorder)
  | ⟨name, fields, messages, enums⟩ => by
    have hadd := h.add ⟨name, fields, messages, enums⟩
    rw [Message.collect, Message.preorder, ← List.singleton_append, ← List.append_assoc]
    exact hadd.collectAll messages

theorem Groups.Holds.collectAll {groups : Groups} {ms : List Message} (h : groups.Holds ms) :
    ∀ ms' : List Message, (Message.collectAll ms' groups).Holds (ms ++ Message.preorderAll ms')
  | [] => by
    rw [Message.collectAll, Message.preorderAll, List.append_nil]
    exact h
  | m :: ms' => by
    have hm := h.collect m
    rw [Message.collectAll, Message.preorderAll, ← List.append_assoc]
    exact hm.collectAll ms'

end

theorem File.groups_holds (f : File) : f.groups.Holds f.allMessages :=
  Groups.Holds.nil.collectAll f.messages

theorem File.nodup_liftable (f : File) : f.groups.liftable.Nodup :=
  (List.Sublist.map Prod.fst List.filter_sublist).nodup f.groups_holds.nodup

/-! ## Agreement -/

theorem allSame_iff (ms : List Message) : allSame ms = true ↔ ∀ a ∈ ms, ∀ b ∈ ms, a = b := by
  induction ms with
  | nil => simp [allSame]
  | cons m ms ih =>
    rw [allSame, Bool.and_eq_true, List.all_eq_true, ih]
    simp only [Message.same_iff, List.forall_mem_cons]
    constructor
    · rintro ⟨hm, hms⟩
      exact ⟨⟨trivial, hm⟩, fun a ha => ⟨(hm a ha).symm, hms a ha⟩⟩
    · rintro ⟨⟨-, hm⟩, hms⟩
      exact ⟨hm, fun a ha => (hms a ha).2⟩

namespace File

/-- All messages of the name, at every depth, are the same definition. -/
def Agrees (f : File) (name : String) : Prop :=
  ∀ a ∈ f.allMessages, ∀ b ∈ f.allMessages, a.name = name → b.name = name → a = b

instance (f : File) : DecidablePred f.Agrees := fun _ =>
  inferInstanceAs (Decidable (∀ a ∈ f.allMessages, ∀ b ∈ f.allMessages, _ → _ → a = b))

/-- Agreement is a matter of the messages that occur. -/
theorem agrees_congr {f g : File} (h : ∀ m, m ∈ g.allMessages ↔ m ∈ f.allMessages)
    (name : String) : g.Agrees name ↔ f.Agrees name := by
  unfold Agrees
  simp only [h]

theorem mem_liftable_iff (f : File) (name : String) :
    name ∈ f.groups.liftable ↔ (∃ m ∈ f.allMessages, m.name = name) ∧ f.Agrees name := by
  have hgroups := f.groups_holds
  -- the group of a name is the list of all its messages
  have hsame : allSame (f.groups.find name) = true ↔ f.Agrees name := by
    rw [allSame_iff, hgroups.find_eq name]
    simp only [List.mem_filter, decide_eq_true_eq, Agrees]
    constructor
    · exact fun h a ha b hb han hbn => h a ⟨ha, han⟩ b ⟨hb, hbn⟩
    · exact fun h a ha b hb => h a ha.1 b hb.1 ha.2 hb.2
  rw [← hsame, ← hgroups.mem_names name, Groups.liftable, List.mem_map]
  constructor
  · rintro ⟨⟨n, group⟩, hmem, rfl⟩
    obtain ⟨hentry, hall⟩ := List.mem_filter.mp hmem
    obtain ⟨hname, hfind⟩ := (Groups.mem_iff_find hgroups.nodup).mp hentry
    exact ⟨hname, hfind ▸ hall⟩
  · rintro ⟨hname, hall⟩
    have hentry : (name, f.groups.find name) ∈ f.groups :=
      (Groups.mem_iff_find hgroups.nodup).mpr ⟨hname, rfl⟩
    exact ⟨(name, f.groups.find name), List.mem_filter.mpr ⟨hentry, hall⟩, rfl⟩

end File

end SchemaNormal
