import Mathlib.Algebra.BigOperators.Group.List.Lemmas
import Mathlib.Algebra.Ring.Nat
import SchemaNormal.Proofs.Schema.Grouping
import SchemaNormal.Proofs.Schema.Positions

/-!
# Which names are liftable

A file is grouped along the list of all its messages, and every two messages of a group are compared.
Seen from outside, a group is the part of the list with its name, comparing every two says that all
equal the first, and a name is liftable when it has one definition at all places where it occurs.
-/

namespace SchemaNormal

/-! ## Groups divide the list -/

namespace Groups.Holds

variable {groups : Groups} {ms : List Message}

/-- There is one group for each name that occurs, and it is the part of the list with that name. -/
theorem mem_iff (h : groups.Holds ms) (name : String) (group : List Message) :
    (name, group) ∈ groups ↔
      (∃ m ∈ ms, m.name = name) ∧ group = ms.filter (·.name = name) := by
  rw [mem_iff_find h.nodup, h.mem_names, h.find_eq, eq_comm (b := group)]

/-- Each message of the list is counted in the group of its name and in no other one. -/
theorem sum_length (h : groups.Holds ms) : (groups.map (·.2.length)).sum = ms.length := by
  let names := ms.map (·.name)
  have hsize : ∀ entry ∈ groups, entry.2.length = names.count entry.1 := by
    rintro ⟨name, group⟩ hentry
    obtain ⟨-, rfl⟩ := (h.mem_iff name group).mp hentry
    show (ms.filter _).length = (ms.map _).count name
    rw [List.count, List.countP_map, List.countP_eq_length_filter]
    rfl
  have hnames : groups.names.Perm names.dedup := by
    apply (List.perm_ext_iff_of_nodup h.nodup names.nodup_dedup).mpr
    intro name
    rw [h.mem_names, List.mem_dedup, List.mem_map]
  calc
    (groups.map (·.2.length)).sum = (groups.names.map (names.count ·)).sum := by
      rw [Groups.names, List.map_map]
      exact congrArg List.sum (List.map_congr_left hsize)
    _ = (names.dedup.map (names.count ·)).sum := (hnames.map _).sum_eq
    _ = names.length := names.sum_map_count_dedup_eq_length
    _ = ms.length := List.length_map _

end Groups.Holds

/-! ## Comparing every two -/

theorem allSame_iff_pairwise (ms : List Message) :
    allSame ms = true ↔ ms.Pairwise fun a b => a.same b = true := by
  induction ms with
  | nil => exact iff_of_true rfl List.Pairwise.nil
  | cons m ms ih => rw [allSame, Bool.and_eq_true, List.all_eq_true, ih, List.pairwise_cons]

/-- Every two are the same when each one is the same as the first. -/
theorem allSame_iff_head? (ms : List Message) :
    allSame ms = true ↔ ∀ m ∈ ms, ms.head? = some m := by
  rw [allSame_iff]
  cases ms with
  | nil => exact iff_of_true (List.forall_mem_nil _) (List.forall_mem_nil _)
  | cons first ms =>
    rw [List.head?_cons]
    constructor
    · intro h m hm
      rw [h first List.mem_cons_self m hm]
    · intro h a ha b hb
      exact Option.some.inj ((h a ha).symm.trans (h b hb))

/-- The messages from a position on; none can be given from past the end. -/
def from? (start : Nat) (ms : List Message) : Option (List Message) :=
  if start ≤ ms.length then some (ms.drop start) else none

/-- Compares the message at each position with those after it, position by position, until two
differ.  There is no answer if the messages after a position begin past the end. -/
def allSameByPosition? (ms : List Message) : Option Bool :=
  ms.zipIdx.allM fun x => (from? (x.2 + 1) ms).map fun later => later.all x.1.same

theorem from?_length_add_one (front rest : List Message) (m : Message) :
    from? (front.length + 1) (front ++ m :: rest) = some rest := by
  have hlength : front.length + 1 ≤ (front ++ m :: rest).length := by
    rw [List.length_append, List.length_cons]
    omega
  have hdrop : (front ++ m :: rest).drop (front.length + 1) = rest := by
    rw [List.append_cons]
    exact List.drop_left' (by rw [List.length_append, List.length_singleton])
  rw [from?, if_pos hlength, hdrop]

/-- Started at any position, the comparison by position decides the rest of the list. -/
theorem allM_zipIdx_eq (front rest : List Message) :
    (rest.zipIdx front.length).allM (fun x =>
        (from? (x.2 + 1) (front ++ rest)).map fun later => later.all x.1.same) =
      some (allSame rest) := by
  induction rest generalizing front with
  | nil => rfl
  | cons m rest ih =>
    -- one position further on, `m` is part of what lies in front
    have hrest := ih (front ++ [m])
    rw [List.append_assoc, List.singleton_append, List.length_append, List.length_singleton]
      at hrest
    rw [List.zipIdx_cons, List.allM, from?_length_add_one, allSame, hrest]
    cases hsame : rest.all fun other => m.same other with
    | true => simp [hsame]
    | false => simp [hsame]

/-- No part that is asked for begins past the end, so the comparison by position has an answer, and
it is that of the comparison by recursion. -/
theorem allSameByPosition?_eq (ms : List Message) : allSameByPosition? ms = some (allSame ms) :=
  allM_zipIdx_eq [] ms

/-! ## Groups and liftable names of a file -/

namespace File

/-- All messages of a name agree when those at any two places do. -/
theorem agrees_iff_messageAt? (f : File) (name : String) :
    f.Agrees name ↔ ∀ place m, f.messageAt? place = some m →
      ∀ place' m', f.messageAt? place' = some m' → m.name = name → m'.name = name → m = m' := by
  unfold Agrees
  simp only [forall_mem_allMessages_iff]

/-- The list of all messages has each place of the file once, in lexical order.  Grouping divides
this list by names and loses nothing.  Comparing by position asks for no messages past the end, and
says whether all of a list equal the first.  So the liftable names are those that occur and have one
definition at all their places. -/
theorem groups_and_liftable (f : File) :
    (f.placedMessages.map (·.2) = f.allMessages ∧
      (f.placedMessages.map (·.1)).Pairwise (List.Lex (· < ·)) ∧
      ∀ place m, (place, m) ∈ f.placedMessages ↔ f.messageAt? place = some m) ∧
    (f.groups.names.Nodup ∧
      (∀ name group, (name, group) ∈ f.groups ↔
        (∃ m ∈ f.allMessages, m.name = name) ∧ group = f.allMessages.filter (·.name = name)) ∧
      (f.groups.map (·.2.length)).sum = f.allMessages.length) ∧
    (allSame [] = true ∧ (∀ m, allSame [m] = true) ∧
      ∀ ms, allSameByPosition? ms = some (allSame ms) ∧
        (allSame ms = true ↔ ms.Pairwise fun a b => a.same b = true) ∧
        (allSame ms = true ↔ ∀ m ∈ ms, ms.head? = some m)) ∧
    f.groups.liftable.Nodup ∧
    ∀ name, name ∈ f.groups.liftable ↔
      (∃ place m, f.messageAt? place = some m ∧ m.name = name) ∧
        ∀ place m, f.messageAt? place = some m →
          ∀ place' m', f.messageAt? place' = some m' → m.name = name → m'.name = name → m = m' := by
  refine ⟨⟨f.map_snd_placedMessages, f.pairwise_placedMessages, f.mem_placedMessages_iff⟩,
    ⟨f.groups_holds.nodup, f.groups_holds.mem_iff, f.groups_holds.sum_length⟩,
    ⟨rfl, fun _ => rfl, fun ms => ?_⟩, f.nodup_liftable, fun name => ?_⟩
  · exact ⟨allSameByPosition?_eq ms, allSame_iff_pairwise ms, allSame_iff_head? ms⟩
  · rw [f.mem_liftable_iff, exists_mem_allMessages_iff, agrees_iff_messageAt?]

/-- Both messages named `B` agree, so the name is liftable; the two named `E` have another field. -/
theorem oneConflict_groups_and_liftable :
    let b : Message := { name := "B", fields := [⟨none, "string", "x", 1⟩] }
    let e : Message := { name := "E", fields := [⟨none, "string", "x", 1⟩] }
    let e' : Message := { name := "E", fields := [⟨none, "string", "y", 1⟩] }
    let f : File :=
      { messages :=
          [{ name := "A", messages := [b, e] }, b, { name := "C", messages := [e'] }] }
    (f.groups.map (·.2.length)).sum = 6 ∧ ("E", [e, e']) ∈ f.groups ∧
      ("B" ∈ f.groups.liftable ∧
        ∀ place m, f.messageAt? place = some m → m.name = "B" → m = b) ∧
      f.messageAt? [0, 1] = some e ∧ f.messageAt? [2, 0] = some e' ∧ "E" ∉ f.groups.liftable := by
  intro b e e' f
  obtain ⟨-, ⟨-, hgroup, hsum⟩, -, -, hliftable⟩ := f.groups_and_liftable
  have hb : f.messageAt? [1] = some b := by decide +kernel
  have he : f.messageAt? [0, 1] = some e := by decide +kernel
  have he' : f.messageAt? [2, 0] = some e' := by decide +kernel
  have hmem : "B" ∈ f.groups.liftable := by decide +kernel
  refine ⟨?_, (hgroup "E" [e, e']).mpr (by decide +kernel), ⟨hmem, ?_⟩, he, he', ?_⟩
  · rw [hsum]
    decide +kernel
  · intro place m hm hname
    exact ((hliftable "B").mp hmem).2 place m hm [1] b hb hname rfl
  · intro hmem
    have hequal : e = e' := ((hliftable "E").mp hmem).2 [0, 1] e he [2, 0] e' he' rfl rfl
    exact absurd hequal (by decide +kernel)

end File

end SchemaNormal
