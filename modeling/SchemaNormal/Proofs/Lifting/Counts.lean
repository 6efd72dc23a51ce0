import SchemaNormal.Proofs.Lifting.Survival

/-!
# How often each name is left

A name whose messages agree is left at the top only.  Of any other name the messages at the top
stay, and of the nested ones some, if there were any.
-/

namespace SchemaNormal

namespace File

/-- The names of the nested messages, one for each. -/
def nestedNames (f : File) : List String :=
  f.nested.map Nested.name

/-- A name is nested as often as it is the name of a message inside those at the top. -/
theorem count_nestedNames (f : File) (name : String) :
    f.nestedNames.count name = (f.messages.flatMap Message.inner).countP (·.name = name) := by
  rw [← f.nested_perm.countP_eq, List.countP_map, nestedNames, List.count, List.countP_map]
  rfl

theorem topNames_liftMessages (f : File) :
    f.liftMessages.file.topNames = f.topNames ++ f.lifted.map Nested.name := by
  rw [topNames, f.liftMessages_messages, List.map_append, List.map_map, List.map_map]
  congr 1
  · exact List.map_congr_left fun m _ => Message.strip_name m
  · exact List.map_congr_left fun x _ => Message.strip_name x.message

/-! ## A name whose messages agree -/

theorem name_mem_of_mem {f : File} {m : Message} (h : m ∈ f.allMessages) :
    m.name ∈ f.topNames ∨ ∃ x ∈ f.nested, x.name = m.name := by
  obtain htop | ⟨x, hx, rfl⟩ := mem_allMessages.mp h
  · exact Or.inl (List.mem_map_of_mem htop)
  · exact Or.inr ⟨x, hx, rfl⟩

theorem count_nestedNames_of_agrees {f : File} {name : String} (h : f.Agrees name) :
    f.liftMessages.file.nestedNames.count name = 0 := by
  rw [count_nestedNames, List.countP_eq_zero]
  intro a ha hname
  obtain ⟨t, ht, hinner⟩ := List.mem_flatMap.mp ha
  obtain ⟨b, -, rfl⟩ := exists_of_mem_liftMessages_messages ht
  have hgone := Message.not_gone_of_mem_inner_strip b a hinner
  have hagrees : f.Agrees a.name := by
    rw [of_decide_eq_true hname]
    exact h
  exact of_decide_eq_false hgone hagrees

theorem count_topNames_of_agrees {f : File} {m : Message} (hm : m ∈ f.allMessages)
    (h : f.Agrees m.name) :
    f.liftMessages.file.topNames.count m.name = max 1 (f.topNames.count m.name) := by
  rw [topNames_liftMessages, List.count_append]
  by_cases htop : m.name ∈ f.topNames
  · -- nothing is appended under a name that stands at the top
    have hpos := List.count_pos_iff.mpr htop
    have hnone : (f.lifted.map Nested.name).count m.name = 0 := by
      rw [List.count_eq_zero]
      intro hmem
      obtain ⟨x, hx, hname⟩ := List.mem_map.mp hmem
      exact Nested.name_notMem_of_mem_firsts hx (hname ▸ htop)
    omega
  · -- the name has a nested message, and the first of these is appended
    obtain ⟨x, hx, hname⟩ := (name_mem_of_mem hm).resolve_left htop
    have htaken : x ∈ f.taken := List.mem_filter.mpr ⟨hx, decide_eq_true (hname ▸ h)⟩
    obtain ⟨y, hy, hyname⟩ := Nested.exists_first htaken (hname ▸ htop)
    have hone : (f.lifted.map Nested.name).count m.name = 1 :=
      List.count_eq_one_of_mem (Nested.nodup_names_firsts f.topNames f.taken)
        (List.mem_map.mpr ⟨y, hy, hyname.trans hname⟩)
    have hzero := List.count_eq_zero.mpr htop
    omega

/-! ## A name whose messages differ -/

theorem count_topNames_of_not_agrees {f : File} {name : String} (h : ¬ f.Agrees name) :
    f.liftMessages.file.topNames.count name = f.topNames.count name := by
  have hnone : (f.lifted.map Nested.name).count name = 0 := by
    rw [List.count_eq_zero]
    intro hmem
    obtain ⟨x, hx, rfl⟩ := List.mem_map.mp hmem
    exact h (agrees_of_mem_taken (mem_taken_of_mem_lifted hx))
  rw [topNames_liftMessages, List.count_append, hnone, Nat.add_zero]

/-- The messages of such a name among what stripped messages keep are inside them. -/
theorem countP_preorderAll_taken {f : File} {name : String} (h : ¬ f.Agrees name)
    {xs : List Nested} (hxs : ∀ x ∈ xs, x ∈ f.taken) :
    (Message.preorderAll (xs.map (f.stripped ·.message))).countP (·.name = name) =
      ((xs.map (f.stripped ·.message)).flatMap Message.inner).countP (·.name = name) := by
  induction xs with
  | nil => rfl
  | cons x xs ih =>
    obtain ⟨hx, hxs⟩ := List.forall_mem_cons.mp hxs
    -- the message taken out itself does not count, since its own name agrees
    have hother : ¬ (f.stripped x.message).name = name := by
      rw [stripped, Message.strip_name]
      intro heq
      exact h (heq ▸ agrees_of_mem_taken hx)
    rw [List.map_cons, Message.preorderAll, Message.preorder_eq, List.flatMap_cons,
      List.countP_append, List.countP_append,
      List.countP_cons_of_neg (by rwa [decide_eq_true_iff]), ih hxs]

theorem count_nestedNames_of_not_agrees {f : File} {name : String} (h : ¬ f.Agrees name) :
    f.nestedNames.count name =
      ((f.messages.map f.stripped).flatMap Message.inner).countP (·.name = name) +
        ((f.taken.map (f.stripped ·.message)).flatMap Message.inner).countP (·.name = name) := by
  -- stripping keeps names, so the stripped messages can be counted instead
  have hsame : (f.messages.flatMap Message.inner).countP (·.name = name) =
      ((f.messages.flatMap Message.inner).map f.stripped).countP (·.name = name) := by
    rw [List.countP_map]
    apply List.countP_congr
    intro m _
    simp only [Function.comp_apply, stripped, Message.strip_name]
  rw [count_nestedNames, hsame, f.map_stripped_inner_perm.countP_eq, List.countP_append,
    countP_preorderAll_taken h fun _ hx => hx]

theorem count_nestedNames_liftMessages (f : File) (name : String) :
    f.liftMessages.file.nestedNames.count name =
      ((f.messages.map f.stripped).flatMap Message.inner).countP (·.name = name) +
        ((f.lifted.map (f.stripped ·.message)).flatMap Message.inner).countP (·.name = name) := by
  rw [count_nestedNames, f.liftMessages_messages, List.flatMap_append, List.countP_append]

theorem count_nestedNames_le {f : File} {name : String} (h : ¬ f.Agrees name) :
    f.liftMessages.file.nestedNames.count name ≤ f.nestedNames.count name := by
  rw [count_nestedNames_of_not_agrees h, count_nestedNames_liftMessages]
  exact Nat.add_le_add_left f.inner_lifted_sublist.countP_le _

/-- What is inside a message taken out is inside the copy that stays. -/
theorem mem_inner_liftMessages_of_mem_taken {f : File} {a : Message}
    (h : a ∈ (f.taken.map (f.stripped ·.message)).flatMap Message.inner) :
    a ∈ f.liftMessages.file.messages.flatMap Message.inner := by
  obtain ⟨m, hm, ha⟩ := List.mem_flatMap.mp h
  obtain ⟨x, hx, rfl⟩ := List.mem_map.mp hm
  exact List.mem_flatMap.mpr ⟨f.stripped x.message, stripped_mem_of_mem_taken hx, ha⟩

theorem count_nestedNames_pos {f : File} {name : String} (h : ¬ f.Agrees name)
    (hpos : 0 < f.nestedNames.count name) : 0 < f.liftMessages.file.nestedNames.count name := by
  rw [count_nestedNames_of_not_agrees h] at hpos
  by_cases hstay : 0 < ((f.messages.map f.stripped).flatMap Message.inner).countP (·.name = name)
  · rw [count_nestedNames_liftMessages]
    omega
  · -- all of them were inside messages taken out, and the copies of those hold them still
    have htaken : 0 <
        ((f.taken.map (f.stripped ·.message)).flatMap Message.inner).countP (·.name = name) := by
      omega
    obtain ⟨a, ha, hname⟩ := List.countP_pos_iff.mp htaken
    rw [count_nestedNames]
    exact List.countP_pos_iff.mpr ⟨a, mem_inner_liftMessages_of_mem_taken ha, hname⟩

/-! ## Every name at once -/

/-- What lifting leaves of each name that occurs in the file.  The messages put at its end have
names of their own. -/
theorem liftMessages_counts (f : File) :
    (∀ m ∈ f.allMessages,
      (f.Agrees m.name → f.liftMessages.file.nestedNames.count m.name = 0 ∧
        f.liftMessages.file.topNames.count m.name = max 1 (f.topNames.count m.name)) ∧
      (¬ f.Agrees m.name →
        f.liftMessages.file.topNames.count m.name = f.topNames.count m.name ∧
        f.liftMessages.file.nestedNames.count m.name ≤ f.nestedNames.count m.name ∧
        (0 < f.liftMessages.file.nestedNames.count m.name ↔ 0 < f.nestedNames.count m.name))) ∧
    ∃ kept appended : List Message, f.liftMessages.file.messages = kept ++ appended ∧
      kept.map (·.name) = f.topNames ∧ (appended.map (·.name)).Nodup ∧
      ∀ m ∈ appended, m.name ∉ f.topNames := by
  refine ⟨fun m hm => ⟨fun h => ?_, fun h => ?_⟩, ?_⟩
  · exact ⟨count_nestedNames_of_agrees h, count_topNames_of_agrees hm h⟩
  · have hle := count_nestedNames_le h
    exact ⟨count_topNames_of_not_agrees h, hle, fun hpos => by omega, count_nestedNames_pos h⟩
  · have hnames : (f.lifted.map (f.stripped ·.message)).map (·.name) =
        f.lifted.map Nested.name := by
      rw [List.map_map]
      exact List.map_congr_left fun x _ => Message.strip_name x.message
    refine ⟨_, _, f.liftMessages_messages, ?_, ?_, ?_⟩
    · rw [List.map_map]
      exact List.map_congr_left fun m _ => Message.strip_name m
    · rw [hnames]
      exact Nested.nodup_names_firsts f.topNames f.taken
    · intro m hm
      obtain ⟨x, hx, rfl⟩ := List.mem_map.mp hm
      rw [stripped, Message.strip_name]
      exact Nested.name_notMem_of_mem_firsts hx

/-- Of two copies of a `K` in two copies of `B`, one is left, and the `K` at the top with it. -/
theorem twoCopies_counts :
    { name := "K" } ∈ twoCopies.allMessages ∧ ¬ twoCopies.Agrees "K" ∧
      twoCopies.liftMessages.file.topNames.count "K" = 1 ∧
      0 < twoCopies.liftMessages.file.nestedNames.count "K" ∧
      { name := "B", messages := [{ name := "K" }] } ∈ twoCopies.allMessages ∧
      twoCopies.Agrees "B" ∧ twoCopies.liftMessages.file.nestedNames.count "B" = 0 ∧
      twoCopies.liftMessages.file.topNames.count "B" = 1 := by
  have hk : { name := "K" } ∈ twoCopies.allMessages := by decide +kernel
  have hdiffer : ¬ twoCopies.Agrees "K" := by decide +kernel
  have hb : { name := "B", messages := [{ name := "K" }] } ∈ twoCopies.allMessages := by
    decide +kernel
  have hagree : twoCopies.Agrees "B" := by decide +kernel
  obtain ⟨htop, -, hpos⟩ := ((liftMessages_counts twoCopies).1 _ hk).2 hdiffer
  obtain ⟨hnone, hone⟩ := ((liftMessages_counts twoCopies).1 _ hb).1 hagree
  refine ⟨hk, hdiffer, htop.trans (by decide +kernel), hpos.mpr (by decide +kernel), hb, hagree,
    hnone, hone.trans (by decide +kernel)⟩

end File

end SchemaNormal
