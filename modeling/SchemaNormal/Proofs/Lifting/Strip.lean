import SchemaNormal.Proofs.Schema.Members

/-!
# Stripped messages

A message is stripped of some names when the messages of these names inside it are taken out at
every level, each with everything inside it.  Stripping divides a message: what stays, and what
the messages taken out keep when they are stripped in turn, is all there was, stripped.
-/

namespace SchemaNormal

namespace Message

mutual

/-- The message without the messages inside it whose names are `gone`. -/
def strip (gone : String → Bool) : Message → Message
  | ⟨name, fields, messages, enums⟩ => ⟨name, fields, stripAll gone messages, enums⟩

def stripAll (gone : String → Bool) : List Message → List Message
  | [] => []
  | m :: ms => if gone m.name then stripAll gone ms else strip gone m :: stripAll gone ms

end

variable {gone : String → Bool}

@[simp] theorem strip_name (m : Message) : (strip gone m).name = m.name := by
  cases m
  rfl

@[simp] theorem strip_fields (m : Message) : (strip gone m).fields = m.fields := by
  cases m
  rfl

@[simp] theorem strip_enums (m : Message) : (strip gone m).enums = m.enums := by
  cases m
  rfl

theorem strip_messages (m : Message) : (strip gone m).messages = stripAll gone m.messages := by
  cases m
  rfl

/-- What stays stands stripped in its place. -/
theorem mem_of_mem_stripAll {ms : List Message} {m : Message} (h : m ∈ stripAll gone ms) :
    ∃ a ∈ ms, strip gone a = m := by
  induction ms with
  | nil => cases h
  | cons a ms ih =>
    rw [stripAll] at h
    split at h
    · obtain ⟨b, hb, hstrip⟩ := ih h
      exact ⟨b, List.mem_cons_of_mem a hb, hstrip⟩
    · obtain rfl | h := List.mem_cons.mp h
      · exact ⟨a, List.mem_cons_self, rfl⟩
      · obtain ⟨b, hb, hstrip⟩ := ih h
        exact ⟨b, List.mem_cons_of_mem a hb, hstrip⟩

theorem inner_strip (m : Message) :
    (strip gone m).inner = preorderAll (stripAll gone m.messages) := by
  rw [inner, strip_messages]

mutual

/-- Only the names that occur inside a message matter. -/
theorem strip_congr {gone gone' : String → Bool} :
    ∀ m : Message, (∀ a ∈ m.inner, gone a.name = gone' a.name) → strip gone m = strip gone' m
  | ⟨_, _, messages, _⟩, h => by
    unfold strip
    rw [stripAll_congr messages h]

theorem stripAll_congr {gone gone' : String → Bool} :
    ∀ ms : List Message, (∀ a ∈ preorderAll ms, gone a.name = gone' a.name) →
      stripAll gone ms = stripAll gone' ms
  | [], _ => rfl
  | m :: ms, h => by
    simp only [preorderAll, preorder_eq, List.cons_append, List.forall_mem_cons,
      List.forall_mem_append] at h
    obtain ⟨hm, hinner, hms⟩ := h
    unfold stripAll
    rw [hm, strip_congr m hinner, stripAll_congr ms hms]

end

mutual

/-- A message with none of the names inside it stays as it is. -/
theorem strip_of_not_gone :
    ∀ m : Message, (∀ a ∈ m.inner, gone a.name = false) → strip gone m = m
  | ⟨_, _, messages, _⟩, h => by
    unfold strip
    rw [stripAll_of_not_gone messages h]

theorem stripAll_of_not_gone :
    ∀ ms : List Message, (∀ a ∈ preorderAll ms, gone a.name = false) → stripAll gone ms = ms
  | [], _ => rfl
  | m :: ms, h => by
    simp only [preorderAll, preorder_eq, List.cons_append, List.forall_mem_cons,
      List.forall_mem_append] at h
    obtain ⟨hm, hinner, hms⟩ := h
    unfold stripAll
    rw [hm, strip_of_not_gone m hinner, stripAll_of_not_gone ms hms]
    rfl

end

mutual

/-- No name that is gone is left inside a stripped message. -/
theorem not_gone_of_mem_inner_strip :
    ∀ m : Message, ∀ a ∈ (strip gone m).inner, gone a.name = false
  | ⟨_, _, messages, _⟩ => not_gone_of_mem_stripAll messages

theorem not_gone_of_mem_stripAll :
    ∀ ms : List Message, ∀ a ∈ preorderAll (stripAll gone ms), gone a.name = false
  | [] => by simp [stripAll, preorderAll]
  | m :: ms => by
    by_cases hm : gone m.name = true
    · rw [stripAll, if_pos hm]
      exact not_gone_of_mem_stripAll ms
    · have hname : gone m.name = false := by simpa using hm
      rw [stripAll, if_neg hm, preorderAll, preorder_eq, List.cons_append]
      simp only [List.forall_mem_cons, List.forall_mem_append, strip_name]
      exact ⟨hname, not_gone_of_mem_inner_strip m, not_gone_of_mem_stripAll ms⟩

end

/-! ## Stripping divides a message -/

/-- What the messages taken out among the given ones keep when they are stripped: themselves and
everything still inside them. -/
def carried (gone : String → Bool) (ms : List Message) : List Message :=
  preorderAll ((ms.filter (gone ·.name)).map (strip gone))

theorem carried_append (as bs : List Message) :
    carried gone (as ++ bs) = carried gone as ++ carried gone bs := by
  unfold carried
  rw [List.filter_append, List.map_append, preorderAll_append]

theorem carried_cons_of_gone {m : Message} (ms : List Message) (h : gone m.name = true) :
    carried gone (m :: ms) = preorder (strip gone m) ++ carried gone ms := by
  simp only [carried, List.filter_cons, h, if_true, List.map_cons, preorderAll]

theorem carried_cons_of_not_gone {m : Message} (ms : List Message) (h : ¬ gone m.name = true) :
    carried gone (m :: ms) = carried gone ms := by
  simp only [carried, List.filter_cons, h, if_false, Bool.false_eq_true]

theorem carried_perm {as bs : List Message} (h : as.Perm bs) :
    (carried gone as).Perm (carried gone bs) := by
  have hstripped := (h.filter (gone ·.name)).map (strip gone)
  unfold carried
  rw [preorderAll_eq_flatMap, preorderAll_eq_flatMap]
  exact hstripped.flatMap_right preorder

mutual

/-- Each message of a tree, stripped, is once in what stays or in what is carried away. -/
theorem map_strip_preorder_perm :
    ∀ m : Message, ((preorder m).map (strip gone)).Perm
      (preorder (strip gone m) ++ carried gone m.inner)
  | ⟨_, _, messages, _⟩ => (map_strip_preorderAll_perm messages).cons _

theorem map_strip_preorderAll_perm :
    ∀ ms : List Message, ((preorderAll ms).map (strip gone)).Perm
      (preorderAll (stripAll gone ms) ++ carried gone (preorderAll ms))
  | [] => List.Perm.nil
  | m :: ms => by
    have h := (map_strip_preorder_perm m).append (map_strip_preorderAll_perm ms)
    rw [preorderAll, List.map_append, carried_append]
    apply h.trans
    rw [List.perm_iff_count]
    intro a
    -- the stripped `m` is carried away or stays, with what is left inside it
    by_cases hm : gone m.name = true
    · rw [stripAll, if_pos hm, preorder_eq m, carried_cons_of_gone _ hm]
      simp only [List.count_append]
      omega
    · rw [stripAll, if_neg hm, preorderAll, preorder_eq m, carried_cons_of_not_gone _ hm]
      simp only [List.count_append]
      omega

end

theorem map_strip_inner_perm (ms : List Message) :
    ((ms.flatMap inner).map (strip gone)).Perm
      ((ms.map (strip gone)).flatMap inner ++ carried gone (ms.flatMap inner)) := by
  induction ms with
  | nil => exact List.Perm.nil
  | cons m ms ih =>
    have hm : (m.inner.map (strip gone)).Perm ((strip gone m).inner ++ carried gone m.inner) := by
      rw [inner_strip]
      exact map_strip_preorderAll_perm m.messages
    have h := hm.append ih
    rw [List.flatMap_cons, List.map_append, carried_append, List.map_cons, List.flatMap_cons]
    apply h.trans
    rw [List.perm_iff_count]
    intro a
    simp only [List.count_append]
    omega

end Message

end SchemaNormal
