import SchemaNormal.Proofs.Lifting.Counts

/-!
# Clashes of names at the top

The messages and enums at the top of a file share one scope.  Lifting looks at the messages there
before it adds one, but not at the enums, so a lifted message can take the name of an enum.  That
is the only clash it makes.
-/

namespace SchemaNormal

namespace File

/-- The names of the definitions at the top: those of the messages, then those of the enums. -/
def scopeNames (f : File) : List String :=
  f.topNames ++ f.enums.map (·.name)

theorem enums_liftMessages (f : File) : f.liftMessages.file.enums = f.enums := by
  rw [f.liftMessages_file]

/-- The names that lifting adds come between those of the messages and those of the enums. -/
theorem scopeNames_liftMessages (f : File) :
    f.liftMessages.file.scopeNames =
      f.topNames ++ (f.lifted.map Nested.name ++ f.enums.map (·.name)) := by
  rw [scopeNames, topNames_liftMessages, enums_liftMessages, List.append_assoc]

theorem scopeNames_liftMessages_perm (f : File) :
    f.liftMessages.file.scopeNames.Perm (f.scopeNames ++ f.lifted.map Nested.name) := by
  rw [scopeNames_liftMessages, scopeNames, List.append_assoc]
  exact List.perm_append_comm.append_left f.topNames

/-- A name is lifted if it is nested and agrees, and no message at the top has it. -/
theorem mem_names_lifted_iff (f : File) (name : String) :
    name ∈ f.lifted.map Nested.name ↔
      name ∉ f.topNames ∧ (∃ x ∈ f.nested, x.name = name) ∧ f.Agrees name := by
  rw [List.mem_map]
  constructor
  · rintro ⟨x, hx, rfl⟩
    have htaken : x ∈ f.taken := mem_taken_of_mem_lifted hx
    exact ⟨Nested.name_notMem_of_mem_firsts hx, ⟨x, List.mem_of_mem_filter htaken, rfl⟩,
      agrees_of_mem_taken htaken⟩
  · rintro ⟨htop, ⟨x, hx, rfl⟩, hagrees⟩
    have htaken : x ∈ f.taken := List.mem_filter.mpr ⟨hx, decide_eq_true hagrees⟩
    exact Nested.exists_first htaken htop

/-- After lifting the names at the top are distinct exactly if they were before and no enum at the
top has the name of nested messages that agree. -/
theorem nodup_scopeNames_liftMessages_iff (f : File) :
    f.liftMessages.file.scopeNames.Nodup ↔
      f.scopeNames.Nodup ∧
        ∀ e ∈ f.enums, ∀ x ∈ f.nested, x.name = e.name → ¬ f.Agrees e.name := by
  have hlifted : (f.lifted.map Nested.name).Nodup :=
    Nested.nodup_names_firsts f.topNames f.taken
  rw [f.scopeNames_liftMessages_perm.nodup_iff, List.nodup_append']
  refine and_congr_right fun hscope => ?_
  have htop : ∀ e ∈ f.enums, e.name ∉ f.topNames := by
    intro e he hmem
    have hdisjoint := (List.nodup_append'.mp hscope).2.2
    exact hdisjoint hmem (List.mem_map_of_mem he)
  constructor
  · rintro ⟨-, hdisjoint⟩ e he x hx hname hagrees
    have hscoped : e.name ∈ f.scopeNames := List.mem_append_right _ (List.mem_map_of_mem he)
    have hnew : e.name ∈ f.lifted.map Nested.name :=
      (f.mem_names_lifted_iff e.name).mpr ⟨htop e he, ⟨x, hx, hname⟩, hagrees⟩
    exact hdisjoint hscoped hnew
  · intro h
    refine ⟨hlifted, fun name hscoped hnew => ?_⟩
    -- a name that is lifted is not the name of a message at the top, so it is an enum's
    obtain ⟨hnotTop, ⟨x, hx, hname⟩, hagrees⟩ := (f.mem_names_lifted_iff name).mp hnew
    obtain ⟨e, he, rfl⟩ := List.mem_map.mp ((List.mem_append.mp hscoped).resolve_left hnotTop)
    exact h e he x hx hname hagrees

/-- The nested message `B` is lifted to the scope of the enum `B`. -/
theorem scopeNames_clash :
    let f : File :=
      { messages := [{ name := "A", messages := [{ name := "B" }] }], enums := [{ name := "B" }] }
    f.scopeNames.Nodup ∧ ¬ f.liftMessages.file.scopeNames.Nodup := by
  decide +kernel

end File

end SchemaNormal
