import SchemaNormal.Normalize
import SchemaNormal.Proofs.Enums.Passes
import SchemaNormal.Proofs.Lifting.Walk

/-!
# Lifting and the enum passes

An edit of enums leaves every message in its place under its name, and messages that were the same
stay the same.  So names that agree before the edit agree after it.  If no other name comes to
agree, lifting after the edit does what it does before it.
-/

namespace SchemaNormal

variable {edit : Enum → Enum}

namespace Nested

/-- The nested message with every enum in it edited. -/
def mapEnums (edit : Enum → Enum) (x : Nested) : Nested :=
  { x with message := x.message.mapEnums edit }

theorem mapEnums_name (x : Nested) : (x.mapEnums edit).name = x.name :=
  Message.mapEnums_name x.message

theorem mapEnums_path (x : Nested) : (x.mapEnums edit).path = x.path := by
  unfold path
  rw [mapEnums_name]
  rfl

end Nested

namespace Message

mutual

theorem inside_mapEnums (scopes : List String) :
    ∀ m : Message, inside scopes (mapEnums edit m) = (inside scopes m).map (Nested.mapEnums edit)
  | ⟨name, _, messages, _⟩ => insideAll_mapEnumsAll (scopes ++ [name]) messages

theorem insideAll_mapEnumsAll (scopes : List String) :
    ∀ ms : List Message, insideAll scopes (mapEnumsAll edit ms) =
      (insideAll scopes ms).map (Nested.mapEnums edit)
  | [] => rfl
  | m :: ms => by
    rw [mapEnumsAll, insideAll, insideAll, inside_mapEnums scopes m,
      insideAll_mapEnumsAll scopes ms, List.map_append, List.map_cons]
    rfl

end

variable {gone : String → Bool}

mutual

theorem strip_mapEnums :
    ∀ m : Message, strip gone (mapEnums edit m) = mapEnums edit (strip gone m)
  | ⟨_, _, messages, _⟩ => by
    rw [mapEnums, strip, strip, mapEnums, stripAll_mapEnumsAll messages]

theorem stripAll_mapEnumsAll :
    ∀ ms : List Message, stripAll gone (mapEnumsAll edit ms) = mapEnumsAll edit (stripAll gone ms)
  | [] => rfl
  | m :: ms => by
    rw [mapEnumsAll, stripAll, stripAll, mapEnums_name, strip_mapEnums m, stripAll_mapEnumsAll ms]
    split
    · rfl
    · rw [mapEnumsAll]

end

end Message

namespace File

/-! ## What an edit keeps -/

theorem nested_mapEnums (f : File) :
    (f.mapEnums edit).nested = f.nested.map (Nested.mapEnums edit) := by
  unfold nested
  rw [mapEnums_messages, List.flatMap_map, List.map_flatMap]
  simp only [Message.inside_mapEnums]

theorem topNames_mapEnums (f : File) : (f.mapEnums edit).topNames = f.topNames := by
  unfold topNames
  rw [mapEnums_messages, List.map_map]
  exact List.map_congr_left fun m _ => Message.mapEnums_name m

theorem agrees_mapEnums {f : File} {name : String} (h : f.Agrees name) :
    (f.mapEnums edit).Agrees name := by
  unfold Agrees
  rw [allMessages_mapEnums]
  simp only [List.forall_mem_map, Message.mapEnums_name]
  intro a ha b hb haname hbname
  rw [h a ha b hb haname hbname]

theorem mem_liftable_mapEnums_iff (f : File) (name : String) :
    name ∈ (f.mapEnums edit).groups.liftable ↔
      (∃ m ∈ f.allMessages, m.name = name) ∧ (f.mapEnums edit).Agrees name := by
  rw [mem_liftable_iff, allMessages_mapEnums]
  simp only [List.mem_map, exists_exists_and_eq_and, Message.mapEnums_name]

theorem mem_liftable_mapEnums {f : File} {name : String} (h : name ∈ f.groups.liftable) :
    name ∈ (f.mapEnums edit).groups.liftable := by
  obtain ⟨hoccurs, hagrees⟩ := (f.mem_liftable_iff name).mp h
  exact (f.mem_liftable_mapEnums_iff name).mpr ⟨hoccurs, agrees_mapEnums hagrees⟩

/-! ## Lifting after an edit -/

section Same

variable {f : File}
  (h : ∀ name, name ∈ (f.mapEnums edit).groups.liftable ↔ name ∈ f.groups.liftable)

include h

theorem agrees_mapEnums_iff (name : String) : (f.mapEnums edit).Agrees name ↔ f.Agrees name := by
  refine ⟨fun hedited => ?_, agrees_mapEnums⟩
  -- a name that occurs and agrees after the edit is liftable then, and so it was before
  intro a ha b hb haname hbname
  have hliftable : name ∈ f.groups.liftable :=
    (h name).mp ((f.mem_liftable_mapEnums_iff name).mpr ⟨⟨a, ha, haname⟩, hedited⟩)
  exact ((f.mem_liftable_iff name).mp hliftable).2 a ha b hb haname hbname

theorem stripped_mapEnums (m : Message) :
    (f.mapEnums edit).stripped (m.mapEnums edit) = (f.stripped m).mapEnums edit := by
  unfold stripped
  rw [← Message.strip_mapEnums]
  apply Message.strip_congr
  intro a _
  exact decide_eq_decide.mpr (agrees_mapEnums_iff h a.name)

theorem taken_mapEnums : (f.mapEnums edit).taken = f.taken.map (Nested.mapEnums edit) := by
  unfold taken
  rw [nested_mapEnums, List.filter_map]
  congr 1
  apply List.filter_congr
  intro x _
  rw [Function.comp_apply, Nested.mapEnums_name]
  exact decide_eq_decide.mpr (agrees_mapEnums_iff h x.name)

theorem lifted_mapEnums : (f.mapEnums edit).lifted = f.lifted.map (Nested.mapEnums edit) := by
  unfold lifted
  rw [taken_mapEnums h, topNames_mapEnums, Nested.firsts_map Nested.mapEnums_name]

theorem liftMessages_file_mapEnums :
    (f.mapEnums edit).liftMessages.file = f.liftMessages.file.mapEnums edit := by
  have hstays : (f.mapEnums edit).messages.map (f.mapEnums edit).stripped =
      (f.messages.map f.stripped).map (Message.mapEnums edit) := by
    rw [mapEnums_messages, List.map_map, List.map_map]
    exact List.map_congr_left fun m _ => stripped_mapEnums h m
  have hends : (f.mapEnums edit).lifted.map ((f.mapEnums edit).stripped ·.message) =
      (f.lifted.map (f.stripped ·.message)).map (Message.mapEnums edit) := by
    rw [lifted_mapEnums h, List.map_map, List.map_map]
    exact List.map_congr_left fun x _ => stripped_mapEnums h x.message
  rw [liftMessages_file, liftMessages_file, hstays, hends, ← List.map_append,
    ← Message.mapEnumsAll_eq_map]
  rfl

theorem liftMessages_changes_mapEnums :
    (f.mapEnums edit).liftMessages.changes = f.liftMessages.changes := by
  rw [liftMessages_changes, liftMessages_changes, taken_mapEnums h, topNames_mapEnums,
    Nested.changes_map Nested.mapEnums_name Nested.mapEnums_path]

end Same

end File

/-! ## The enum passes -/

theorem Pass.exists_run_eq_mapEnums (options : Options) {pass : Pass}
    (h : pass = .completeZero ∨ pass = .prefixDigits) :
    ∃ edit, ∀ f : File, (pass.run options f).file = f.mapEnums edit := by
  obtain rfl | rfl := h
  · exact ⟨Enum.completeZero options.zeroName, fun f => f.completeZero_file options.zeroName⟩
  · exact ⟨Enum.prefixed options.digitPrefix, fun f => f.prefixDigits_file options.digitPrefix⟩

namespace File

/-- A name that is liftable stays so when an enum pass has run.  If the pass makes no other name
liftable, lifting and the pass give the same file in either order, and the same messages are lifted
and dropped. -/
theorem liftMessages_run_comm (options : Options) {pass : Pass}
    (hpass : pass = .completeZero ∨ pass = .prefixDigits) (f : File) :
    (∀ name ∈ f.groups.liftable, name ∈ (pass.run options f).file.groups.liftable) ∧
      ((∀ name, name ∈ (pass.run options f).file.groups.liftable ↔ name ∈ f.groups.liftable) →
        (pass.run options f).file.liftMessages.file =
            (pass.run options f.liftMessages.file).file ∧
          (pass.run options f).file.liftMessages.changes = f.liftMessages.changes) := by
  obtain ⟨edit, hedit⟩ := Pass.exists_run_eq_mapEnums options hpass
  rw [hedit, hedit]
  exact ⟨fun name => mem_liftable_mapEnums, fun h =>
    ⟨liftMessages_file_mapEnums h, liftMessages_changes_mapEnums h⟩⟩

/-- `B` is lifted with its enum edited or to be edited, be it a value that is added or one that gets
a new name.  The two `K` differ all the time. -/
theorem completed_liftMessages :
    let options : Options := {}
    let e : Enum := { name := "E", values := [⟨"1", 1⟩] }
    let f : File :=
      { messages :=
          [ { name := "A", messages := [{ name := "B", enums := [e] }, { name := "K" }] },
            { name := "K", enums := [e] } ] }
    let completed := Pass.completeZero.run options f
    let renamed := Pass.prefixDigits.run options f
    (Pass.completeZero = .completeZero ∨ Pass.completeZero = .prefixDigits) ∧
      (∀ name, name ∈ completed.file.groups.liftable ↔ name ∈ f.groups.liftable) ∧
      (Pass.prefixDigits = .completeZero ∨ Pass.prefixDigits = .prefixDigits) ∧
      (∀ name, name ∈ renamed.file.groups.liftable ↔ name ∈ f.groups.liftable) ∧
      completed.file ≠ f ∧
      completed.changes = [.zeroInserted "A.B.E" "DEFAULT", .zeroInserted "K.E" "DEFAULT"] ∧
      renamed.file ≠ f ∧
      renamed.changes =
        [.valueRenamed "A.B.E" "1" "NUM_1", .valueRenamed "K.E" "1" "NUM_1"] ∧
      f.liftMessages.changes = [.messageLifted "A.B" "B"] ∧
      (completed.file.liftMessages.file =
          (Pass.completeZero.run options f.liftMessages.file).file ∧
        completed.file.liftMessages.changes = f.liftMessages.changes) ∧
      renamed.file.liftMessages.file =
          (Pass.prefixDigits.run options f.liftMessages.file).file ∧
        renamed.file.liftMessages.changes = f.liftMessages.changes := by
  intro options e f completed renamed
  have hcompleted : ∀ name, name ∈ completed.file.groups.liftable ↔
      name ∈ f.groups.liftable := by
    have hsame : completed.file.groups.liftable = f.groups.liftable := by decide +kernel
    intro name
    rw [hsame]
  have hrenamed : ∀ name, name ∈ renamed.file.groups.liftable ↔ name ∈ f.groups.liftable := by
    have hsame : renamed.file.groups.liftable = f.groups.liftable := by decide +kernel
    intro name
    rw [hsame]
  exact ⟨Or.inl rfl, hcompleted, Or.inr rfl, hrenamed, by decide +kernel, by decide +kernel,
    by decide +kernel, by decide +kernel, by decide +kernel,
    (liftMessages_run_comm options (Or.inl rfl) f).2 hcompleted,
    (liftMessages_run_comm options (Or.inr rfl) f).2 hrenamed⟩

/-- Completing can make two definitions the same.  Then it matters which pass comes first. -/
example :
    let f : File :=
      { messages :=
          [ { name := "A", messages := [{ name := "K", enums := [{ name := "E" }] }] },
            { name := "K", enums := [{ name := "E", values := [⟨"DEFAULT", 0⟩] }] } ] }
    (f.completeZero "DEFAULT").file.liftMessages.file ≠
      (f.liftMessages.file.completeZero "DEFAULT").file := by
  decide +kernel

end File

end SchemaNormal
