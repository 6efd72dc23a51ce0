import SchemaNormal.Proofs.Enums.Changes
import SchemaNormal.Proofs.Enums.Lifting
import SchemaNormal.Proofs.Normalize.Guarantees

/-!
# Where reports point

A run of all passes reports changes to three different files: the given one, the one that lifting
leaves, and the one with completed enums.  Each change can be found again: a message that was taken
out stood in the given file and has its name at the top of the last one, and an enum keeps the path
that it has after lifting.
-/

namespace SchemaNormal

variable {options : Options}

/-- What the change tells of is found at its path: of a message in the file that was given, of an
enum in the file that was made of it. -/
def Change.PointsInto (options : Options) (given made : File) : Change → Prop
  | .messageLifted path name | .duplicateDropped path name =>
      (∃ x ∈ given.nested, x.path = path ∧ x.name = name) ∧ ∃ m ∈ made.messages, m.name = name
  | .zeroInserted path name =>
      name = options.zeroName ∧ ∃ x ∈ made.placedEnums, x.path = path ∧
        ∃ v vs, x.enum.values = v :: vs ∧ v.index = 0 ∧
          v.name = if startsWithDigit name then options.digitPrefix ++ name else name
  | .valueRenamed path old new =>
      startsWithDigit old = true ∧ new = options.digitPrefix ++ old ∧
        ∃ x ∈ made.placedEnums, x.path = path ∧ ∃ v ∈ x.enum.values, v.name = new

/-! ## One pass -/

namespace File

/-- A message taken out stood in the file, and its name is at the top afterwards. -/
theorem pointsInto_of_mem_liftMessages_changes {f made : File} {c : Change}
    (h : c ∈ f.liftMessages.changes) (htop : made.topNames = f.liftMessages.file.topNames) :
    c.PointsInto options f made := by
  obtain ⟨i, hi⟩ := List.mem_iff_getElem?.mp h
  obtain ⟨x, hx, hchange⟩ := f.changes_getElem? i c hi
  have htaken : x ∈ f.taken := List.mem_of_getElem? hx
  have hnested : x ∈ f.nested := List.mem_of_mem_filter htaken
  have hname : ∃ m ∈ made.messages, m.name = x.name := by
    apply List.mem_map.mp
    show x.name ∈ made.topNames
    rw [htop]
    exact List.mem_map.mpr ⟨_, stripped_mem_of_mem_taken htaken, Message.strip_name x.message⟩
  rcases hchange with rfl | rfl
  · exact ⟨⟨x, hnested, rfl, rfl⟩, hname⟩
  · exact ⟨⟨x, hnested, rfl, rfl⟩, hname⟩

/-- An inserted value is the first one, and a renaming that comes later keeps it there. -/
theorem pointsInto_of_mem_completeZero_changes {f g : File} {c : Change}
    (h : c ∈ (g.completeZero options.zeroName).changes) :
    c.PointsInto options f
      ((g.completeZero options.zeroName).file.prefixDigits options.digitPrefix).file := by
  obtain ⟨x, hx, hzero, rfl⟩ := mem_completeZero_changes.mp h
  let edit := Enum.prefixed options.digitPrefix ∘ Enum.completeZero options.zeroName
  have hname : ∀ e, (edit e).name = e.name := fun e => Enum.completeZero_name options.zeroName e
  have hvalues : (edit x.enum).values = EnumValue.prefixed options.digitPrefix
      ⟨options.zeroName, 0⟩ :: x.enum.values.map (·.prefixed options.digitPrefix) := by
    show ((x.enum.completeZero options.zeroName).prefixed options.digitPrefix).values = _
    unfold Enum.completeZero
    rw [if_neg (ne_true_of_eq_false hzero)]
    rfl
  rw [prefixDigits_file, completeZero_file, mapEnums_mapEnums]
  refine ⟨rfl, x.map edit, ?_, PlacedEnum.path_map hname x, _, _, hvalues, rfl, rfl⟩
  rw [placedEnums_mapEnums]
  exact List.mem_map_of_mem hx

theorem pointsInto_of_mem_prefixDigits_changes {f g : File} {c : Change}
    (h : c ∈ (g.prefixDigits options.digitPrefix).changes) :
    c.PointsInto options f (g.prefixDigits options.digitPrefix).file := by
  obtain ⟨x, hx, v, hv, hdigit, rfl⟩ := mem_prefixDigits_changes.mp h
  rw [prefixDigits_file]
  refine ⟨hdigit, rfl, x.map (Enum.prefixed options.digitPrefix), ?_, ?_, ?_⟩
  · rw [placedEnums_mapEnums]
    exact List.mem_map_of_mem hx
  · exact PlacedEnum.path_map (Enum.prefixed_name options.digitPrefix) x
  · refine ⟨v.prefixed options.digitPrefix, List.mem_map_of_mem hv, ?_⟩
    show SchemaNormal.prefixDigits options.digitPrefix v.name = _
    unfold SchemaNormal.prefixDigits
    rw [if_pos hdigit]

end File

/-! ## A whole run -/

/-- Every entry of the report of a run of all passes in their default order points to a real
place. -/
theorem normalize_pointsInto (hvalid : options.validate = .ok ())
    (hall : options.passes = Pass.all) (f : File) :
    ∃ outcome, normalize f options = .ok outcome ∧
      ∀ change ∈ outcome.report.changes, change.PointsInto options f outcome.file := by
  refine ⟨_, normalize_of_valid hvalid f, ?_⟩
  rw [hall]
  let lifted := f.liftMessages
  let completed := lifted.file.completeZero options.zeroName
  let renamed := completed.file.prefixDigits options.digitPrefix
  -- the enum passes leave the names at the top as they are
  have htop : renamed.file.topNames = lifted.file.topNames := by
    show (completed.file.prefixDigits _).file.topNames = _
    rw [File.prefixDigits_file, File.topNames_mapEnums]
    show (lifted.file.completeZero _).file.topNames = _
    rw [File.completeZero_file, File.topNames_mapEnums]
  intro change hchange
  show change.PointsInto options f renamed.file
  have hpasses : change ∈ (([] ++ lifted.changes) ++ completed.changes) ++ renamed.changes :=
    hchange
  rw [List.nil_append, List.mem_append, List.mem_append] at hpasses
  rcases hpasses with (hlifted | hcompleted) | hrenamed
  · exact File.pointsInto_of_mem_liftMessages_changes hlifted htop
  · exact File.pointsInto_of_mem_completeZero_changes hcompleted
  · exact File.pointsInto_of_mem_prefixDigits_changes hrenamed

/-- Two copies of `B` are taken out of `A` and `C`.  The enum in `B` is reported at the place that
it has after that, under the name that was inserted first and renamed later. -/
theorem movedEnum_pointsInto :
    let options : Options := { zeroName := "0Z" }
    let b : Message := { name := "B", enums := [{ name := "E" }] }
    let d : Enum := { name := "D", values := [⟨"x", 0⟩, ⟨"1", 1⟩] }
    let f : File :=
      { messages :=
          [{ name := "A", messages := [b] }, { name := "C", messages := [b], enums := [d] }] }
    options.validate = .ok () ∧ options.passes = Pass.all ∧
      ∃ outcome, normalize f options = .ok outcome ∧
        outcome.report.changes =
          [.messageLifted "A.B" "B", .duplicateDropped "C.B" "B", .zeroInserted "B.E" "0Z",
            .valueRenamed "C.D" "1" "NUM_1", .valueRenamed "B.E" "0Z" "NUM_0Z"] ∧
        (∀ change ∈ outcome.report.changes, change.PointsInto options f outcome.file) ∧
        ∃ x ∈ outcome.file.placedEnums, x.path = "B.E" ∧
          ∃ v vs, x.enum.values = v :: vs ∧ v.index = 0 ∧ v.name = "NUM_0Z" := by
  intro options b d f
  have hvalid : options.validate = .ok () := by decide +kernel
  obtain ⟨outcome, hrun, hpoints⟩ := normalize_pointsInto hvalid rfl f
  have hchanges : outcome.report.changes =
      [.messageLifted "A.B" "B", .duplicateDropped "C.B" "B", .zeroInserted "B.E" "0Z",
        .valueRenamed "C.D" "1" "NUM_1", .valueRenamed "B.E" "0Z" "NUM_0Z"] := by
    rw [← Except.ok.inj ((normalize_of_valid hvalid f).symm.trans hrun)]
    decide +kernel
  have hinserted : Change.zeroInserted "B.E" "0Z" ∈ outcome.report.changes := by
    rw [hchanges]
    decide
  obtain ⟨-, x, hx, hpath, v, vs, hvalues, hindex, hname⟩ := hpoints _ hinserted
  have hrenamed : (if startsWithDigit "0Z" then "NUM_" ++ "0Z" else "0Z") = "NUM_0Z" := by
    decide +kernel
  exact ⟨hvalid, rfl, outcome, hrun, hchanges, hpoints, x, hx, hpath, v, vs, hvalues, hindex,
    hname.trans hrenamed⟩

end SchemaNormal
