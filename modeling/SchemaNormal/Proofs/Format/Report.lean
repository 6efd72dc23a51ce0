import SchemaNormal.Proofs.Format.Changes
import SchemaNormal.Proofs.Format.Reading
import SchemaNormal.Proofs.Format.Texts
import SchemaNormal.Proofs.Format.Written

/-!
# Reports in texts

A report is a record whose one key holds the list of changes and may not be absent.  The reader of
reports decides this format, and what is written for a report describes it.
-/

namespace SchemaNormal

open Json

namespace Report

def entries (report : Report) : List (Entry Json) :=
  [required "rewrites" (IsListOf Change.Described report.changes)]

def Described (report : Report) : Json → Prop :=
  IsRecord report.entries

theorem nodup_names (levels : Nat) : ((shape levels).map (·.name)).Nodup := by
  show ["rewrites"].Nodup
  decide

/-- A report is read exactly from the values that describe it. -/
theorem read_decides (levels : Nat) : Decides levels (Report.read levels) Described := by
  have hshape : Decided (levels - 1) (shape (levels - 1)) _ :=
    .cons (field_decides_required (readList_decides (Change.read_decides _))) .nil
  refine Decides.map (readRecord_decides (nodup_names _) hshape) fun report => ?_
  exact ⟨(report.changes, ()), rfl⟩

end Report

/-! ## Writing -/

namespace Change

theorem toJson_eq (c : Change) : c.toJson = .object (c.keys.zip (c.strings.map .string)) := by
  cases c <;> rfl

theorem described_toJson (c : Change) : c.Described c.toJson := by
  rw [toJson_eq]
  constructor
  · -- no key is written twice
    cases c with
    | valueRenamed path old new => exact .cons rfl (.cons rfl (.cons rfl (.cons rfl .nil)))
    | _ => exact .cons rfl (.cons rfl (.cons rfl .nil))
  · intro m hm
    obtain ⟨s, -, hs⟩ := List.mem_map.mp (List.of_mem_zip hm).2
    rw [← hs]
    exact ⟨_, .string s⟩

theorem proper_toJson (c : Change) : c.toJson.Proper := by
  cases c <;> simp [toJson, toJson.tagged, ChangeKind.fields, Proper, ProperMembers]

theorem depth_toJson (c : Change) : c.toJson.depth = 1 := by
  cases c <;> rfl

end Change

namespace Report

theorem described_toJson (report : Report) : report.Described report.toJson := by
  have hchanges : IsListOf Change.Described report.changes
      (.ofList Change.toJson report.changes) := by
    refine ⟨_, rfl, ?_⟩
    rw [List.forall₂_map_right_iff, List.forall₂_same]
    exact fun c _ => c.described_toJson
  simp only [Described, entries, IsRecord, toJson, InMembers, List.forall_mem_cons]
  exact ⟨hchanges, List.forall_mem_nil _⟩

theorem proper_toJson (report : Report) : report.toJson.Proper :=
  ⟨properItems_map fun c _ => c.proper_toJson, trivial⟩

/-- The brackets are those of the record, of the list and of its changes. -/
theorem depth_toJson_le_three (report : Report) : report.toJson.depth ≤ 3 := by
  have hchanges : depthItems (report.changes.map Change.toJson) ≤ 1 := by
    rw [depthItems_map_le_iff]
    exact fun c _ => Nat.le_of_eq c.depth_toJson
  show 1 + max (1 + depthItems (report.changes.map Change.toJson)) 0 ≤ 3
  omega

theorem depth_toJson_le (report : Report) : report.toJson.depth ≤ levels :=
  Nat.le_trans report.depth_toJson_le_three (by decide)

/-- A report comes back from the text of a file that it has been written to, with a line break at
its end. -/
theorem ofText_render_newline (report : Report) (layout : Layout) :
    ofText Report.read (report.toJson.render layout ++ "\n") = .ok report := by
  have hspelled : report.toJson.SpelledBy (report.toJson.render layout ++ "\n") :=
    spelledBy_render_newline layout report.proper_toJson
  exact ofText_of_described (read_decides levels) hspelled report.depth_toJson_le
    report.described_toJson

end Report

end SchemaNormal
