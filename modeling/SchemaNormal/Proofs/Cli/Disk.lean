import SchemaNormal.Cli.Disk
import SchemaNormal.Proofs.Except

/-!
# Reading and writing files

A write changes what is at one place, and never at the place of a folder.  So every path leads where
it led before, what has been written is read back, and nothing else changes.
-/

namespace SchemaNormal.Cli.Disk

variable {disk disk' : Disk} {path : String} {place : Place} {content : ByteArray}

/-- The path leads to the place, whatever is there. -/
def Leads (disk : Disk) (path : String) (place : Place) : Prop :=
  ∃ target, disk.locate path = .ok target ∧ enter target.folder target.last = .ok place

/-- A file can be made or replaced at the path, and this is its place. -/
def SavesTo (disk : Disk) (path : String) (place : Place) : Prop :=
  ∃ target, disk.locate path = .ok target ∧ target.asFolder = false ∧
    enter target.folder target.last = .ok place ∧ disk.entry? place ≠ some .folder

def Creatable (disk : Disk) (path : String) : Prop :=
  ∃ place, disk.SavesTo path place

/-- The text of the file at a path. -/
def text (disk : Disk) (path : String) : Except FileError String :=
  match disk.read path with
  | .error e => .error e
  | .ok bytes =>
      match String.fromUTF8? bytes with
      | none => .error .notText
      | some text => .ok text

/-! ## Reading and writing by places -/

theorem write_eq_ok_iff : disk.write path content = .ok disk' ↔
    ∃ place, disk.SavesTo path place ∧ disk' = disk.put place (.file content) := by
  unfold write
  rw [bind_eq_ok_iff]
  constructor
  · rintro ⟨target, hlocate, h⟩
    split at h
    · cases h
    · rename_i hfolder
      obtain ⟨place, henter, h⟩ := bind_eq_ok_iff.mp h
      refine ⟨place, ⟨target, hlocate, eq_false_of_ne_true hfolder, henter, fun hentry => ?_⟩, ?_⟩
      · rw [hentry] at h
        cases h
      · split at h <;> cases h <;> rfl
  · rintro ⟨place, ⟨target, hlocate, hfolder, henter, hentry⟩, rfl⟩
    refine ⟨target, hlocate, ?_⟩
    rw [if_neg (ne_true_of_eq_false hfolder), bind_eq_ok_iff]
    refine ⟨place, henter, ?_⟩
    split
    · exact absurd ‹_› hentry
    · rfl
    · rfl

theorem exists_write_eq_error (h : ¬ disk.Creatable path) (content : ByteArray) :
    ∃ e, disk.write path content = .error e := by
  cases hwrite : disk.write path content with
  | error e => exact ⟨e, rfl⟩
  | ok made =>
    obtain ⟨place, hplace, -⟩ := write_eq_ok_iff.mp hwrite
    exact absurd ⟨place, hplace⟩ h

theorem SavesTo.read (hplace : disk.SavesTo path place)
    (h : disk.entry? place = some (.file content)) : disk.read path = .ok content := by
  obtain ⟨target, hlocate, hfolder, henter, -⟩ := hplace
  unfold Disk.read
  refine bind_eq_ok_iff.mpr ⟨target, hlocate, bind_eq_ok_iff.mpr ⟨place, henter, ?_⟩⟩
  rw [h, hfolder]
  rfl

theorem SavesTo.text {text : String} (hplace : disk.SavesTo path place)
    (h : disk.entry? place = some (.file text.toUTF8)) : disk.text path = .ok text := by
  have hvalid : String.fromUTF8? text.toUTF8 = some text := dif_pos text.isValidUTF8
  unfold Disk.text
  rw [hplace.read h]
  dsimp only
  rw [hvalid]

theorem SavesTo.leads (h : disk.SavesTo path place) : disk.Leads path place := by
  obtain ⟨target, hlocate, -, henter, -⟩ := h
  exact ⟨target, hlocate, henter⟩

theorem Leads.unique {place' : Place} (h : disk.Leads path place)
    (h' : disk.Leads path place') : place = place' := by
  obtain ⟨target, hlocate, henter⟩ := h
  obtain ⟨target', hlocate', henter'⟩ := h'
  cases hlocate.symm.trans hlocate'
  exact Except.ok.inj (henter.symm.trans henter')

theorem SavesTo.unique {place' : Place} (h : disk.SavesTo path place)
    (h' : disk.SavesTo path place') : place = place' :=
  h.leads.unique h'.leads

/-- The working folder and the folders around it are never replaced. -/
theorem SavesTo.not_isAround (h : disk.SavesTo path place) : ¬ place.isAround disk.here := by
  obtain ⟨target, -, -, -, hentry⟩ := h
  intro haround
  apply hentry
  unfold entry?
  rw [if_pos haround]

theorem not_creatable_of_locate_eq_error {e : FileError} (h : disk.locate path = .error e) :
    ¬ disk.Creatable path := by
  rintro ⟨place, target, hlocate, -⟩
  cases h.symm.trans hlocate

/-! ## What a write leaves as it is -/

theorem entry?_put (hplace : ¬ place.isAround disk.here) (entry : Entry) (other : Place) :
    entry? (disk.put place entry) other =
      if other = place then some entry else disk.entry? other := by
  unfold entry? put
  dsimp only
  by_cases hother : other = place
  · rw [if_pos hother, hother, if_neg hplace, List.lookup_cons_self]
  · rw [if_neg hother, List.lookup_cons, beq_eq_false_iff_ne.mpr hother]

/-- The same place is the working folder on both disks, and the same places are folders. -/
structure SameFolders (disk disk' : Disk) : Prop where
  here : disk'.here = disk.here
  folder_iff : ∀ place, disk'.entry? place = some .folder ↔ disk.entry? place = some .folder

theorem SameFolders.refl (disk : Disk) : disk.SameFolders disk :=
  ⟨rfl, fun _ => Iff.rfl⟩

theorem SameFolders.symm (h : disk.SameFolders disk') : disk'.SameFolders disk :=
  ⟨h.here.symm, fun place => (h.folder_iff place).symm⟩

theorem SameFolders.trans {disk'' : Disk} (h : disk.SameFolders disk')
    (h' : disk'.SameFolders disk'') : disk.SameFolders disk'' :=
  ⟨h'.here.trans h.here, fun place => (h'.folder_iff place).trans (h.folder_iff place)⟩

theorem SavesTo.sameFolders (h : disk.SavesTo path place) (content : ByteArray) :
    disk.SameFolders (disk.put place (.file content)) := by
  refine ⟨rfl, fun other => ?_⟩
  rw [entry?_put h.not_isAround]
  split
  · rename_i hother
    obtain ⟨-, -, -, -, hentry⟩ := h
    rw [hother]
    exact iff_of_false nofun hentry
  · exact Iff.rfl

theorem folderAt_cons_eq_ok_iff {folder : Place} {part : String} {parts : List String} :
    disk.folderAt folder (part :: parts) = .ok place ↔
      ∃ next, enter folder part = .ok next ∧ disk.entry? next = some .folder ∧
        disk.folderAt next parts = .ok place := by
  rw [folderAt]
  cases enter folder part with
  | error e => simp
  | ok next => cases hentry : disk.entry? next with
    | none => simp [hentry]
    | some entry => cases entry <;> simp [hentry]

theorem SameFolders.folderAt (h : disk.SameFolders disk') (parts : List String) (folder : Place) :
    disk'.folderAt folder parts = .ok place ↔ disk.folderAt folder parts = .ok place := by
  induction parts generalizing folder with
  | nil => exact Iff.rfl
  | cons part parts ih => simp only [folderAt_cons_eq_ok_iff, h.folder_iff, ih]

theorem SameFolders.locate (h : disk.SameFolders disk') {target : Target} :
    disk'.locate path = .ok target ↔ disk.locate path = .ok target := by
  unfold Disk.locate
  split
  · exact Iff.rfl
  split
  · exact Iff.rfl
  -- all parts but the last lead through folders, the same ones on both disks
  rw [h.here]
  dsimp only
  cases hfolder : disk.folderAt _ _ with
  | ok folder => rw [(h.folderAt _ _).mpr hfolder]
  | error e =>
    cases hfolder' : disk'.folderAt _ _ with
    | error e' => exact iff_of_false nofun nofun
    | ok folder =>
      rw [(h.folderAt _ _).mp hfolder'] at hfolder
      cases hfolder

theorem SameFolders.leads (h : disk.SameFolders disk') :
    disk'.Leads path place ↔ disk.Leads path place :=
  exists_congr fun _ => and_congr_left fun _ => h.locate

theorem SameFolders.savesTo (h : disk.SameFolders disk') :
    disk'.SavesTo path place ↔ disk.SavesTo path place :=
  exists_congr fun _ => and_congr h.locate
    (and_congr_right fun _ => and_congr_right fun _ => not_congr (h.folder_iff place))

theorem SameFolders.creatable (h : disk.SameFolders disk') :
    disk'.Creatable path ↔ disk.Creatable path :=
  exists_congr fun _ => h.savesTo

/-! ## Reading after a write -/

theorem SavesTo.text_put_self (h : disk.SavesTo path place) (text : String) :
    (disk.put place (.file text.toUTF8)).text path = .ok text := by
  apply ((h.sameFolders _).savesTo.mpr h).text
  rw [entry?_put h.not_isAround, if_pos rfl]

theorem SavesTo.text_put_of_ne {path' text : String} {place' : Place}
    (h : disk.SavesTo path place) (h' : disk.SavesTo path' place') (hne : place ≠ place')
    (hentry : disk.entry? place = some (.file text.toUTF8)) (content : ByteArray) :
    (disk.put place' (.file content)).text path = .ok text := by
  apply ((h'.sameFolders _).savesTo.mpr h).text
  rw [entry?_put h'.not_isAround, if_neg hne, hentry]

end SchemaNormal.Cli.Disk
