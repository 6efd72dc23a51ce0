import SchemaNormal.Proofs.Cli.Disk

/-!
# Paths on two disks

On two disks with the same folders a path leads to the same target, or nowhere on both.  The reason
why it leads nowhere may still differ: a part that is missing on one disk can be a file on the
other.
-/

namespace SchemaNormal.Cli.Disk

variable {disk disk' : Disk} {path other : String} {place : Place} {content : ByteArray}

/-- The path leads to the same target on both disks, or nowhere for the same reason. -/
def SameWay (disk disk' : Disk) (path : String) : Prop :=
  disk'.locate path = disk.locate path

theorem SameWay.symm (h : disk.SameWay disk' path) : disk'.SameWay disk path :=
  Eq.symm h

/-- What a walk needs of a place on its way. -/
def passable : Option Entry → Except FileError Unit
  | none => .error .missing
  | some (.file _) => .error .notFolder
  | some .folder => .ok ()

theorem passable_eq_ok_iff {entry : Option Entry} :
    passable entry = .ok () ↔ entry = some .folder := by
  rcases entry with - | - | - <;> simp [passable]

theorem folderAt_cons (disk : Disk) (folder : Place) (part : String) (parts : List String) :
    disk.folderAt folder (part :: parts) = enter folder part >>= fun next =>
      passable (disk.entry? next) >>= fun _ => disk.folderAt next parts := by
  rw [folderAt]
  cases enter folder part with
  | error e => rfl
  | ok next =>
    rw [ok_bind]
    dsimp only
    rcases disk.entry? next with - | - | - <;> rfl

/-- All that a disk has to do with where a path leads is its working folder and a walk through its
folders. -/
theorem locate_eq (path : String) : (∃ e, ∀ disk : Disk, disk.locate path = .error e) ∨
    ∃ start : Place → Place, ∃ parts last asFolder, ∀ disk : Disk, disk.locate path =
      (disk.folderAt (start disk.here) parts).map (⟨·, last, asFolder⟩) := by
  by_cases hlong : longestPath < path.utf8ByteSize
  · refine Or.inl ⟨.nameTooLong, fun disk => ?_⟩
    unfold locate
    rw [if_pos hlong]
  by_cases hempty : path.isEmpty = true
  · refine Or.inl ⟨.missing, fun disk => ?_⟩
    unfold locate
    rw [if_neg hlong, if_pos hempty]
  · let start (here : Place) : Place := if path.startsWith "/" then .root else here
    let parts := path.splitOn "/"
    let inner := (parts.reverse.dropWhile (·.isEmpty)).reverse
    refine Or.inr ⟨start, inner.dropLast, inner.getLast?.getD "", inner.length < parts.length,
      fun disk => ?_⟩
    unfold locate
    rw [if_neg hlong, if_neg hempty]
    dsimp only
    cases disk.folderAt (start disk.here) inner.dropLast with
    | error e => rfl
    | ok folder => rfl

/-! ## When the way is the same -/

theorem SameFolders.sameWay_of_locate_eq_ok (h : disk.SameFolders disk') {target : Target}
    (hlocate : disk.locate path = .ok target) : disk.SameWay disk' path :=
  (h.locate.mpr hlocate).trans hlocate.symm

/-- A path whose way differs leads nowhere. -/
theorem SameFolders.text_eq_error (h : disk.SameFolders disk') (hway : ¬ disk.SameWay disk' path) :
    ∃ e, disk.text path = .error e := by
  cases hlocate : disk.locate path with
  | ok target => exact absurd (h.sameWay_of_locate_eq_ok hlocate) hway
  | error e =>
    refine ⟨e, ?_⟩
    unfold text Disk.read
    rw [hlocate]
    rfl

theorem folderAt_put_of_file {old : ByteArray} (hplace : ¬ place.isAround disk.here)
    (hold : disk.entry? place = some (.file old)) (content : ByteArray) (folder : Place)
    (parts : List String) :
    (disk.put place (.file content)).folderAt folder parts = disk.folderAt folder parts := by
  induction parts generalizing folder with
  | nil => rfl
  | cons part parts ih =>
    rw [folderAt_cons, folderAt_cons]
    cases enter folder part with
    | error e => rfl
    | ok next =>
      rw [ok_bind, ok_bind, entry?_put hplace, ih next]
      by_cases hnext : next = place
      · rw [if_pos hnext, hnext, hold]
        rfl
      · rw [if_neg hnext]

/-- A file in the place of another one is in nobody's way. -/
theorem sameWay_put_of_file {old : ByteArray} (hplace : ¬ place.isAround disk.here)
    (hold : disk.entry? place = some (.file old)) (content : ByteArray) (path : String) :
    disk.SameWay (disk.put place (.file content)) path := by
  unfold SameWay
  rcases locate_eq path with ⟨e, he⟩ | ⟨start, parts, last, asFolder, hlocate⟩
  · rw [he, he]
  · rw [hlocate, hlocate, folderAt_put_of_file hplace hold]
    rfl

theorem SameFolders.passable_iff (h : disk.SameFolders disk') (place : Place) :
    passable (disk'.entry? place) = .ok () ↔ passable (disk.entry? place) = .ok () := by
  rw [passable_eq_ok_iff, passable_eq_ok_iff]
  exact h.folder_iff place

/-- A walk that goes the same way goes the same way past a file that is made on both disks. -/
theorem SameFolders.folderAt_put_eq (h : disk.SameFolders disk')
    (hplace : ¬ place.isAround disk.here) (content : ByteArray) {folder : Place}
    {parts : List String}
    (hsame : disk'.folderAt folder parts = disk.folderAt folder parts) :
    (disk'.put place (.file content)).folderAt folder parts =
      (disk.put place (.file content)).folderAt folder parts := by
  have hplace' : ¬ place.isAround disk'.here := h.here ▸ hplace
  induction parts generalizing folder with
  | nil => rfl
  | cons part parts ih =>
    rw [folderAt_cons, folderAt_cons] at hsame ⊢
    cases henter : enter folder part with
    | error e => rfl
    | ok next =>
      rw [henter, ok_bind, ok_bind] at hsame
      rw [ok_bind, ok_bind, entry?_put hplace', entry?_put hplace]
      by_cases hnext : next = place
      · rw [if_pos hnext, if_pos hnext]
        rfl
      rw [if_neg hnext, if_neg hnext]
      -- the walk stops here on both disks or on neither, and for the same reason
      cases hpass : passable (disk.entry? next) with
      | ok _ =>
        have hpass' := (h.passable_iff next).mpr hpass
        rw [hpass, hpass'] at hsame
        rw [hpass']
        exact ih hsame
      | error e =>
        cases hpass' : passable (disk'.entry? next) with
        | ok _ => cases hpass.symm.trans ((h.passable_iff next).mp hpass')
        | error e' =>
          rw [hpass, hpass'] at hsame
          cases hsame
          rfl

/-- The same file made on both disks leaves the way the same. -/
theorem SameWay.put (h : disk.SameWay disk' path) (hfolders : disk.SameFolders disk')
    (hplace : ¬ place.isAround disk.here) (content : ByteArray) :
    (disk.put place (.file content)).SameWay (disk'.put place (.file content)) path := by
  unfold SameWay at h ⊢
  rcases locate_eq path with ⟨e, he⟩ | ⟨start, parts, last, asFolder, hlocate⟩
  · rw [he, he]
  · have hsame : disk'.folderAt (start disk.here) parts =
        disk.folderAt (start disk.here) parts := by
      rw [hlocate, hlocate, hfolders.here] at h
      revert h
      cases disk.folderAt (start disk.here) parts <;>
        cases disk'.folderAt (start disk.here) parts <;> simp [Except.map]
    have hput := hfolders.folderAt_put_eq hplace content hsame
    rw [hlocate, hlocate]
    show Except.map _ (folderAt _ (start disk'.here) parts) =
      Except.map _ (folderAt _ (start disk.here) parts)
    rw [hfolders.here, hput]

/-! ## Reading and writing the same way -/

theorem SameFolders.put (h : disk.SameFolders disk') (hplace : disk.SavesTo path place)
    (content : ByteArray) :
    (disk.put place (.file content)).SameFolders (disk'.put place (.file content)) := by
  have hplace' : disk'.SavesTo path place := h.savesTo.mpr hplace
  exact (hplace.sameFolders content).symm.trans (h.trans (hplace'.sameFolders content))

theorem SameFolders.write_eq_error (h : disk.SameFolders disk') (hway : disk.SameWay disk' path)
    {e : FileError} (hwrite : disk.write path content = .error e) :
    disk'.write path content = .error e := by
  unfold write at hwrite ⊢
  rw [hway]
  cases hlocate : disk.locate path with
  | error e' =>
    rw [hlocate] at hwrite
    exact hwrite
  | ok target =>
    rw [hlocate, ok_bind] at hwrite
    rw [ok_bind]
    by_cases hasFolder : target.asFolder = true
    · rw [if_pos hasFolder] at hwrite ⊢
      exact hwrite
    · rw [if_neg hasFolder] at hwrite ⊢
      cases henter : enter target.folder target.last with
      | error e' =>
        rw [henter] at hwrite
        exact hwrite
      | ok place =>
        rw [henter, ok_bind] at hwrite
        rw [ok_bind]
        -- only a folder in the place is an error, and it is one on both disks
        cases hentry : disk.entry? place with
        | none =>
          rw [hentry] at hwrite
          cases hwrite
        | some entry =>
          rw [hentry] at hwrite
          cases entry with
          | file old => cases hwrite
          | folder =>
            rw [(h.folder_iff place).mpr hentry]
            exact hwrite

/-- What is made at one place is not seen under a path that leads elsewhere. -/
theorem text_put_of_sameWay (hplace : ¬ place.isAround disk.here)
    (hway : disk.SameWay (disk.put place (.file content)) path) (hleads : ¬ disk.Leads path place) :
    (disk.put place (.file content)).text path = disk.text path := by
  have hread : (disk.put place (.file content)).read path = disk.read path := by
    unfold Disk.read
    rw [hway]
    cases hlocate : disk.locate path with
    | error e => rfl
    | ok target =>
      cases henter : enter target.folder target.last with
      | error e =>
        simp only [ok_bind, henter]
        rfl
      | ok place' =>
        have hne : place' ≠ place := by
          rintro rfl
          exact hleads ⟨target, hlocate, henter⟩
        simp only [ok_bind, henter, entry?_put hplace, if_neg hne]
  unfold text
  rw [hread]

end SchemaNormal.Cli.Disk
