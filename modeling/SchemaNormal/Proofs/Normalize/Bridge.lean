import SchemaNormal.Proofs.Except
import SchemaNormal.Proofs.Format.Fits
import SchemaNormal.Proofs.Format.RoundTrip
import SchemaNormal.Proofs.Normalize.Guarantees
import SchemaNormal.Schema.Edit

/-!
# From text to text

A normalisation from text to text writes a file that may nest deeper than the one it has read: a
value that completes an enum without values brings a list of values with it.  No other step of a
pass needs more room, so that is the only way in which an output can become unreadable.
-/

namespace SchemaNormal

open Json

variable {options : Options} {room : Enum → Nat} {n : Nat}

namespace File

/-! ## Where messages stand after a pass -/

theorem stands_of_mapEnums {edit : Enum → Enum} {f : File} {k : Nat} {m : Message}
    (h : (f.mapEnums edit).Stands k m) : ∃ a, f.Stands k a ∧ a.mapEnums edit = m := by
  -- an edit of enums keeps every message in its place
  have hmem : ∀ {ms : List Message} {m : Message}, m ∈ Message.mapEnumsAll edit ms →
      ∃ a ∈ ms, a.mapEnums edit = m := by
    intro ms m hm
    rw [Message.mapEnumsAll_eq_map] at hm
    exact List.mem_map.mp hm
  induction h with
  | top hm =>
    obtain ⟨a, ha, rfl⟩ := hmem hm
    exact ⟨a, .top ha, rfl⟩
  | inner _ hm ih =>
    obtain ⟨b, hb, rfl⟩ := ih
    rw [Message.mapEnums_messages] at hm
    obtain ⟨a, ha, rfl⟩ := hmem hm
    exact ⟨a, .inner hb ha, rfl⟩

/-- Lifting takes messages upwards only. -/
theorem stands_of_liftMessages {f : File} {k : Nat} {m : Message}
    (h : f.liftMessages.file.Stands k m) :
    ∃ k' a, k ≤ k' ∧ f.Stands k' a ∧ f.stripped a = m := by
  induction h with
  | top hm =>
    obtain ⟨a, ha, rfl⟩ := exists_of_mem_liftMessages_messages hm
    obtain ⟨k', hk'⟩ := exists_stands_of_mem ha
    exact ⟨k', a, Nat.zero_le k', hk', rfl⟩
  | inner _ hm ih =>
    obtain ⟨k', b, hk, hb, rfl⟩ := ih
    rw [stripped, Message.strip_messages] at hm
    obtain ⟨a, ha, rfl⟩ := Message.mem_of_mem_stripAll hm
    exact ⟨k' + 1, a, Nat.succ_le_succ hk, .inner hb ha, rfl⟩

theorem Fits.liftMessages {f : File} (h : f.Fits room n) : f.liftMessages.file.Fits room n where
  file := h.file
  enums e he := by
    rw [liftMessages_file] at he
    exact h.enums e he
  message hm := by
    obtain ⟨k', a, hk, ha, rfl⟩ := stands_of_liftMessages hm
    have := h.message ha
    omega
  fields hm hfields := by
    obtain ⟨k', a, hk, ha, rfl⟩ := stands_of_liftMessages hm
    rw [stripped, Message.strip_fields] at hfields
    have := h.fields ha hfields
    omega
  inner hm e he := by
    obtain ⟨k', a, hk, ha, rfl⟩ := stands_of_liftMessages hm
    rw [stripped, Message.strip_enums] at he
    have := h.inner ha e he
    omega

/-- Edited enums take the room that they take after the edit. -/
theorem Fits.mapEnums {edit : Enum → Enum} {f : File} (h : f.Fits (fun e => room (edit e)) n) :
    (f.mapEnums edit).Fits room n where
  file := h.file
  enums := List.forall_mem_map.mpr h.enums
  message hm := by
    obtain ⟨a, ha, rfl⟩ := stands_of_mapEnums hm
    exact h.message ha
  fields hm hfields := by
    obtain ⟨a, ha, rfl⟩ := stands_of_mapEnums hm
    rw [Message.mapEnums_fields] at hfields
    exact h.fields ha hfields
  inner hm := by
    obtain ⟨a, ha, rfl⟩ := stands_of_mapEnums hm
    rw [Message.mapEnums_enums]
    exact List.forall_mem_map.mpr (h.inner ha)

/-! ## Room after a run -/

/-- A pass keeps the room of a file if it keeps the room of each enum. -/
theorem Fits.run {f : File} (pass : Pass)
    (hcomplete : pass = .completeZero → ∀ e, room (e.completeZero options.zeroName) ≤ room e)
    (hprefixed : ∀ e, room (e.prefixed options.digitPrefix) ≤ room e) (h : f.Fits room n) :
    (pass.run options f).file.Fits room n := by
  cases pass with
  | liftMessages => exact h.liftMessages
  | completeZero =>
    show (f.completeZero options.zeroName).file.Fits room n
    rw [completeZero_file]
    exact Fits.mapEnums (h.mono (hcomplete rfl))
  | prefixDigits =>
    show (f.prefixDigits options.digitPrefix).file.Fits room n
    rw [prefixDigits_file]
    exact Fits.mapEnums (h.mono hprefixed)

theorem Fits.foldl (passes : List Pass) {sofar : Outcome}
    (hcomplete : .completeZero ∈ passes → ∀ e, room (e.completeZero options.zeroName) ≤ room e)
    (hprefixed : ∀ e, room (e.prefixed options.digitPrefix) ≤ room e)
    (h : sofar.file.Fits room n) :
    (passes.foldl (Outcome.next options) sofar).file.Fits room n := by
  induction passes generalizing sofar with
  | nil => exact h
  | cons pass passes ih =>
    rw [List.foldl_cons]
    refine ih (fun hmem => hcomplete (List.mem_cons_of_mem pass hmem)) ?_
    exact h.run pass (fun heq => hcomplete (heq ▸ List.mem_cons_self)) hprefixed

/-- Every message that declares an enum stands inside at most so many others. -/
def EnumsWithin (limit : Nat) (f : File) : Prop :=
  ∀ k m, f.Stands k m → m.enums ≠ [] → k ≤ limit

end File

/-! ## Room that enums take -/

theorem Enum.depth_le_three (e : Enum) : e.toJson.depth ≤ 3 := by
  rw [depth_toJson]
  split <;> omega

theorem Enum.depth_of_hasZero {e : Enum} (h : e.hasZero = true) : e.toJson.depth = 3 := by
  have hvalues : e.values ≠ [] := by
    intro hnil
    rw [hasZero, hnil] at h
    cases h
  rw [depth_toJson, if_neg hvalues]

theorem Enum.depth_prefixed (digitPrefix : String) (e : Enum) :
    (e.prefixed digitPrefix).toJson.depth = e.toJson.depth := by
  rw [depth_toJson, depth_toJson]
  simp only [prefixed, List.map_eq_nil_iff]

namespace File

theorem fits_three_iff {f : File} :
    f.Fits (fun _ => 3) 127 ↔ f.Fits (fun _ => 1) 127 ∧ f.EnumsWithin 60 := by
  constructor
  · intro h
    refine ⟨h.mono fun _ => by omega, fun k m hm henums => ?_⟩
    obtain ⟨e, he⟩ := List.exists_mem_of_ne_nil m.enums henums
    have := h.inner hm e he
    omega
  · rintro ⟨h, hwithin⟩
    refine ⟨h.file, fun e he => by omega, h.message, h.fields, fun hm e he => ?_⟩
    have := hwithin _ _ hm (List.ne_nil_of_mem he)
    omega

/-- In a complete file every enum takes the room of its list of values. -/
theorem Complete.fits_iff {f : File} (h : f.Complete) :
    f.Fits (·.toJson.depth) 127 ↔ f.Fits (fun _ => 1) 127 ∧ f.EnumsWithin 60 := by
  rw [← fits_three_iff]
  refine ⟨fun hfits => ⟨hfits.file, fun e he => by omega, hfits.message, hfits.fields,
    fun hm e he => ?_⟩, fun hfits => hfits.mono Enum.depth_le_three⟩
  have hmem : e ∈ f.allEnums := mem_allEnums.mpr (Or.inr ⟨_, hm.mem_allMessages, he⟩)
  have := hfits.inner hm e he
  have := Enum.depth_of_hasZero (h e hmem)
  omega

variable {passes : List Pass} {f : File}

/-- What a run leaves fits again unless it has put values into an enum that stands too deep. -/
theorem depth_foldl_le_iff (h : f.toJson.depth ≤ 127) :
    (passes.foldl (Outcome.next options) { file := f }).file.toJson.depth ≤ 127 ↔
      (.completeZero ∈ passes →
        (passes.foldl (Outcome.next options) { file := f }).file.EnumsWithin 60) := by
  have hfits : f.Fits (·.toJson.depth) 127 := depth_toJson_le_iff_fits.mp h
  rw [depth_toJson_le_iff_fits]
  by_cases hmem : .completeZero ∈ passes
  · -- afterwards every enum has a value, so its room is known; before it takes at least a bracket
    rw [imp_iff_right hmem]
    have hcomplete : (passes.foldl (Outcome.next options) { file := f }).file.Complete :=
      (complete_foldl_iff passes { file := f }).mpr (Or.inl hmem)
    have hone : f.Fits (fun _ => 1) 127 := hfits.mono Enum.one_le_depth_toJson
    rw [hcomplete.fits_iff, and_iff_right]
    exact hone.foldl passes (fun _ _ => Nat.le_refl 1) fun _ => Nat.le_refl 1
  · -- no other pass gives an enum its first value
    refine iff_of_true ?_ fun hcontra => absurd hcontra hmem
    exact hfits.foldl passes (fun hcontra => absurd hcontra hmem) fun e =>
      (e.depth_prefixed options.digitPrefix).le

/-- No pass moves an enum further inside. -/
theorem enumsWithin_foldl (h : f.toJson.depth ≤ 127) (hwithin : f.EnumsWithin 60) :
    (passes.foldl (Outcome.next options) { file := f }).file.EnumsWithin 60 := by
  have hone : f.Fits (fun _ => 1) 127 :=
    (depth_toJson_le_iff_fits.mp h).mono Enum.one_le_depth_toJson
  have hthree : f.Fits (fun _ => 3) 127 := fits_three_iff.mpr ⟨hone, hwithin⟩
  have hrun : (passes.foldl (Outcome.next options) { file := f }).file.Fits (fun _ => 3) 127 :=
    hthree.foldl passes (fun _ _ => Nat.le_refl 3) fun _ => Nat.le_refl 3
  exact (fits_three_iff.mp hrun).2

end File

/-! ## From text to text -/

theorem normalize_eq_ok_iff {f : File} {outcome : Outcome} :
    normalize f options = .ok outcome ↔ options.validate = .ok () ∧
      outcome = options.passes.foldl (Outcome.next options) { file := f } := by
  cases hvalid : options.validate with
  | error failure =>
    unfold normalize
    rw [hvalid]
    exact ⟨nofun, nofun⟩
  | ok _ =>
    rw [normalize_of_valid hvalid, Except.ok.injEq, and_iff_right rfl, eq_comm]

theorem normalizeJson_eq_ok_iff {text out : String} :
    normalizeJson text options = .ok out ↔ ∃ f outcome, File.ofText text = .ok f ∧
      normalize f options = .ok outcome ∧ out = outcome.file.toText := by
  unfold normalizeJson
  simp only [bind_eq_ok_iff]
  constructor
  · rintro ⟨f, hf, outcome, houtcome, h⟩
    cases h
    exact ⟨f, outcome, hf, houtcome, rfl⟩
  · rintro ⟨f, outcome, hf, houtcome, rfl⟩
    exact ⟨f, hf, outcome, houtcome, rfl⟩

/-- What a normalisation writes is read back as the file it stands for, unless the passes complete
enums and one of them ends up inside more than 61 messages; then it cannot be read at all.  An input
without such an enum never gets there. -/
theorem normalizeJson_readable_iff {text out : String} (h : normalizeJson text options = .ok out) :
    ∃ f outcome, File.ofText text = .ok f ∧ normalize f options = .ok outcome ∧
      out = outcome.file.toText ∧
      (File.ofText out = .ok outcome.file ↔
        (.completeZero ∈ options.passes → outcome.file.EnumsWithin 60)) ∧
      ((∃ message, File.ofText out = .error (.unreadable message)) ↔
        ¬ (.completeZero ∈ options.passes → outcome.file.EnumsWithin 60)) ∧
      (f.EnumsWithin 60 → outcome.file.EnumsWithin 60) := by
  obtain ⟨f, outcome, hf, houtcome, rfl⟩ := normalizeJson_eq_ok_iff.mp h
  have hdepth : f.toJson.depth ≤ 127 := File.depth_le_of_ofText hf
  obtain ⟨-, rfl⟩ := normalize_eq_ok_iff.mp houtcome
  refine ⟨f, _, hf, houtcome, rfl, ?_, ?_, File.enumsWithin_foldl hdepth⟩
  · -- what is written comes back if it does not nest too deep
    exact (File.ofText_render_eq_ok_iff _ .compact).trans (File.depth_foldl_le_iff hdepth)
  · rw [← File.depth_foldl_le_iff hdepth, Nat.not_le]
    exact File.unreadable_render_iff _ .compact

/-- An enum without values inside as many messages of one name. -/
def emptyEnumWithin (messages : Nat) : File :=
  File.wrapTimes "M" (messages - 1) { messages := [{ name := "M", enums := [{ name := "E" }] }] }

/-- Inside 61 messages the enum has room for the list of its new value. -/
theorem emptyEnumWithin_readable :
    ∃ out outcome, normalizeJson (emptyEnumWithin 61).toText {} = .ok out ∧
      normalize (emptyEnumWithin 61) {} = .ok outcome ∧ out = outcome.file.toText ∧
      File.ofText out = .ok outcome.file := by
  have hdepth : (emptyEnumWithin 61).toJson.depth ≤ 127 := by decide +kernel
  have hdepth' : (Pass.all.foldl (Outcome.next {})
      { file := emptyEnumWithin 61 }).file.toJson.depth ≤ 127 := by decide +kernel
  have hread : File.ofText (emptyEnumWithin 61).toText = .ok (emptyEnumWithin 61) :=
    (File.ofText_render_eq_ok_iff _ .compact).mpr hdepth
  have hrun := @normalize_of_valid {} (by decide +kernel) (emptyEnumWithin 61)
  have h := normalizeJson_eq_ok_iff.mpr ⟨_, _, hread, hrun, rfl⟩
  obtain ⟨f, outcome, hf, houtcome, hout, hreadable, -⟩ := normalizeJson_readable_iff h
  -- what the theorem speaks of is this file and this run
  obtain rfl : f = emptyEnumWithin 61 := Except.ok.inj (hf.symm.trans hread)
  obtain rfl := Except.ok.inj (houtcome.symm.trans hrun)
  have hwithin := (File.depth_foldl_le_iff hdepth).mp hdepth'
  exact ⟨_, _, h, hrun, rfl, hreadable.mpr hwithin⟩

/-- Inside 62 messages it has not: the input is read, and the output cannot be read. -/
theorem emptyEnumWithin_unreadable :
    ∃ out message, normalizeJson (emptyEnumWithin 62).toText {} = .ok out ∧
      File.ofText out = .error (.unreadable message) := by
  have hread : File.ofText (emptyEnumWithin 62).toText = .ok (emptyEnumWithin 62) :=
    (File.ofText_render_eq_ok_iff _ .compact).mpr (by decide +kernel)
  have hrun := @normalize_of_valid {} (by decide +kernel) (emptyEnumWithin 62)
  have hdepth : levels < (Pass.all.foldl (Outcome.next {})
      { file := emptyEnumWithin 62 }).file.toJson.depth := by decide +kernel
  obtain ⟨message, hmessage⟩ := File.unreadable_render_of_lt hdepth .compact
  exact ⟨_, message, normalizeJson_eq_ok_iff.mpr ⟨_, _, hread, hrun, rfl⟩, hmessage⟩

end SchemaNormal
