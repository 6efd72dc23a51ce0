import Mathlib
import SchemaNormal.Proofs.Cli.Failures
import SchemaNormal.Proofs.Cli.Ways
import SchemaNormal.Proofs.Format.Options

/-!
# Options of a job and options of a file

What a job asks for itself is put in place of what its config file says, and only the result counts.
So the job does what it would do with a config file that holds the result, and nothing to put in its
place.  The two runs are on two disks, which differ in that file; they stay in step up to what they
write and how they end.
-/

namespace SchemaNormal.Cli

/-- The job that leaves all its options to a config file. -/
def Job.withConfig (job : Job) (config : String) : Job :=
  { job with config := some config, passes := [], zeroName := none, digitPrefix := none }

/-! ## Two runs in step -/

/-- Two runs that started on two disks are in step: they have printed and told the same, they have
made the same files in the same order, and they would complain alike if paths lead alike. -/
structure InStep (disk disk' : Disk) (alike : Prop) (result result' : Result) : Prop where
  code : result'.code = result.code
  stdout : result'.stdout = result.stdout
  stderr : alike → result'.stderr = result.stderr
  events : result'.events = result.events
  folders : result.disk.SameFolders result'.disk
  ways : ∀ path, disk.SameWay disk' path → result.disk.SameWay result'.disk path
  written : ∃ written, result.disk = { disk with entries := written ++ disk.entries } ∧
    result'.disk = { disk' with entries := written ++ disk'.entries }

namespace InStep

variable {disk disk' : Disk} {alike : Prop} {result result' : Result}

theorem start (hfolders : disk.SameFolders disk') (events : List Event) :
    InStep disk disk' alike { disk, events } { disk := disk', events } where
  code := rfl
  stdout := rfl
  stderr _ := rfl
  events := rfl
  folders := hfolders
  ways _ h := h
  written := ⟨[], rfl, rfl⟩

/-- Both runs end with a complaint before they have done anything. -/
theorem stopped (hfolders : disk.SameFolders disk') {complaint complaint' : String}
    (h : alike → complaint' = complaint) :
    InStep disk disk' alike { code := 1, stderr := complaint, disk }
      { code := 1, stderr := complaint', disk := disk' } where
  code := rfl
  stdout := rfl
  stderr := h
  events := rfl
  folders := hfolders
  ways _ h := h
  written := ⟨[], rfl, rfl⟩

theorem print (h : InStep disk disk' alike result result') (text : String) :
    InStep disk disk' alike { result with stdout := result.stdout ++ text }
      { result' with stdout := result'.stdout ++ text } :=
  { h with stdout := congrArg (· ++ text) h.stdout }

theorem finish (h : InStep disk disk' alike result result') (code : UInt32) :
    InStep disk disk' alike { result with code } { result' with code } :=
  { h with code := rfl }

/-- A file is made at one place by both runs, or by neither. -/
theorem put (h : InStep disk disk' alike result result') {path : String} {place : Place}
    (hplace : result.disk.SavesTo path place) (content : ByteArray) :
    InStep disk disk' alike { result with disk := result.disk.put place (.file content) }
      { result' with disk := result'.disk.put place (.file content) } := by
  obtain ⟨written, hwritten, hwritten'⟩ := h.written
  refine { h with folders := h.folders.put hplace content, ways := ?_, written := ?_ }
  · intro path hway
    exact (h.ways path hway).put h.folders hplace.not_isAround content
  · refine ⟨(place, .file content) :: written, ?_, ?_⟩
    · exact congrArg (Disk.put · place (.file content)) hwritten
    · exact congrArg (Disk.put · place (.file content)) hwritten'

theorem writeFile (h : InStep disk disk' alike result result') {path : String}
    {layout : Json.Layout} {value : Json} {next : Plan} (hway : alike → disk.SameWay disk' path)
    (hnext : ∀ {result result'}, InStep disk disk' alike result result' →
      InStep disk disk' alike (next.onDisk result) (next.onDisk result')) :
    InStep disk disk' alike ((Cli.writeFile path layout value next).onDisk result)
      ((Cli.writeFile path layout value next).onDisk result') := by
  by_cases hcreate : result.disk.Creatable path
  · obtain ⟨place, hplace⟩ := hcreate
    have hplace' : result'.disk.SavesTo path place := h.folders.savesTo.mpr hplace
    rw [onDisk_writeFile hplace, onDisk_writeFile hplace']
    exact hnext (h.put hplace _)
  · have hcreate' : ¬ result'.disk.Creatable path := h.folders.creatable.not.mpr hcreate
    let content := (value.render layout ++ "\n").toUTF8
    obtain ⟨e, hwrite⟩ := Disk.exists_write_eq_error hcreate content
    obtain ⟨e', hwrite'⟩ := Disk.exists_write_eq_error hcreate' content
    rw [onDisk_writeFile_of_error hwrite, onDisk_writeFile_of_error hwrite']
    refine { h with code := rfl, stderr := fun halike => ?_ }
    -- the same way gives the same error
    have hsame := h.folders.write_eq_error (h.ways path (hway halike)) hwrite
    cases hsame.symm.trans hwrite'
    exact congrArg (· ++ _) (h.stderr halike)

theorem writeOutput (h : InStep disk disk' alike result result') {output : Option String}
    {layout : Json.Layout} {value : Json} {next : Plan}
    (hway : ∀ path ∈ output, alike → disk.SameWay disk' path)
    (hnext : ∀ {result result'}, InStep disk disk' alike result result' →
      InStep disk disk' alike (next.onDisk result) (next.onDisk result')) :
    InStep disk disk' alike ((Cli.writeOutput output layout value next).onDisk result)
      ((Cli.writeOutput output layout value next).onDisk result') := by
  cases output with
  | none => exact hnext (h.print _)
  | some path => exact h.writeFile (hway path rfl) hnext

theorem deliver (h : InStep disk disk' alike result result') (job : Job) (outcome : Outcome)
    (houtput : ∀ path ∈ job.output, alike → disk.SameWay disk' path)
    (hreport : ∀ path ∈ job.report, alike → disk.SameWay disk' path) :
    InStep disk disk' alike ((job.deliver outcome).onDisk result)
      ((job.deliver outcome).onDisk result') := by
  apply h.writeOutput houtput
  intro result result' h
  cases hpath : job.report with
  | none => exact h.finish 0
  | some path => exact h.writeFile (hreport path hpath) fun h => h.finish 0

/-- The runs leave the same at every place that either has not differed or has been written to. -/
theorem entry?_eq (h : InStep disk disk' alike result result') : ∃ written : List (Place × Entry),
    result.disk.entries = written ++ disk.entries ∧
    result'.disk.entries = written ++ disk'.entries ∧
    ∀ place, disk'.entry? place = disk.entry? place ∨ place ∈ written.map (·.1) →
      result'.disk.entry? place = result.disk.entry? place := by
  obtain ⟨written, hwritten, hwritten'⟩ := h.written
  refine ⟨written, congrArg Disk.entries hwritten, congrArg Disk.entries hwritten',
    fun place hplace => ?_⟩
  have hhere : disk'.here = disk.here := by
    have hhere := h.folders.here
    rw [hwritten, hwritten'] at hhere
    exact hhere
  rw [hwritten, hwritten']
  unfold Disk.entry? at hplace ⊢
  dsimp only
  rw [hhere, List.lookup_append, List.lookup_append]
  rw [hhere] at hplace
  by_cases haround : place.isAround disk.here = true
  · rw [if_pos haround, if_pos haround]
  · rw [if_neg haround, if_neg haround] at hplace ⊢
    rcases hplace with hsame | hmem
    · rw [hsame]
    · cases hlookup : written.lookup place with
      | some entry => rfl
      | none =>
        obtain ⟨entry, hentry, rfl⟩ := List.mem_map.mp hmem
        have hne := List.lookup_eq_none_iff.mp hlookup entry hentry
        rw [bne_self_eq_false] at hne
        cases hne

end InStep

/-! ## Up to the outcome -/

section Prepare

variable {job : Job} {disk disk' : Disk} {base : Options} {config : String} {alike : Prop}

/-- With its input read, a job is refused exactly if its own options, put in place of those of its
config file, are not accepted. -/
theorem Job.refused_iff_of_source {f : File} (hsource : job.source disk = .ok f)
    (hbase : job.base disk = .ok base) :
    job.Refused disk ↔ (job.options base).validate ≠ .ok () := by
  constructor
  · intro h hvalid
    have hprepare : job.prepare disk = .ok _ :=
      Job.prepare_eq_ok_iff.mpr ⟨f, base, hsource, hbase, normalize_of_valid hvalid f⟩
    exact h.prepare_ne_ok _ hprepare
  · intro h
    cases hvalid : (job.options base).validate with
    | error failure => exact .invalid hbase hvalid
    | ok _ => exact absurd hvalid h

/-- The complaint of a job whose options are not accepted tells the value that is not. -/
theorem Job.onDisk_of_invalid {f : File} {failure : Failure} (verbose : Bool)
    (hsource : job.source disk = .ok f) (hbase : job.base disk = .ok base)
    (hvalid : (job.options base).validate = .error failure) :
    job.onDisk verbose disk =
      { code := 1, stderr := errorText "Invalid options" [failure.message], disk } := by
  have hprepare : job.prepare disk = .error (errorText "Invalid options" [failure.message]) := by
    unfold Job.prepare normalize
    rw [hsource, hbase, ok_bind, ok_bind, hvalid]
    rfl
  rw [job.onDisk_eq, hprepare]

/-- A job without options of its own keeps those of its config file. -/
theorem Job.options_withConfig (job : Job) (config : String) (base : Options) :
    (job.withConfig config).options base = base :=
  rfl

/-- A job comes to the same outcome, or the same complaint, from a config file that holds its merged
options, if it reads the same input. -/
theorem Job.prepare_withConfig (hbase : job.base disk = .ok base)
    (hconfig : (job.withConfig config).base disk' = .ok (job.options base))
    (hinput : disk'.text job.input = disk.text job.input) :
    (job.withConfig config).prepare disk' = job.prepare disk := by
  have hsource : (job.withConfig config).source disk' = job.source disk := by
    have hsame : (job.withConfig config).input = job.input := rfl
    unfold Job.source fileText
    rw [hsame, hinput]
  unfold Job.prepare
  rw [hsource, hbase, hconfig]
  simp only [ok_bind, Job.options_withConfig]

theorem Job.exists_prepare_eq_error {e : FileError} (h : disk.text job.input = .error e) :
    ∃ complaint, job.prepare disk = .error complaint := by
  unfold Job.prepare Job.source fileText
  rw [h]
  exact ⟨_, rfl⟩

/-- The runs of a job with its own options and with a config file in their place stay in step. -/
theorem Job.inStep_withConfig (verbose : Bool) (hbase : job.base disk = .ok base)
    (hconfig : (job.withConfig config).base disk' = .ok (job.options base))
    (hfolders : disk.SameFolders disk')
    (hinput : disk.SameWay disk' job.input → disk'.text job.input = disk.text job.input)
    (hways : alike → ∀ path, path = job.input ∨ path ∈ job.output ∨ path ∈ job.report →
      disk.SameWay disk' path) :
    InStep disk disk' alike (job.onDisk verbose disk)
      ((job.withConfig config).onDisk verbose disk') := by
  rw [job.onDisk_eq, (job.withConfig config).onDisk_eq]
  by_cases hway : disk.SameWay disk' job.input
  · rw [Job.prepare_withConfig hbase hconfig (hinput hway)]
    cases job.prepare disk with
    | error complaint =>
      exact .stopped hfolders fun _ => rfl
    | ok outcome =>
      apply (InStep.start hfolders _).deliver job outcome
      · exact fun path hpath halike => hways halike path (Or.inr (Or.inl hpath))
      · exact fun path hpath halike => hways halike path (Or.inr (Or.inr hpath))
  · -- the input is on neither disk, so both runs end before they have done anything
    obtain ⟨e, htext⟩ := hfolders.text_eq_error hway
    obtain ⟨e', htext'⟩ := hfolders.symm.text_eq_error fun h => hway h.symm
    obtain ⟨complaint, hprepare⟩ := Job.exists_prepare_eq_error htext
    obtain ⟨complaint', hprepare'⟩ : ∃ complaint,
        (job.withConfig config).prepare disk' = .error complaint :=
      Job.exists_prepare_eq_error htext'
    rw [hprepare, hprepare']
    apply InStep.stopped hfolders
    intro halike
    exact absurd (hways halike job.input (Or.inl rfl)) hway

end Prepare

/-! ## Own options against a config file -/

/-- A job with options of its own, and with a config file or none, does what it does without them
when a config file holds the merged options: it ends with the same code, prints and tells the same,
and makes the same files.  It complains in the same words, as long as a new config file does not
stand in the way of another path.  Whether it is refused for its options hangs on the merged ones
alone. -/
theorem Job.onDisk_withConfig {job : Job} {disk : Disk} {base merged : Options} {config : String}
    {place : Place} (verbose : Bool) (layout : Json.Layout) (hbase : job.base disk = .ok base)
    (hmerged : job.Merges base merged) (hplace : disk.SavesTo config place)
    (hinput : ¬ disk.Leads job.input place) :
    let disk' := disk.put place (.file (merged.toJson.render layout).toUTF8)
    let result := job.onDisk verbose disk
    let result' := (job.withConfig config).onDisk verbose disk'
    result'.code = result.code ∧ result'.stdout = result.stdout ∧ result'.events = result.events ∧
    ((disk.entry? place = none → ∀ path, path = job.input ∨ path ∈ job.output ∨ path ∈ job.report →
      disk.SameWay disk' path) → result'.stderr = result.stderr) ∧
    (∃ written : List (Place × Entry), result.disk.entries = written ++ disk.entries ∧
      result'.disk.entries = written ++ disk'.entries ∧
      ∀ other, other ≠ place ∨ other ∈ written.map (·.1) →
        result'.disk.entry? other = result.disk.entry? other) ∧
    (∀ f, job.source disk = .ok f → (job.Refused disk ↔ merged.validate ≠ .ok ()) ∧
      ∀ failure, merged.validate = .error failure → result =
        { code := 1, stderr := errorText "Invalid options" [failure.message], disk }) ∧
    (job.config = none → base = {}) ∧
    ∀ path ∈ job.config, ∀ text v, disk.text path = .ok text → v.SpelledBy text →
      base.Described v := by
  cases hmerged.unique (job.merges_options base)
  intro disk' result result'
  have hfolders : disk.SameFolders disk' := hplace.sameFolders _
  have haround : ¬ place.isAround disk.here := hplace.not_isAround
  have hconfig : (job.withConfig config).base disk' = .ok (job.options base) :=
    (Job.base_of_some_eq_ok_iff rfl).mpr
      ⟨_, hplace.text_put_self _, Options.ofText_render_toJson (job.options base) layout⟩
  -- a config file that was there before leaves every path its way
  have hways : (disk.entry? place = none → ∀ path,
      path = job.input ∨ path ∈ job.output ∨ path ∈ job.report → disk.SameWay disk' path) →
      ∀ path, path = job.input ∨ path ∈ job.output ∨ path ∈ job.report →
        disk.SameWay disk' path := by
    intro halike path hpath
    cases hentry : disk.entry? place with
    | none => exact halike hentry path hpath
    | some entry =>
      cases entry with
      | file old => exact Disk.sameWay_put_of_file haround hentry _ path
      | folder =>
        obtain ⟨-, -, -, -, hfolder⟩ := hplace
        exact absurd hentry hfolder
  have hstep := Job.inStep_withConfig verbose hbase hconfig hfolders
    (fun hway => Disk.text_put_of_sameWay haround hway hinput) hways
  refine ⟨hstep.code, hstep.stdout, hstep.events, hstep.stderr, ?_, ?_, ?_, ?_⟩
  · obtain ⟨written, hwritten, hwritten', hsame⟩ := hstep.entry?_eq
    refine ⟨written, hwritten, hwritten', fun other hother => hsame other ?_⟩
    apply hother.imp_left
    intro hne
    rw [Disk.entry?_put haround, if_neg hne]
  · intro f hf
    exact ⟨Job.refused_iff_of_source hf hbase, fun failure hinvalid =>
      Job.onDisk_of_invalid verbose hf hbase hinvalid⟩
  · intro hnone
    exact (Except.ok.inj ((Job.base_of_none hnone).symm.trans hbase)).symm
  · intro path hpath text v htext hspelled
    obtain ⟨text', htext', hread⟩ := (Job.base_of_some_eq_ok_iff hpath).mp hbase
    cases htext.symm.trans htext'
    exact described_of_ofText (Options.read_decides Json.levels) hspelled hread

/-! ## A digit prefix put in the place of another -/

/-- A disk with an input `i` and a config file `c` whose digit prefix is not accepted. -/
def configured : Disk where
  entries :=
    [(⟨["work", "i"]⟩, .file ("\x7b\"enums\":[\x7b\"name\":\"E\"," ++
        "\"fields\":[\x7b\"name\":\"1\",\"index\":1\x7d]\x7d]\x7d").toUTF8),
      (⟨["work", "c"]⟩, .file ("\x7b\"digit-prefix\":\"9\"," ++
        "\"passes\":[\"complete-zero\",\"prefix-digits\"]\x7d").toUTF8)]

theorem configured_savesTo_c : configured.SavesTo "c" ⟨["work", "c"]⟩ :=
  ⟨⟨⟨["work"]⟩, "c", false⟩, by cbv, rfl, by cbv, nofun⟩

theorem configured_savesTo_i : configured.SavesTo "i" ⟨["work", "i"]⟩ :=
  ⟨⟨⟨["work"]⟩, "i", false⟩, by cbv, rfl, by cbv, nofun⟩

theorem configured_savesTo_o : configured.SavesTo "o" ⟨["work", "o"]⟩ :=
  ⟨⟨⟨["work"]⟩, "o", false⟩, by cbv, rfl, by cbv, nofun⟩

/-- The prefix of the config file is not accepted, that of the job is, and the job succeeds.  The
same file with an empty prefix on the command line stops it. -/
theorem configured_withConfig :
    let job : Job :=
      { input := "i", output := some "o", config := some "c", passes := [.prefixDigits],
        digitPrefix := some "N_", layout := .compact }
    let spoiled : Job := { job with digitPrefix := some "" }
    let base : Options := { passes := [.completeZero, .prefixDigits], digitPrefix := "9" }
    let place : Place := ⟨["work", "c"]⟩
    let output : Place := ⟨["work", "o"]⟩
    let merged : Options := { passes := [.prefixDigits], digitPrefix := "N_" }
    let emptied : Options := { passes := [.prefixDigits], digitPrefix := "" }
    let holding := fun options : Options =>
      configured.put place (.file (options.toJson.render .pretty).toUTF8)
    job.base configured = .ok base ∧ job.Merges base merged ∧ spoiled.Merges base emptied ∧
    configured.SavesTo "c" place ∧ ¬ configured.Leads "i" place ∧ base.validate ≠ .ok () ∧
    let result := job.onDisk false configured
    let result' := (job.withConfig "c").onDisk false (holding merged)
    result.code = 0 ∧ result'.code = 0 ∧ result'.stderr = result.stderr ∧
    result'.disk.entry? output = some (.file ("\x7b\"enums\":[\x7b\"name\":\"E\"," ++
      "\"fields\":[\x7b\"name\":\"N_1\",\"index\":1\x7d]\x7d]\x7d" ++ "\n").toUTF8) ∧
    let stopped := spoiled.onDisk false configured
    let stopped' := (spoiled.withConfig "c").onDisk false (holding emptied)
    spoiled.Refused configured ∧ stopped.code = 1 ∧ stopped'.code = 1 ∧
    stopped'.stderr = stopped.stderr ∧
    stopped'.stderr =
      errorText "Invalid options" ["Invalid option digit-prefix: must not be empty"] := by
  intro job spoiled base place output merged emptied holding
  have hinput : configured.text "i" = .ok ("\x7b\"enums\":[\x7b\"name\":\"E\"," ++
      "\"fields\":[\x7b\"name\":\"1\",\"index\":1\x7d]\x7d]\x7d") := by cbv
  have hconfig : configured.text "c" = .ok ("\x7b\"digit-prefix\":\"9\"," ++
      "\"passes\":[\"complete-zero\",\"prefix-digits\"]\x7d") := by cbv
  let f : File := { enums := [{ name := "E", values := [⟨"1", 1⟩] }] }
  have hsource : ∀ job : Job, job.input = "i" → job.source configured = .ok f := by
    intro job hpath
    exact Job.source_eq_ok_iff.mpr ⟨_, hpath ▸ hinput, by decide +kernel⟩
  have hbase : ∀ job : Job, job.config = some "c" → job.base configured = .ok base := by
    intro job hpath
    exact (Job.base_of_some_eq_ok_iff hpath).mpr ⟨_, hconfig, by decide +kernel⟩
  have hleads : ¬ configured.Leads "i" place := by
    intro h
    have heq := h.unique configured_savesTo_i.leads
    revert heq
    decide
  have hmerged : job.Merges base merged := job.merges_options base
  have hemptied : spoiled.Merges base emptied := spoiled.merges_options base
  -- the config file was there before
  have hthere : configured.entry? place ≠ none := by
    intro h
    cases h
  have hvalid : (job.options base).validate = .ok () := by decide +kernel
  have hinvalid : emptied.validate =
      .error (.invalidOption "digit-prefix" "must not be empty") := by decide +kernel
  obtain ⟨hcode, -, -, hstderr, ⟨written, -, -, hentries⟩, -⟩ :=
    Job.onDisk_withConfig false .pretty (hbase job rfl) hmerged configured_savesTo_c hleads
  obtain ⟨hcode', -, -, hstderr', -, hvalidity, -⟩ :=
    Job.onDisk_withConfig false .pretty (hbase spoiled rfl) hemptied configured_savesTo_c hleads
  obtain ⟨hrefused, hstopped⟩ := hvalidity f (hsource spoiled rfl)
  have hstopped := hstopped _ hinvalid
  have hspoiled : spoiled.Refused configured := by
    rw [hrefused, hinvalid]
    intro h
    cases h
  -- the job with its prefix runs to its end
  have hprepare : ∃ outcome, job.prepare configured = .ok outcome ∧
      outcome.file.toJson.render job.layout = "\x7b\"enums\":[\x7b\"name\":\"E\"," ++
        "\"fields\":[\x7b\"name\":\"N_1\",\"index\":1\x7d]\x7d]\x7d" :=
    ⟨_, Job.prepare_eq_ok_iff.mpr ⟨f, base, hsource job rfl, hbase job rfl,
      normalize_of_valid hvalid f⟩, by decide +kernel⟩
  obtain ⟨outcome, houtcome, htext⟩ := hprepare
  have hresult : job.onDisk false configured = _ :=
    Job.onDisk_of_putsOut houtcome (.saved rfl configured_savesTo_o)
  have hzero : (job.onDisk false configured).code = 0 := by
    rw [hresult]
    rfl
  have hmade : Disk.entry? (job.onDisk false configured).disk output =
      some (.file (outcome.file.toJson.render job.layout ++ "\n").toUTF8) := by
    rw [hresult]
    exact (Disk.entry?_put configured_savesTo_o.not_isAround _ _).trans (if_pos rfl)
  rw [htext] at hmade
  have hone : (spoiled.onDisk false configured).code = 1 := by rw [hstopped]
  have hsame := hentries output (Or.inl (by decide))
  have htold := hstderr' fun h => absurd h hthere
  have hrejected : base.validate ≠ .ok () := by decide +kernel
  have hwords : (spoiled.onDisk false configured).stderr =
      errorText "Invalid options" ["Invalid option digit-prefix: must not be empty"] := by
    rw [hstopped]
    rfl
  exact ⟨hbase job rfl, hmerged, hemptied, configured_savesTo_c, hleads, hrejected, hzero,
    hcode.trans hzero, hstderr fun h => absurd h hthere, hsame.trans hmade, hspoiled, hone,
    hcode'.trans hone, htold, htold.trans hwords⟩

end SchemaNormal.Cli
