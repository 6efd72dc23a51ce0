import Mathlib
import SchemaNormal.Proofs.Cli.Stages
import SchemaNormal.Proofs.Normalize.Bridge

/-!
# Failed jobs

A job that is refused, or cannot make its output, leaves the disk as it was.  A job that cannot make
its report has made its output in full.
-/

namespace SchemaNormal.Cli

variable {disk : Disk} {job : Job}

/-! ## Why a job is refused -/

/-- One of the steps before the run fails: reading or parsing the input, reading or parsing the
options, or checking them once the job has put its own in their place. -/
inductive Job.Refused (job : Job) (disk : Disk) : Prop where
  | unreadInput {e : FileError} : disk.text job.input = .error e → Refused job disk
  | unparsedInput {text : String} {failure : Failure} : disk.text job.input = .ok text →
      File.ofText text = .error failure → Refused job disk
  | unreadConfig {path : String} {e : FileError} : job.config = some path →
      disk.text path = .error e → Refused job disk
  | unparsedConfig {path text : String} {failure : Failure} : job.config = some path →
      disk.text path = .ok text → Options.ofText text = .error failure → Refused job disk
  | invalid {base : Options} {failure : Failure} : job.base disk = .ok base →
      (job.options base).validate = .error failure → Refused job disk

theorem Job.Refused.prepare_ne_ok (h : job.Refused disk) (outcome : Outcome) :
    job.prepare disk ≠ .ok outcome := by
  intro hprepare
  obtain ⟨f, base, hsource, hbase, hrun⟩ := Job.prepare_eq_ok_iff.mp hprepare
  obtain ⟨text, htext, hf⟩ := Job.source_eq_ok_iff.mp hsource
  cases h with
  | unreadInput h => cases h.symm.trans htext
  | unparsedInput h hparse =>
    cases h.symm.trans htext
    cases hparse.symm.trans hf
  | unreadConfig hconfig h =>
    obtain ⟨text', htext', -⟩ := (Job.base_of_some_eq_ok_iff hconfig).mp hbase
    cases h.symm.trans htext'
  | unparsedConfig hconfig h hparse =>
    obtain ⟨text', htext', hbase'⟩ := (Job.base_of_some_eq_ok_iff hconfig).mp hbase
    cases h.symm.trans htext'
    cases hparse.symm.trans hbase'
  | invalid h hvalid =>
    cases h.symm.trans hbase
    cases hvalid.symm.trans (normalize_eq_ok_iff.mp hrun).1

theorem Job.exists_outcome (h : ¬ job.Refused disk) :
    ∃ outcome, job.prepare disk = .ok outcome := by
  have hsource : ∃ f, job.source disk = .ok f := by
    cases htext : disk.text job.input with
    | error e => exact absurd (.unreadInput htext) h
    | ok text =>
      cases hf : File.ofText text with
      | error failure => exact absurd (.unparsedInput htext hf) h
      | ok f => exact ⟨f, Job.source_eq_ok_iff.mpr ⟨text, htext, hf⟩⟩
  have hbase : ∃ base, job.base disk = .ok base := by
    cases hconfig : job.config with
    | none => exact ⟨_, Job.base_of_none hconfig⟩
    | some path =>
      cases htext : disk.text path with
      | error e => exact absurd (.unreadConfig hconfig htext) h
      | ok text =>
        cases hbase : Options.ofText text with
        | error failure => exact absurd (.unparsedConfig hconfig htext hbase) h
        | ok base => exact ⟨base, (Job.base_of_some_eq_ok_iff hconfig).mpr ⟨text, htext, hbase⟩⟩
  obtain ⟨f, hf⟩ := hsource
  obtain ⟨base, hbase⟩ := hbase
  cases hvalid : (job.options base).validate with
  | error failure => exact absurd (.invalid hbase hvalid) h
  | ok _ => exact ⟨_, Job.prepare_eq_ok_iff.mpr ⟨f, base, hf, hbase, normalize_of_valid hvalid f⟩⟩

/-! ## What a job can change -/

theorem Job.writesOnly_deliver (job : Job) (outcome : Outcome) :
    (job.deliver outcome).WritesOnly fun path => path ∈ job.output ∨ path ∈ job.report := by
  apply writesOnly_writeOutput fun path hpath => Or.inl hpath
  show (job.reporting outcome).WritesOnly _
  unfold reporting
  cases job.report with
  | none => trivial
  | some path => exact writesOnly_writeFile (Or.inr rfl) trivial

theorem Job.changedOnlyAt_onDisk (job : Job) (verbose : Bool) (disk : Disk) :
    Disk.ChangedOnlyAt (fun path => path ∈ job.output ∨ path ∈ job.report) disk
      (job.onDisk verbose disk).disk := by
  rw [job.onDisk_eq]
  cases job.prepare disk with
  | error complaint => exact .refl _ disk
  | ok outcome => exact (job.writesOnly_deliver outcome).onDisk { disk, events := _ }

theorem Job.Refused.onDisk (h : job.Refused disk) (verbose : Bool) :
    ∃ complaint, job.onDisk verbose disk = { code := 1, stderr := complaint, disk } := by
  rw [job.onDisk_eq]
  cases hprepare : job.prepare disk with
  | error complaint => exact ⟨complaint, rfl⟩
  | ok outcome => exact absurd hprepare (h.prepare_ne_ok outcome)

theorem Job.onDisk_of_output_not_creatable {path : String} (hpath : path ∈ job.output)
    (h : ¬ disk.Creatable path) (verbose : Bool) :
    ∃ complaint events,
      job.onDisk verbose disk = { code := 1, stderr := complaint, events, disk } := by
  rw [job.onDisk_eq]
  cases job.prepare disk with
  | error complaint => exact ⟨complaint, [], rfl⟩
  | ok outcome =>
    dsimp only
    unfold deliver writeOutput
    rw [Option.mem_def.mp hpath]
    obtain ⟨complaint, hcomplaint⟩ := onDisk_writeFile_of_not_creatable { disk, events := _ } h
    exact ⟨_, _, hcomplaint⟩

theorem Job.onDisk_of_report_not_creatable {path : String} {outcome : Outcome} {verbose : Bool}
    {sofar : Result} (hpath : path ∈ job.report) (h : ¬ disk.Creatable path)
    (hprepare : job.prepare disk = .ok outcome)
    (hput : PutsOut job.output (outcome.file.toJson.render job.layout ++ "\n")
      { disk, events := if verbose then verboseEvents outcome else [] } sofar) :
    ∃ complaint, job.onDisk verbose disk =
      { sofar with code := 1, stderr := sofar.stderr ++ complaint } := by
  -- after the output the path can still not be written to
  have h' : ¬ sofar.disk.Creatable path := hput.sameFolders.creatable.not.mpr h
  rw [Job.onDisk_of_putsOut hprepare hput]
  unfold reporting
  rw [Option.mem_def.mp hpath]
  exact onDisk_writeFile_of_not_creatable sofar h'

/-- A job changes nothing but the files at the paths of its output and its report, and every path
leads where it led.  A job that is refused changes nothing at all, nor does one whose output cannot
be made; a job whose report alone cannot be made does what it does without a report, and then
fails. -/
theorem Job.onDisk_confined (job : Job) (verbose : Bool) (disk : Disk) :
    let result := job.onDisk verbose disk
    ((∀ place, (∀ path ∈ job.output, ¬ disk.SavesTo path place) →
        (∀ path ∈ job.report, ¬ disk.SavesTo path place) →
        result.disk.entry? place = disk.entry? place) ∧
      ∀ path place, result.disk.Leads path place ↔ disk.Leads path place) ∧
    (job.Refused disk → result.code = 1 ∧ result.disk = disk ∧ result.stdout = "") ∧
    (∀ path ∈ job.output, ¬ disk.Creatable path → result.code = 1 ∧ result.disk = disk) ∧
    ∀ path ∈ job.report, ¬ disk.Creatable path → ¬ job.Refused disk →
      (∀ path ∈ job.output, disk.Creatable path) →
      let alone := { job with report := none }.onDisk verbose disk
      result.code = 1 ∧ alone.code = 0 ∧ result.disk = alone.disk ∧ result.stdout = alone.stdout ∧
      ∃ outcome, job.prepare disk = .ok outcome ∧
        let text := outcome.file.toJson.render job.layout ++ "\n"
        (job.output = none → result.stdout = text) ∧
        ∀ path ∈ job.output, result.disk.text path = .ok text := by
  intro result
  have hchanged := job.changedOnlyAt_onDisk verbose disk
  refine ⟨⟨fun place houtput hreport => hchanged.entries place ?_, fun path place =>
    hchanged.folders.leads⟩, fun hrefused => ?_, fun path hpath hcreate => ?_, ?_⟩
  · rintro path (hpath | hpath)
    · exact houtput path hpath
    · exact hreport path hpath
  · obtain ⟨complaint, hresult : result = _⟩ := hrefused.onDisk verbose
    rw [hresult]
    exact ⟨rfl, rfl, rfl⟩
  · obtain ⟨complaint, events, hresult : result = _⟩ :=
      Job.onDisk_of_output_not_creatable hpath hcreate verbose
    rw [hresult]
    exact ⟨rfl, rfl⟩
  · intro path hpath hcreate hrefused houtput alone
    obtain ⟨outcome, hprepare⟩ := Job.exists_outcome hrefused
    obtain ⟨sofar, hput⟩ := exists_putsOut
      { disk, events := if verbose then verboseEvents outcome else [] } houtput
      (outcome.file.toJson.render job.layout ++ "\n")
    -- both runs come as far as the output; there the job without a report ends
    have halone : alone = { sofar with code := 0 } :=
      @Job.onDisk_of_putsOut disk { job with report := none } outcome sofar verbose hprepare hput
    obtain ⟨complaint, hresult : result = _⟩ :=
      Job.onDisk_of_report_not_creatable hpath hcreate hprepare hput
    rw [hresult, halone]
    refine ⟨rfl, rfl, rfl, rfl, outcome, hprepare, fun hnone => ?_, fun path hsome => ?_⟩
    · rw [hput.stdout_of_none hnone, String.empty_append]
    · exact hput.text_of_some hsome

/-! ## Jobs that fail -/

/-- A disk with an input `i` and nothing else. -/
def inputOnly : Disk where
  entries := [(⟨["work", "i"]⟩, .file "\x7b\x7d".toUTF8)]

theorem inputOnly_savesTo_o : inputOnly.SavesTo "o" ⟨["work", "o"]⟩ :=
  ⟨⟨⟨["work"]⟩, "o", false⟩, by cbv, rfl, by cbv, nofun⟩

/-- A missing config file stops the job, and so does an output in a folder `m` that is not there.  A
report in that folder fails after the output is complete. -/
theorem inputOnly_confined :
    let job : Job := { input := "i", output := some "o", report := some "m/r", layout := .compact }
    let refused : Job := { job with config := some "c" }
    let stuck : Job := { job with output := some "m/o" }
    let input : Place := ⟨["work", "i"]⟩
    (∀ path ∈ job.output, ¬ inputOnly.SavesTo path input) ∧
    (∀ path ∈ job.report, ¬ inputOnly.SavesTo path input) ∧
    Disk.entry? (job.onDisk false inputOnly).disk input = Disk.entry? inputOnly input ∧
    refused.Refused inputOnly ∧ (refused.onDisk false inputOnly).disk = inputOnly ∧
    (∀ path ∈ stuck.output, ¬ inputOnly.Creatable path) ∧
    (stuck.onDisk false inputOnly).disk = inputOnly ∧
    (∀ path ∈ job.report, ¬ inputOnly.Creatable path) ∧ ¬ job.Refused inputOnly ∧
    (∀ path ∈ job.output, inputOnly.Creatable path) ∧
    (job.onDisk false inputOnly).code = 1 ∧
    (job.onDisk false inputOnly).disk.text "o" = .ok "\x7b\x7d\n" := by
  intro job refused stuck input
  have houtput : ∀ path ∈ job.output, ¬ inputOnly.SavesTo path input := by
    rintro _ ⟨⟩ hplace
    have heq := hplace.unique inputOnly_savesTo_o
    revert heq
    decide
  have hreport : ∀ path ∈ job.report, ¬ inputOnly.Creatable path := by
    rintro _ ⟨⟩
    exact Disk.not_creatable_of_locate_eq_error (by cbv)
  have hstuck : ∀ path ∈ stuck.output, ¬ inputOnly.Creatable path := by
    rintro _ ⟨⟩
    exact Disk.not_creatable_of_locate_eq_error (by cbv)
  have hcreate : ∀ path ∈ job.output, inputOnly.Creatable path := by
    rintro _ ⟨⟩
    exact ⟨_, inputOnly_savesTo_o⟩
  have hrefused : refused.Refused inputOnly :=
    .unreadConfig rfl (show inputOnly.text "c" = .error .missing by cbv)
  have hread : inputOnly.text job.input = .ok "\x7b\x7d" := by cbv
  have hfile : File.ofText "\x7b\x7d" = .ok {} := by decide +kernel
  have hprepare : ∃ outcome, job.prepare inputOnly = .ok outcome ∧
      outcome.file.toJson.render job.layout = "\x7b\x7d" :=
    ⟨_, Job.prepare_eq_ok_iff.mpr ⟨_, _, Job.source_eq_ok_iff.mpr ⟨_, hread, hfile⟩,
      Job.base_of_none rfl, normalize_of_valid (by decide +kernel) _⟩, by decide +kernel⟩
  obtain ⟨outcome, houtcome, htext⟩ := hprepare
  have hready : ¬ job.Refused inputOnly := fun h => h.prepare_ne_ok _ houtcome
  obtain ⟨⟨hentries, -⟩, -, -, hlate⟩ := job.onDisk_confined false inputOnly
  obtain ⟨-, hstopped, -, -⟩ := refused.onDisk_confined false inputOnly
  obtain ⟨-, -, hunmade, -⟩ := stuck.onDisk_confined false inputOnly
  obtain ⟨hcode, -, -, -, outcome', houtcome', -, hout⟩ :=
    hlate "m/r" rfl (hreport "m/r" rfl) hready hcreate
  cases houtcome.symm.trans houtcome'
  rw [htext] at hout
  have hreport' : ∀ path ∈ job.report, ¬ inputOnly.SavesTo path input := fun path hpath hplace =>
    hreport path hpath ⟨input, hplace⟩
  exact ⟨houtput, hreport', hentries input houtput hreport', hrefused, (hstopped hrefused).2.1,
    hstuck, (hunmade "m/o" rfl (hstuck "m/o" rfl)).2, hreport, hready, hcreate, hcode, hout "o" rfl⟩

end SchemaNormal.Cli
