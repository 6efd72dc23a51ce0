import Mathlib
import SchemaNormal.Proofs.Cli.Stages
import SchemaNormal.Proofs.Format.Report
import SchemaNormal.Proofs.Json.Blanks
import SchemaNormal.Proofs.Normalize.Bridge

/-!
# Jobs and the library

A job on files does what a normalisation from text to text does with the text of its input, under
the options of its config file with its own in their place.  All that it needs has been read before
it writes, so it may well write to the files that it has read.
-/

namespace SchemaNormal.Cli

variable {disk : Disk} {job : Job} {outcome : Outcome}

/-- A job whose outcome is there and whose files can be made succeeds and leaves both in full. -/
theorem Job.onDisk_of_creatable (verbose : Bool) (h : job.prepare disk = .ok outcome)
    (houtput : ∀ path ∈ job.output, disk.Creatable path)
    (hreport : ∀ path ∈ job.report, disk.Creatable path)
    (hother : ∀ path ∈ job.output, ∀ path' ∈ job.report, ∀ place,
      disk.SavesTo path place → ¬ disk.SavesTo path' place) :
    let result := job.onDisk verbose disk
    let text := outcome.file.toJson.render job.layout ++ "\n"
    result.code = 0 ∧ (job.output = none → result.stdout = text) ∧
      (∀ path ∈ job.output, result.disk.text path = .ok text) ∧
      ∀ path ∈ job.report,
        result.disk.text path = .ok (outcome.report.toJson.render job.layout ++ "\n") := by
  intro result text
  obtain ⟨sofar, hput⟩ := exists_putsOut
    { disk, events := if verbose then verboseEvents outcome else [] } houtput text
  have hresult : result = (job.reporting outcome).onDisk sofar := Job.onDisk_of_putsOut h hput
  have hstdout : job.output = none → sofar.stdout = text := fun hnone => by
    rw [hput.stdout_of_none hnone, String.empty_append]
  unfold reporting at hresult
  cases hpath : job.report with
  | none =>
    rw [hpath] at hresult
    rw [hresult]
    exact ⟨rfl, hstdout, fun path hsome => hput.text_of_some hsome, nofun⟩
  | some path' =>
    obtain ⟨place', hplace'⟩ := hreport path' hpath
    have hsaves' : sofar.disk.SavesTo path' place' := hput.sameFolders.savesTo.mpr hplace'
    rw [hpath] at hresult
    rw [hresult, onDisk_writeFile hsaves']
    refine ⟨rfl, hstdout, fun path hsome => ?_, fun path hsome => ?_⟩
    · obtain ⟨place, hplace⟩ := hput.exists_savesTo hsome
      have hne : place ≠ place' := by
        rintro rfl
        exact hother path hsome path' hpath place hplace hplace'
      have hsaves : sofar.disk.SavesTo path place := hput.sameFolders.savesTo.mpr hplace
      exact hsaves.text_put_of_ne hsaves' hne (hput.entry?_of_some hsome hplace) _
    · cases hsome
      exact hsaves'.text_put_self _

/-- With its input and its options read and its files creatable and distinct, a job succeeds exactly
if the normalisation from text to text does, under the merged options.  Then it leaves the same
text, up to layout, and for its report a text in the same layout that is read as the report of the
run. -/
theorem Job.onDisk_agrees {text : String} {base merged : Options} (verbose : Bool)
    (hinput : disk.text job.input = .ok text) (hbase : job.base disk = .ok base)
    (hmerged : job.Merges base merged)
    (houtput : ∀ path ∈ job.output, disk.Creatable path)
    (hreport : ∀ path ∈ job.report, disk.Creatable path)
    (hother : ∀ path ∈ job.output, ∀ path' ∈ job.report, ∀ place,
      disk.SavesTo path place → ¬ disk.SavesTo path' place) :
    let result := job.onDisk verbose disk
    (result.code = 0 ↔ ∃ s, normalizeJson text merged = .ok s) ∧
    ∀ s, normalizeJson text merged = .ok s → ∃ f outcome out told,
      File.ofText text = .ok f ∧ normalize f merged = .ok outcome ∧
      (job.output = none → result.stdout = out) ∧
      (∀ path ∈ job.output, result.disk.text path = .ok out) ∧
      (job.layout = .compact → out = s ++ "\n") ∧
      (job.layout = .pretty → (∃ line, out = line ++ "\n") ∧ Json.withoutBlanks out = s) ∧
      (∀ path ∈ job.report, result.disk.text path = .ok told) ∧
      told = outcome.report.toJson.render job.layout ++ "\n" ∧
      ofText Report.read told = .ok outcome.report := by
  cases hmerged.unique (job.merges_options base)
  intro result
  have hprepare : ∀ f outcome, File.ofText text = .ok f →
      normalize f (job.options base) = .ok outcome → job.prepare disk = .ok outcome :=
    fun f outcome hf hrun => Job.prepare_eq_ok_iff.mpr
      ⟨f, base, Job.source_eq_ok_iff.mpr ⟨text, hinput, hf⟩, hbase, hrun⟩
  refine ⟨⟨fun hcode => ?_, fun ⟨s, hs⟩ => ?_⟩, fun s hs => ?_⟩
  · cases hprepared : job.prepare disk with
    | error complaint =>
      have hresult : result = _ := job.onDisk_eq verbose disk
      rw [hresult, hprepared] at hcode
      cases hcode
    | ok outcome =>
      obtain ⟨f, base', hsource, hbase', hrun⟩ := Job.prepare_eq_ok_iff.mp hprepared
      obtain ⟨text', htext', hf⟩ := Job.source_eq_ok_iff.mp hsource
      cases hinput.symm.trans htext'
      cases hbase.symm.trans hbase'
      exact ⟨_, normalizeJson_eq_ok_iff.mpr ⟨f, outcome, hf, hrun, rfl⟩⟩
  · obtain ⟨f, outcome, hf, hrun, -⟩ := normalizeJson_eq_ok_iff.mp hs
    exact (Job.onDisk_of_creatable verbose (hprepare f outcome hf hrun) houtput hreport hother).1
  · obtain ⟨f, outcome, hf, hrun, rfl⟩ := normalizeJson_eq_ok_iff.mp hs
    obtain ⟨-, hstdout, hout, htold⟩ :=
      Job.onDisk_of_creatable verbose (hprepare f outcome hf hrun) houtput hreport hother
    have hread := outcome.report.ofText_render_newline job.layout
    refine ⟨f, outcome, _, _, hf, hrun, hstdout, hout, fun hlayout => ?_, fun hlayout => ?_,
      htold, rfl, hread⟩
    · rw [hlayout]
      rfl
    · rw [hlayout]
      exact ⟨⟨_, rfl⟩, Json.withoutBlanks_pretty _ (Json.blank_newline 0)⟩

/-! ## A job in place -/

/-- A disk with an input `i` and a config file `c` in the working folder `w`.  The digit prefix of
the config file is not accepted. -/
def inPlace : Disk where
  here := ⟨["w"]⟩
  entries :=
    [(⟨["w", "i"]⟩, .file ("\x7b\"enums\":[\x7b\"name\":\"E\"," ++
        "\"fields\":[\x7b\"name\":\"1\",\"index\":1\x7d]\x7d]\x7d").toUTF8),
      (⟨["w", "c"]⟩, .file ("\x7b\"zero-value-name\":\"Z\"," ++
        "\"digit-prefix\":\"9\"\x7d").toUTF8)]

theorem inPlace_leads_i : inPlace.Leads "i" ⟨["w", "i"]⟩ :=
  ⟨⟨⟨["w"]⟩, "i", false⟩, by cbv, by cbv⟩

theorem inPlace_savesTo_w_i : inPlace.SavesTo "/w/i" ⟨["w", "i"]⟩ :=
  ⟨⟨⟨["w"]⟩, "i", false⟩, by cbv, rfl, by cbv, nofun⟩

theorem inPlace_savesTo_c : inPlace.SavesTo "c" ⟨["w", "c"]⟩ :=
  ⟨⟨⟨["w"]⟩, "c", false⟩, by cbv, rfl, by cbv, nofun⟩

theorem inPlace_base {job : Job} (hpath : job.config = some "c") :
    job.base inPlace = .ok { zeroName := "Z", digitPrefix := "9" } := by
  have htext : inPlace.text "c" =
      .ok "\x7b\"zero-value-name\":\"Z\",\"digit-prefix\":\"9\"\x7d" := by cbv
  exact (Job.base_of_some_eq_ok_iff hpath).mpr ⟨_, htext, by decide +kernel⟩

/-- The output takes the place of the input, to which it comes from the root, and the report takes
that of the config file.  Without a path for its output the job prints it. -/
theorem inPlace_agrees :
    let job : Job :=
      { input := "i", output := some "/w/i", report := some "c", config := some "c",
        passes := [.prefixDigits, .completeZero], digitPrefix := some "N_", layout := .compact }
    let printing : Job := { job with output := none, layout := .pretty }
    let text := "\x7b\"enums\":[\x7b\"name\":\"E\"," ++
      "\"fields\":[\x7b\"name\":\"1\",\"index\":1\x7d]\x7d]\x7d"
    let text' := "\x7b\"enums\":[\x7b\"name\":\"E\",\"fields\":[" ++
      "\x7b\"name\":\"Z\",\"index\":0\x7d,\x7b\"name\":\"N_1\",\"index\":1\x7d]\x7d]\x7d"
    let told := "\x7b\"rewrites\":[" ++
      "\x7b\"type\":\"enum_value_renamed\",\"path\":\"E\",\"from\":\"1\",\"to\":\"N_1\"\x7d," ++
      "\x7b\"type\":\"zero_value_inserted\",\"path\":\"E\",\"name\":\"Z\"\x7d]\x7d\n"
    let report : Report := ⟨[.valueRenamed "E" "1" "N_1", .zeroInserted "E" "Z"]⟩
    let base : Options := { zeroName := "Z", digitPrefix := "9" }
    let merged : Options :=
      { passes := [.prefixDigits, .completeZero], zeroName := "Z", digitPrefix := "N_" }
    let place : Place := ⟨["w", "i"]⟩
    inPlace.Leads job.input place ∧ inPlace.SavesTo "/w/i" place ∧
    inPlace.text job.input = .ok text ∧ job.base inPlace = .ok base ∧ job.Merges base merged ∧
    (∀ path ∈ job.output, inPlace.Creatable path) ∧
    (∀ path ∈ job.report, inPlace.Creatable path) ∧
    (∀ path ∈ job.output, ∀ path' ∈ job.report, ∀ place,
      inPlace.SavesTo path place → ¬ inPlace.SavesTo path' place) ∧
    let result := job.onDisk false inPlace
    result.code = 0 ∧ result.disk.text "/w/i" = .ok (text' ++ "\n") ∧
    result.disk.text "c" = .ok told ∧ ofText Report.read told = .ok report ∧
    let printed := printing.onDisk false inPlace
    printed.code = 0 ∧ Json.withoutBlanks printed.stdout = text' := by
  intro job printing text text' told report base merged place
  have hinput : inPlace.text "i" = .ok text := by cbv
  have hmerged : job.Merges base merged := job.merges_options base
  have hmerged' : printing.Merges base merged := printing.merges_options base
  have houtput : ∀ path ∈ job.output, inPlace.Creatable path := by
    rintro _ ⟨⟩
    exact ⟨_, inPlace_savesTo_w_i⟩
  have hreport : ∀ path ∈ job.report, inPlace.Creatable path := by
    rintro _ ⟨⟩
    exact ⟨_, inPlace_savesTo_c⟩
  have hother : ∀ path ∈ job.output, ∀ path' ∈ job.report, ∀ place,
      inPlace.SavesTo path place → ¬ inPlace.SavesTo path' place := by
    rintro _ ⟨⟩ _ ⟨⟩ place hplace hplace'
    have heq := (hplace.unique inPlace_savesTo_w_i).symm.trans (hplace'.unique inPlace_savesTo_c)
    revert heq
    decide
  have hrun : normalizeJson text merged = .ok text' := by decide +kernel
  have hread : File.ofText text = .ok { enums := [{ name := "E", values := [⟨"1", 1⟩] }] } := by
    decide +kernel
  obtain ⟨hcode, hresult⟩ :=
    Job.onDisk_agrees false hinput (inPlace_base rfl) hmerged houtput hreport hother
  obtain ⟨f, outcome, out, written, hf, houtcome, -, hout, hcompact, -, hwritten, heq, hback⟩ :=
    hresult text' hrun
  have houtput' : ∀ path ∈ printing.output, inPlace.Creatable path := by
    rintro _ ⟨⟩
  have hother' : ∀ path ∈ printing.output, ∀ path' ∈ printing.report, ∀ place,
      inPlace.SavesTo path place → ¬ inPlace.SavesTo path' place := by
    rintro _ ⟨⟩
  obtain ⟨hcode', hresult'⟩ := @Job.onDisk_agrees inPlace printing text base merged false hinput
    (inPlace_base rfl) hmerged' houtput' hreport hother'
  obtain ⟨-, -, out', -, -, -, hstdout, -, -, hpretty, -⟩ := hresult' text' hrun
  cases hread.symm.trans hf
  have hreported : outcome.report = report := by
    rw [(normalize_eq_ok_iff.mp houtcome).2]
    decide +kernel
  rw [hreported] at heq hback
  have htold : written = told := by
    rw [heq]
    decide +kernel
  rw [htold] at hwritten hback
  have hsaved : (job.onDisk false inPlace).disk.text "/w/i" = .ok (text' ++ "\n") := by
    rw [hout "/w/i" rfl, hcompact rfl]
  have hprinted : Json.withoutBlanks (printing.onDisk false inPlace).stdout = text' := by
    rw [hstdout rfl]
    exact (hpretty rfl).2
  exact ⟨inPlace_leads_i, inPlace_savesTo_w_i, hinput, inPlace_base rfl, hmerged, houtput, hreport,
    hother, hcode.mpr ⟨_, hrun⟩, hsaved, hwritten "c" rfl, hback, hcode'.mpr ⟨_, hrun⟩, hprinted⟩

end SchemaNormal.Cli
