import SchemaNormal.Proofs.Cli.Plans

/-!
# The stages of a job

Up to its outcome a job only reads.  Each stage answers with a value, with which the plan goes on,
or with a complaint, with which the job ends; the stages are joined as their answers are.  The run
goes by the options that have been read with the job's own in place of theirs.
-/

namespace SchemaNormal

/-- What a failure says alone: of a text that is refused, the message of the reader. -/
def Failure.detail : Failure → String
  | .unreadable message => message
  | failure => failure.message

namespace Cli

variable {disk : Disk}

/-! ## Reading -/

/-- The text of a file; `role` says what the file is. -/
def fileText (disk : Disk) (role path : String) : Except String String :=
  (disk.text path).mapError fun e =>
    errorText ("Failed to open " ++ role ++ " file: " ++ path) [e.message]

/-- The file that a job works on. -/
def Job.source (job : Job) (disk : Disk) : Except String File := do
  let text ← fileText disk "input" job.input
  (File.ofText text).mapError fun failure =>
    errorText ("Failed to parse file AST from: " ++ job.input) [failure.message, failure.detail]

/-- The options that a job starts from, before it puts its own in their place. -/
def Job.base (job : Job) (disk : Disk) : Except String Options :=
  match job.config with
  | none => .ok {}
  | some path => do
      let text ← fileText disk "config" path
      (Options.ofText text).mapError fun failure =>
        errorText ("Failed to parse config from: " ++ path) [failure.detail]

theorem fileText_eq_ok_iff {role path text : String} :
    fileText disk role path = .ok text ↔ disk.text path = .ok text :=
  mapError_eq_ok_iff

theorem Job.source_eq_ok_iff {job : Job} {f : File} : job.source disk = .ok f ↔
    ∃ text, disk.text job.input = .ok text ∧ File.ofText text = .ok f := by
  unfold source
  simp only [bind_eq_ok_iff, mapError_eq_ok_iff, fileText_eq_ok_iff]

theorem Job.base_of_none {job : Job} (h : job.config = none) : job.base disk = .ok {} := by
  unfold base
  rw [h]

theorem Job.base_of_some_eq_ok_iff {job : Job} {path : String} {base : Options}
    (h : job.config = some path) : job.base disk = .ok base ↔
      ∃ text, disk.text path = .ok text ∧ Options.ofText text = .ok base := by
  unfold Job.base
  rw [h]
  simp only [bind_eq_ok_iff, mapError_eq_ok_iff, fileText_eq_ok_iff]

theorem answers_readFileText (role path : String) :
    Answers (readFileText role path) disk (fileText disk role path) := by
  rintro next sofar rfl
  unfold readFileText fileText Disk.text
  rw [Plan.onDisk]
  cases sofar.disk.read path with
  | error e => rfl
  | ok bytes =>
    dsimp only
    cases String.fromUTF8? bytes with
    | none => rfl
    | some text => rfl

theorem Job.answers_readInput (job : Job) :
    Answers (readInput job.input) disk (job.source disk) := by
  apply (answers_readFileText "input" job.input).bind
  rintro text next sofar -
  unfold File.ofText SchemaNormal.ofText
  cases Json.readText (File.read Json.levels) text with
  | error fault => rfl
  | ok f => rfl

theorem Job.answers_readOptions (job : Job) :
    Answers (readOptions job.config) disk (job.base disk) := by
  unfold readOptions Job.base
  cases job.config with
  | none => exact fun _ _ _ => rfl
  | some path =>
    apply (answers_readFileText "config" path).bind
    rintro text next sofar -
    unfold Options.ofText SchemaNormal.ofText
    cases Json.readText (Options.read Json.levels) text with
    | error fault => rfl
    | ok options => rfl

/-! ## Merged options -/

/-- What a job asks for takes the place of the base, field by field; any pass at all takes the place
of the whole list. -/
structure Job.Merges (job : Job) (base merged : Options) : Prop where
  passes : job.passes ≠ [] → merged.passes = job.passes
  passes_left : job.passes = [] → merged.passes = base.passes
  zeroName : ∀ name ∈ job.zeroName, merged.zeroName = name
  zeroName_left : job.zeroName = none → merged.zeroName = base.zeroName
  digitPrefix : ∀ added ∈ job.digitPrefix, merged.digitPrefix = added
  digitPrefix_left : job.digitPrefix = none → merged.digitPrefix = base.digitPrefix

theorem Job.merges_options (job : Job) (base : Options) : job.Merges base (job.options base) where
  passes h := if_neg ((not_congr List.isEmpty_iff).mpr h)
  passes_left h := if_pos (List.isEmpty_iff.mpr h)
  zeroName _ h := congrArg (·.getD base.zeroName) h
  zeroName_left h := congrArg (·.getD base.zeroName) h
  digitPrefix _ h := congrArg (·.getD base.digitPrefix) h
  digitPrefix_left h := congrArg (·.getD base.digitPrefix) h

/-- The merged options are determined by the job and the base. -/
theorem Job.Merges.unique {job : Job} {base merged merged' : Options}
    (h : job.Merges base merged) (h' : job.Merges base merged') : merged = merged' := by
  have hpasses : merged.passes = merged'.passes := by
    by_cases hnone : job.passes = []
    · rw [h.passes_left hnone, h'.passes_left hnone]
    · rw [h.passes hnone, h'.passes hnone]
  have hzero : merged.zeroName = merged'.zeroName := by
    cases hname : job.zeroName with
    | none => rw [h.zeroName_left hname, h'.zeroName_left hname]
    | some name => rw [h.zeroName name hname, h'.zeroName name hname]
  have hdigit : merged.digitPrefix = merged'.digitPrefix := by
    cases hadded : job.digitPrefix with
    | none => rw [h.digitPrefix_left hadded, h'.digitPrefix_left hadded]
    | some added => rw [h.digitPrefix added hadded, h'.digitPrefix added hadded]
  cases merged
  cases merged'
  rw [Options.mk.injEq]
  exact ⟨hpasses, hzero, hdigit⟩

/-! ## Up to the outcome -/

/-- What a job makes of its input before it writes anything. -/
def Job.prepare (job : Job) (disk : Disk) : Except String Outcome := do
  let f ← job.source disk
  let options ← job.base disk
  (normalize f (job.options options)).mapError fun failure =>
    errorText "Invalid options" [failure.message]

theorem Job.prepare_eq_ok_iff {job : Job} {outcome : Outcome} : job.prepare disk = .ok outcome ↔
    ∃ f base, job.source disk = .ok f ∧ job.base disk = .ok base ∧
      normalize f (job.options base) = .ok outcome := by
  unfold prepare
  simp only [bind_eq_ok_iff, mapError_eq_ok_iff]
  exact ⟨fun ⟨f, hf, base, hbase, h⟩ => ⟨f, base, hf, hbase, h⟩,
    fun ⟨f, base, hf, hbase, h⟩ => ⟨f, hf, base, hbase, h⟩⟩

/-- The plan of a job up to its outcome. -/
def Job.preparing (job : Job) (next : Outcome → Plan) : Plan :=
  readInput job.input fun file =>
    readOptions job.config fun options =>
      match normalize file (job.options options) with
      | .error failure => giveUp "Invalid options" [failure.message]
      | .ok outcome => next outcome

theorem Job.answers_preparing (job : Job) : Answers job.preparing disk (job.prepare disk) := by
  apply job.answers_readInput.bind
  intro f
  apply job.answers_readOptions.bind
  rintro options next sofar -
  cases normalize f (job.options options) with
  | error failure => rfl
  | ok outcome => rfl

/-- What a job leaves behind on a disk. -/
def Job.onDisk (job : Job) (verbose : Bool) (disk : Disk) : Result :=
  (Request.run verbose (.normalize job)).plan.onDisk { disk }

/-- The result of a job: it stops with a complaint and has changed nothing, or it delivers. -/
theorem Job.onDisk_eq (job : Job) (verbose : Bool) (disk : Disk) :
    job.onDisk verbose disk =
      match job.prepare disk with
      | .error complaint => { code := 1, stderr := complaint, disk }
      | .ok outcome => (job.deliver outcome).onDisk
          { disk, events := if verbose then verboseEvents outcome else [] } := by
  show (job.preparing fun outcome =>
    tellAll (if verbose then verboseEvents outcome else []) (job.deliver outcome)).onDisk _ = _
  rw [job.answers_preparing _ { disk } rfl]
  cases job.prepare disk with
  | error complaint =>
    dsimp only
    rw [String.empty_append]
  | ok outcome =>
    dsimp only
    rw [onDisk_tellAll, List.nil_append]

/-! ## Delivering an outcome -/

/-- The last step of a job: its report, if it is asked for. -/
def Job.reporting (job : Job) (outcome : Outcome) : Plan :=
  match job.report with
  | none => .finish 0
  | some path => writeFile path job.layout outcome.report.toJson (.finish 0)

/-- What is left behind when a text has been printed, or saved if there is a path for it. -/
inductive PutsOut (output : Option String) (text : String) (sofar : Result) : Result → Prop where
  | printed : output = none →
      PutsOut output text sofar { sofar with stdout := sofar.stdout ++ text }
  | saved {path : String} {place : Place} : output = some path → sofar.disk.SavesTo path place →
      PutsOut output text sofar
        { sofar with disk := sofar.disk.put place (.file text.toUTF8) }

section Delivery

variable {job : Job} {outcome : Outcome} {output : Option String} {path text : String}
  {place : Place} {layout : Json.Layout} {value : Json} {next : Plan} {sofar sofar' : Result}

theorem onDisk_writeFile (h : sofar.disk.SavesTo path place) :
    (writeFile path layout value next).onDisk sofar = next.onDisk
      { sofar with disk := sofar.disk.put place (.file (value.render layout ++ "\n").toUTF8) } := by
  unfold writeFile
  rw [Plan.onDisk, Disk.write_eq_ok_iff.mpr ⟨place, h, rfl⟩]

theorem onDisk_writeFile_of_error {e : FileError}
    (h : sofar.disk.write path (value.render layout ++ "\n").toUTF8 = .error e) :
    (writeFile path layout value next).onDisk sofar =
      { sofar with
        code := 1
        stderr := sofar.stderr ++
          errorText ("Failed to create output file: " ++ path) [e.message] } := by
  unfold writeFile
  rw [Plan.onDisk, h]
  rfl

theorem onDisk_writeFile_of_not_creatable (sofar : Result) (h : ¬ sofar.disk.Creatable path) :
    ∃ complaint, (writeFile path layout value next).onDisk sofar =
      { sofar with code := 1, stderr := sofar.stderr ++ complaint } := by
  obtain ⟨e, hwrite⟩ := Disk.exists_write_eq_error h (value.render layout ++ "\n").toUTF8
  exact ⟨_, onDisk_writeFile_of_error hwrite⟩

theorem exists_putsOut (sofar : Result) (h : ∀ path ∈ output, sofar.disk.Creatable path)
    (text : String) : ∃ sofar', PutsOut output text sofar sofar' := by
  cases output with
  | none => exact ⟨_, .printed rfl⟩
  | some path =>
    obtain ⟨place, hplace⟩ := h path rfl
    exact ⟨_, .saved rfl hplace⟩

namespace PutsOut

theorem sameFolders (h : PutsOut output text sofar sofar') :
    sofar.disk.SameFolders sofar'.disk := by
  cases h with
  | printed _ => exact .refl _
  | saved _ hplace => exact hplace.sameFolders _

theorem stdout_of_none (h : PutsOut output text sofar sofar') (hnone : output = none) :
    sofar'.stdout = sofar.stdout ++ text := by
  cases h with
  | printed _ => rfl
  | saved hsome _ => cases hsome.symm.trans hnone

theorem entry?_of_some (h : PutsOut output text sofar sofar') (hsome : output = some path)
    (hplace : sofar.disk.SavesTo path place) :
    sofar'.disk.entry? place = some (.file text.toUTF8) := by
  cases h with
  | printed hnone => cases hnone.symm.trans hsome
  | saved hsome' hplace' =>
    cases hsome'.symm.trans hsome
    cases hplace.unique hplace'
    rw [Disk.entry?_put hplace.not_isAround, if_pos rfl]

theorem exists_savesTo (h : PutsOut output text sofar sofar') (hsome : output = some path) :
    ∃ place, sofar.disk.SavesTo path place := by
  cases h with
  | printed hnone => cases hnone.symm.trans hsome
  | saved hsome' hplace =>
    cases hsome'.symm.trans hsome
    exact ⟨_, hplace⟩

theorem text_of_some (h : PutsOut output text sofar sofar') (hsome : output = some path) :
    sofar'.disk.text path = .ok text := by
  obtain ⟨place, hplace⟩ := h.exists_savesTo hsome
  exact (h.sameFolders.savesTo.mpr hplace).text (h.entry?_of_some hsome hplace)

end PutsOut

/-- A job whose outcome is there and whose output can be made ends with its report. -/
theorem Job.onDisk_of_putsOut {verbose : Bool} (h : job.prepare disk = .ok outcome)
    (hput : PutsOut job.output (outcome.file.toJson.render job.layout ++ "\n")
      { disk, events := if verbose then verboseEvents outcome else [] } sofar) :
    job.onDisk verbose disk = (job.reporting outcome).onDisk sofar := by
  rw [job.onDisk_eq, h]
  show (writeOutput job.output job.layout outcome.file.toJson (job.reporting outcome)).onDisk _ = _
  cases hput with
  | printed hnone =>
    rw [hnone]
    rfl
  | saved hsome hplace =>
    rw [hsome]
    exact onDisk_writeFile hplace

end Delivery

end Cli

end SchemaNormal
