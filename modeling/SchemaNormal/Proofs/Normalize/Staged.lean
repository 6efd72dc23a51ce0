import SchemaNormal.Proofs.Normalize.Bridge

/-!
# Runs in stages

A run can be divided anywhere in its list of passes: the second stage starts with the file that the
first one leaves, and what it tells comes after what the first one has told.  This is so even if the
file is written and read again in between.
-/

namespace SchemaNormal

variable {first second : Options}

namespace Outcome

/-- The outcome of a stage and of the one that follows it, as one. -/
def andThen (stage next : Outcome) : Outcome where
  file := next.file
  report := ⟨stage.report.changes ++ next.report.changes⟩
  events := stage.events ++ next.events

theorem next_andThen (options : Options) (stage sofar : Outcome) (pass : Pass) :
    Outcome.next options (stage.andThen sofar) pass =
      stage.andThen (Outcome.next options sofar pass) := by
  simp only [Outcome.next, andThen, List.append_assoc]

theorem foldl_next_andThen (options : Options) (stage : Outcome) (passes : List Pass)
    (sofar : Outcome) :
    passes.foldl (Outcome.next options) (stage.andThen sofar) =
      stage.andThen (passes.foldl (Outcome.next options) sofar) := by
  induction passes generalizing sofar with
  | nil => rfl
  | cons pass passes ih => rw [List.foldl_cons, List.foldl_cons, next_andThen, ih]

theorem foldl_next_append (options : Options) (passes passes' : List Pass) (f : File) :
    (passes ++ passes').foldl (Outcome.next options) { file := f } =
      let stage := passes.foldl (Outcome.next options) { file := f }
      stage.andThen (passes'.foldl (Outcome.next options) { file := stage.file }) := by
  have hfresh : ∀ stage : Outcome, stage = stage.andThen { file := stage.file } := by
    intro stage
    simp only [andThen, List.append_nil]
  rw [List.foldl_append, ← foldl_next_andThen, ← hfresh]

/-- Of the options, passes use the two names only. -/
theorem next_congr (hzero : first.zeroName = second.zeroName)
    (hdigits : first.digitPrefix = second.digitPrefix) :
    Outcome.next first = Outcome.next second := by
  funext sofar pass
  have hrun : pass.run first sofar.file = pass.run second sofar.file := by
    cases pass with
    | liftMessages => rfl
    | completeZero => exact congrArg sofar.file.completeZero hzero
    | prefixDigits => exact congrArg sofar.file.prefixDigits hdigits
  simp only [Outcome.next, hrun]

end Outcome

theorem Options.validate_congr (hzero : first.zeroName = second.zeroName)
    (hdigits : first.digitPrefix = second.digitPrefix) : first.validate = second.validate := by
  unfold validate
  rw [hzero, hdigits]

/-- The run of both lists of passes is the run of the second on what the run of the first leaves. -/
theorem normalize_append (hvalid : first.validate = .ok ())
    (hzero : first.zeroName = second.zeroName) (hdigits : first.digitPrefix = second.digitPrefix)
    (f : File) : ∃ stage stage', normalize f first = .ok stage ∧
      normalize stage.file second = .ok stage' ∧
      normalize f { first with passes := first.passes ++ second.passes } =
        .ok (stage.andThen stage') := by
  have hvalid' : second.validate = .ok () := Options.validate_congr hzero hdigits ▸ hvalid
  refine ⟨_, _, normalize_of_valid hvalid f, normalize_of_valid hvalid' _, ?_⟩
  rw [normalize_eq_ok_iff, ← Outcome.next_congr hzero hdigits]
  exact ⟨hvalid, (Outcome.foldl_next_append first first.passes second.passes f).symm⟩

/-- Two stages from text to text that agree in the names they insert are one run of the passes of
both, and the report of that run is the reports of the stages, one after the other. -/
theorem normalizeJson_staged (hvalid : first.validate = .ok ())
    (hzero : first.zeroName = second.zeroName)
    (hdigits : first.digitPrefix = second.digitPrefix) :
    let joint : Options := { first with passes := first.passes ++ second.passes }
    (∀ text between out, normalizeJson text first = .ok between →
      normalizeJson between second = .ok out → normalizeJson text joint = .ok out) ∧
    ∀ f, ∃ stage stage' outcome, normalize f first = .ok stage ∧
      normalize stage.file second = .ok stage' ∧ normalize f joint = .ok outcome ∧
      outcome.file = stage'.file ∧
      outcome.report.changes = stage.report.changes ++ stage'.report.changes := by
  intro joint
  have happend := normalize_append hvalid hzero hdigits
  refine ⟨fun text between out hfirst hsecond => ?_, fun f => ?_⟩
  · obtain ⟨f, stage, hf, hstage, rfl⟩ := normalizeJson_eq_ok_iff.mp hfirst
    obtain ⟨g, stage', hg, hstage', rfl⟩ := normalizeJson_eq_ok_iff.mp hsecond
    -- what is read in between is what has been written
    obtain rfl : g = stage.file := File.eq_of_ofText_render .compact hg
    obtain ⟨_, _, hrun, hrun', hjoint⟩ := happend f
    cases hstage.symm.trans hrun
    cases hstage'.symm.trans hrun'
    exact normalizeJson_eq_ok_iff.mpr ⟨f, _, hf, hjoint, rfl⟩
  · obtain ⟨stage, stage', hrun, hrun', hjoint⟩ := happend f
    exact ⟨stage, stage', _, hrun, hrun', hjoint, rfl, rfl⟩

/-- First the name is freed of its digit, then the enum is completed. -/
theorem needsBoth_staged :
    let first : Options := { passes := [.prefixDigits] }
    let second : Options := { passes := [.completeZero] }
    let joint : Options := { passes := [.prefixDigits, .completeZero] }
    let f : File := { enums := [{ name := "E", values := [⟨"1", 1⟩] }] }
    let text := "\x7b\"enums\":[\x7b\"name\":\"E\"," ++
      "\"fields\":[\x7b\"name\":\"1\",\"index\":1\x7d]\x7d]\x7d"
    let between := "\x7b\"enums\":[\x7b\"name\":\"E\"," ++
      "\"fields\":[\x7b\"name\":\"NUM_1\",\"index\":1\x7d]\x7d]\x7d"
    let out := "\x7b\"enums\":[\x7b\"name\":\"E\",\"fields\":[" ++
      "\x7b\"name\":\"DEFAULT\",\"index\":0\x7d,\x7b\"name\":\"NUM_1\",\"index\":1\x7d]\x7d]\x7d"
    first.validate = .ok () ∧ first.zeroName = second.zeroName ∧
      first.digitPrefix = second.digitPrefix ∧ f.toText = text ∧
      normalizeJson text first = .ok between ∧ normalizeJson between second = .ok out ∧
      normalizeJson text joint = .ok out ∧
      ∃ outcome, normalize f joint = .ok outcome ∧ outcome.report.changes =
        [.valueRenamed "E" "1" "NUM_1", .zeroInserted "E" "DEFAULT"] := by
  intro first second joint f text between out
  have hvalid : first.validate = .ok () := by decide +kernel
  have hwritten : f.toText = text := by decide +kernel
  have hbetween : normalizeJson text first = .ok between := by decide +kernel
  have hout : normalizeJson between second = .ok out := by decide +kernel
  obtain ⟨htexts, hfiles⟩ := @normalizeJson_staged first second hvalid rfl rfl
  obtain ⟨stage, stage', outcome, hrun, hrun', hjoint, -, hchanges⟩ := hfiles f
  refine ⟨hvalid, rfl, rfl, hwritten, hbetween, hout, htexts text between out hbetween hout,
    outcome, hjoint, ?_⟩
  obtain rfl := (normalize_eq_ok_iff.mp hrun).2
  obtain rfl := (normalize_eq_ok_iff.mp hrun').2
  rw [hchanges]
  decide +kernel

end SchemaNormal
