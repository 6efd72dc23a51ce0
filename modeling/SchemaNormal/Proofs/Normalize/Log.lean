import Mathlib.Algebra.Ring.Nat
import Mathlib.Data.List.Dedup
import SchemaNormal.Proofs.Enums.Changes
import SchemaNormal.Proofs.Lifting.Convergence
import SchemaNormal.Proofs.Lifting.Counts
import SchemaNormal.Proofs.Lifting.Reordering
import SchemaNormal.Proofs.Normalize.Guarantees

/-!
# The log and the report

A pass fills two lists while it walks, its changes and its events, and tells its counts at the end.
The two lists are filled in the same steps.  So the log of a run is its report, told event by event
and divided where one pass ends and the next one begins.
-/

namespace SchemaNormal

/-- The event that is told of a change. -/
def Change.event : Change → Event
  | .messageLifted path _ => .lifting path
  | .duplicateDropped path _ => .droppingDuplicate path
  | .zeroInserted path _ => .insertedZero path
  | .valueRenamed path old new => .renaming path old new

theorem Change.level_event (c : Change) : c.event.level = .trace := by
  cases c <;> rfl

/-- The events that tell of single changes. -/
def traces (events : List Event) : List Event :=
  events.filter (·.level = .trace)

theorem traces_append (events events' : List Event) :
    traces (events ++ events') = traces events ++ traces events' :=
  List.filter_append events events'

theorem traces_map_event (changes : List Change) :
    traces (changes.map Change.event) = changes.map Change.event := by
  apply List.filter_eq_self.mpr
  intro event hevent
  obtain ⟨c, -, rfl⟩ := List.mem_map.mp hevent
  exact decide_eq_true c.level_event

/-! ## Two lists that are filled together -/

/-- The events of a trail are those of its changes. -/
def Trail.Aligned (trail : Trail) : Prop :=
  trail.events = trail.changes.map Change.event

theorem Trail.Aligned.empty : Trail.Aligned {} :=
  rfl

theorem Trail.Aligned.record {trail : Trail} (h : trail.Aligned) (c : Change) :
    (trail.record c c.event).Aligned := by
  unfold Aligned at h ⊢
  unfold Trail.record
  rw [h, List.map_append, List.map_singleton]

theorem Lifting.aligned_takeAll {state : Lifting} (h : state.trail.Aligned)
    (gone : String → Bool) (xs : List Nested) : (takeAll gone xs state).trail.Aligned := by
  have htake : ∀ (state : Lifting) path m, state.trail.Aligned →
      (state.take path m).trail.Aligned := by
    intro state path m h
    unfold take
    split
    · exact h.record (.duplicateDropped path m.name)
    · exact h.record (.messageLifted path m.name)
  induction xs generalizing state with
  | nil => exact h
  | cons x xs ih => exact ih (htake state x.path _ h)

theorem EnumValue.aligned_prefixAll (digitPrefix path : String) (vs : List EnumValue)
    {trail : Trail} (h : trail.Aligned) :
    (EnumValue.prefixAll digitPrefix path vs trail).1.Aligned := by
  induction vs generalizing trail with
  | nil => exact h
  | cons v vs ih =>
    apply ih
    split
    · exact h.record (.valueRenamed path v.name (prefixDigits digitPrefix v.name))
    · exact h

/-- A visitor that keeps the lists together at each enum does so over a whole file. -/
theorem File.aligned_visitEnums {visit : EnumVisitor Trail}
    (h : ∀ trail e path, trail.Aligned → (visit trail e path).1.Aligned) (f : File) :
    (f.visitEnums visit {}).1.Aligned := by
  rw [visitEnums_fst]
  apply List.foldlRecOn f.placedEnums (PlacedEnum.step visit) Trail.Aligned.empty
  intro trail htrail x _
  exact h trail x.enum x.path htrail

/-! ## One pass -/

namespace File

theorem completeZero_events (f : File) (zeroName : String) :
    (f.completeZero zeroName).events = (f.completeZero zeroName).changes.map Change.event ++
      [.completionDone (f.completeZero zeroName).changes.length] := by
  have haligned : (f.visitEnums (completeZeroAt zeroName) {}).1.Aligned := by
    apply f.aligned_visitEnums
    intro trail e path h
    unfold completeZeroAt
    split
    · exact h
    · exact h.record (.zeroInserted path zeroName)
  exact congrArg (· ++ _) haligned

theorem prefixDigits_events (f : File) (digitPrefix : String) :
    (f.prefixDigits digitPrefix).events = (f.prefixDigits digitPrefix).changes.map Change.event ++
      [.renamingDone (f.prefixDigits digitPrefix).changes.length] := by
  have haligned : (f.visitEnums (prefixDigitsAt digitPrefix) {}).1.Aligned :=
    f.aligned_visitEnums fun _ e path => EnumValue.aligned_prefixAll digitPrefix path e.values
  exact congrArg (· ++ _) haligned

/-- The names that occur in the file, each once, whose messages all agree. -/
def agreeingNames (f : File) : List String :=
  (f.allMessages.map (·.name)).dedup.filter fun name => f.Agrees name

theorem length_liftable (f : File) : f.groups.liftable.length = f.agreeingNames.length := by
  have hagreeing : f.agreeingNames.Nodup := (List.nodup_dedup _).filter _
  apply ((List.perm_ext_iff_of_nodup f.nodup_liftable hagreeing).mpr _).length_eq
  intro name
  rw [mem_liftable_iff, agreeingNames, List.mem_filter, List.mem_dedup, List.mem_map,
    decide_eq_true_iff]

theorem liftMessages_events_nil {f : File} (h : f.messages = []) : f.liftMessages.events = [] := by
  unfold liftMessages
  rw [h]

theorem liftMessages_events {f : File} (h : f.messages ≠ []) :
    f.liftMessages.events = f.liftMessages.changes.map Change.event ++
      [.liftingDone f.agreeingNames.length f.appended.length] := by
  let start : Lifting :=
    { placed := (f.messages.filter fun m => f.groups.liftable.contains m.name).map (·.name) }
  let walk := Message.liftBelow f.groups.liftable f.messages start
  have hwalk : walk = _ := Message.liftBelow_eq f.groups.liftable f.messages start
  have hfile : f.liftMessages.file.messages = walk.1 ++ walk.2.lifted :=
    congrArg File.messages f.liftMessages_eq_liftBelow.1
  have hchanges : f.liftMessages.changes = walk.2.trail.changes := f.liftMessages_eq_liftBelow.2
  -- with messages in the file the pass tells what its walk has told, and the two counts
  have hevents : f.liftMessages.events = walk.2.trail.events ++
      [.liftingDone f.groups.liftable.length walk.2.lifted.length] := by
    unfold liftMessages
    split
    · contradiction
    · rfl
  have haligned : walk.2.trail.Aligned := by
    rw [hwalk]
    exact Lifting.aligned_takeAll Trail.Aligned.empty _ _
  have hkept : walk.1.length = f.messages.length := by
    rw [hwalk]
    exact List.length_map _
  have hlifted : f.appended = walk.2.lifted := by
    unfold appended
    rw [hfile]
    exact List.drop_left' hkept
  rw [hevents, hchanges, length_liftable, hlifted]
  exact congrArg (· ++ _) haligned

theorem length_appended_le (f : File) : f.appended.length ≤ f.liftMessages.changes.length := by
  rw [appended_eq, List.length_map, length_changes_liftMessages]
  exact (Nested.firsts_sublist f.topNames f.taken).length_le

end File
namespace Pass

/-- The counts that a pass tells after its changes.  Lifting tells none of a file without
messages. -/
def summary (given : File) (changes : Nat) : Pass → List Event
  | .liftMessages =>
      if given.messages.isEmpty then []
      else [.liftingDone given.agreeingNames.length given.appended.length]
  | .completeZero => [.completionDone changes]
  | .prefixDigits => [.renamingDone changes]

theorem run_events (pass : Pass) (options : Options) (f : File) :
    (pass.run options f).events = (pass.run options f).changes.map Change.event ++
      pass.summary f (pass.run options f).changes.length := by
  cases pass with
  | liftMessages =>
    show f.liftMessages.events = f.liftMessages.changes.map Change.event ++ _
    unfold summary
    by_cases h : f.messages = []
    · have hchanges : f.liftMessages.changes = [] := by
        unfold File.liftMessages
        rw [h]
      rw [if_pos (List.isEmpty_iff.mpr h), File.liftMessages_events_nil h, hchanges]
      rfl
    · rw [if_neg (by rwa [List.isEmpty_iff]), File.liftMessages_events h]
  | completeZero => exact f.completeZero_events options.zeroName
  | prefixDigits => exact f.prefixDigits_events options.digitPrefix

/-- The counts are no single changes, and do not end the pass. -/
theorem of_mem_summary {pass : Pass} {given : File} {changes : Nat} {event : Event}
    (h : event ∈ pass.summary given changes) :
    event.level ≠ .trace ∧ ∀ other count, event ≠ .passFinished other count := by
  cases pass with
  | liftMessages =>
    simp only [summary] at h
    split at h
    · exact absurd h List.not_mem_nil
    · obtain rfl := List.mem_singleton.mp h
      simp [Event.level]
  | completeZero =>
    obtain rfl := List.mem_singleton.mp h
    simp [Event.level]
  | prefixDigits =>
    obtain rfl := List.mem_singleton.mp h
    simp [Event.level]

theorem traces_summary (pass : Pass) (given : File) (changes : Nat) :
    traces (pass.summary given changes) = [] := by
  apply List.filter_eq_nil_iff.mpr
  intro event hevent
  rw [decide_eq_true_iff]
  exact (of_mem_summary hevent).1

theorem traces_run (pass : Pass) (options : Options) (f : File) :
    traces (pass.run options f).events = (pass.run options f).changes.map Change.event := by
  rw [run_events, traces_append, traces_map_event, traces_summary, List.append_nil]

/-- The end of a pass is told by the run, not by the pass. -/
theorem passFinished_notMem_run (pass : Pass) (options : Options) (f : File) (other : Pass)
    (changes : Nat) : .passFinished other changes ∉ (pass.run options f).events := by
  intro h
  rw [run_events, List.mem_append, List.mem_map] at h
  rcases h with ⟨c, -, hc⟩ | hsummary
  · cases c <;> contradiction
  · exact (of_mem_summary hsummary).2 other changes rfl

end Pass

/-! ## A whole run -/

/-- A pass of a run and the file it is given. -/
structure Stage (options : Options) where
  pass : Pass
  given : File

namespace Stage

variable {options : Options} (s : Stage options)

def result : PassResult :=
  s.pass.run options s.given

/-- The number of single changes that the pass tells of. -/
def traced : Nat :=
  (traces s.result.events).length

/-- What the log of a run says from the end of the pass before up to the end of this one. -/
def log : List Event :=
  s.result.events ++ [.passFinished s.pass s.traced]

theorem traced_eq : s.traced = s.result.changes.length := by
  unfold traced result
  rw [Pass.traces_run, List.length_map]

theorem traces_log : traces s.log = s.result.changes.map Change.event := by
  unfold log result
  rw [traces_append, Pass.traces_run]
  exact List.append_nil _

end Stage

/-- The stages of a run: each pass is given the file that the one before it has made. -/
def Options.stagesOf (options : Options) : List Pass → File → List (Stage options)
  | [], _ => []
  | pass :: passes, f => ⟨pass, f⟩ :: stagesOf options passes (pass.run options f).file

def Options.stages (options : Options) (f : File) : List (Stage options) :=
  options.stagesOf options.passes f

theorem map_pass_stagesOf (options : Options) (passes : List Pass) (f : File) :
    (options.stagesOf passes f).map (·.pass) = passes := by
  induction passes generalizing f with
  | nil => rfl
  | cons pass passes ih => rw [Options.stagesOf, List.map_cons, ih]

theorem foldl_events (options : Options) (passes : List Pass) (sofar : Outcome) :
    (passes.foldl (Outcome.next options) sofar).events =
      sofar.events ++ (options.stagesOf passes sofar.file).flatMap Stage.log := by
  induction passes generalizing sofar with
  | nil => exact (List.append_nil _).symm
  | cons pass passes ih =>
    -- the run counts the changes of the pass, which are as many as the pass tells of
    let stage : Stage options := ⟨pass, sofar.file⟩
    have hnext : (Outcome.next options sofar pass).events = sofar.events ++ stage.log := by
      unfold Stage.log
      rw [Stage.traced_eq, ← List.append_assoc]
      rfl
    rw [List.foldl_cons, ih, hnext, List.append_assoc]
    rfl

theorem foldl_changes (options : Options) (passes : List Pass) (sofar : Outcome) :
    (passes.foldl (Outcome.next options) sofar).report.changes =
      sofar.report.changes ++ (options.stagesOf passes sofar.file).flatMap (·.result.changes) := by
  induction passes generalizing sofar with
  | nil => exact (List.append_nil _).symm
  | cons pass passes ih =>
    rw [List.foldl_cons, ih]
    exact List.append_assoc sofar.report.changes _ _

/-- The log of a run.  Its single changes are those of the report, in order.  It is divided by the
ends of the passes, each of which counts the changes told since the one before, and these counts add
up to the report.  Right before its end each pass tells its own counts: the changes of an enum pass;
of lifting, the names whose messages agree in the file it was given and the messages that it has
appended. -/
theorem normalize_log {options : Options} (hvalid : options.validate = .ok ()) (f : File) :
    ∃ outcome, normalize f options = .ok outcome ∧
      traces outcome.events = outcome.report.changes.map Change.event ∧
      outcome.events = (options.stages f).flatMap Stage.log ∧
      (options.stages f).map (·.pass) = options.passes ∧
      ((options.stages f).map Stage.traced).sum = outcome.report.changes.length ∧
      ∀ s ∈ options.stages f,
        (∀ pass changes, .passFinished pass changes ∉ s.result.events) ∧
        s.result.events = traces s.result.events ++ s.pass.summary s.given s.traced ∧
        (s.pass = .liftMessages → s.given.appended.length ≤ s.traced ∧
          ∃ kept, s.result.file.messages = kept ++ s.given.appended ∧
            kept.map (·.name) = s.given.topNames) := by
  have hevents := foldl_events options options.passes { file := f }
  have hchanges := foldl_changes options options.passes { file := f }
  rw [List.nil_append] at hevents hchanges
  refine ⟨_, normalize_of_valid hvalid f, ?_, hevents, map_pass_stagesOf options _ f, ?_, ?_⟩
  · have htraces : ∀ s : Stage options, traces s.log = s.result.changes.map Change.event :=
      Stage.traces_log
    rw [hevents, hchanges, traces, List.filter_flatMap, List.map_flatMap]
    exact List.flatMap_congr fun s _ => htraces s
  · rw [hchanges, List.length_flatMap]
    exact congrArg List.sum (List.map_congr_left fun s _ => s.traced_eq)
  · intro s _
    refine ⟨s.pass.passFinished_notMem_run options s.given, ?_, ?_⟩
    · rw [s.traced_eq]
      unfold Stage.result
      rw [Pass.traces_run]
      exact s.pass.run_events options s.given
    · obtain ⟨pass, given⟩ := s
      rintro rfl
      rw [Stage.traced_eq]
      refine ⟨given.length_appended_le, given.messages.map given.stripped, ?_, ?_⟩
      · rw [File.appended_eq]
        exact given.liftMessages_messages
      · rw [List.map_map]
        exact List.map_congr_left fun m _ => Message.strip_name m

/-- Four passes over a file with two copies of `B`.  The second lifting finds nothing left to take. -/
theorem repeatedLifting_log :
    let options : Options :=
      { passes := [.liftMessages, .completeZero, .liftMessages, .prefixDigits] }
    let f : File :=
      { messages :=
          [{ name := "A", messages := [{ name := "B" }],
             enums := [{ name := "E", values := [⟨"1", 1⟩] }] },
            { name := "C", messages := [{ name := "B" }] }] }
    options.validate = .ok () ∧ ∃ outcome, normalize f options = .ok outcome ∧
      traces outcome.events = outcome.report.changes.map Change.event ∧
      outcome.events = (options.stages f).flatMap Stage.log ∧
      outcome.events =
        [.lifting "A.B", .droppingDuplicate "C.B", .liftingDone 3 1, .passFinished .liftMessages 2,
          .insertedZero "A.E", .completionDone 1, .passFinished .completeZero 1,
          .liftingDone 3 0, .passFinished .liftMessages 0,
          .renaming "A.E" "1" "NUM_1", .renamingDone 1, .passFinished .prefixDigits 1] := by
  intro options f
  have hvalid : options.validate = .ok () := by decide +kernel
  obtain ⟨outcome, hrun, htraces, hlog, -⟩ := normalize_log hvalid f
  refine ⟨hvalid, outcome, hrun, htraces, hlog, ?_⟩
  rw [← Except.ok.inj ((normalize_of_valid hvalid f).symm.trans hrun)]
  decide +kernel

/-- Of a file without messages lifting tells nothing. -/
example :
    let s : Stage {} := ⟨.liftMessages, needsZero⟩
    s.log = [.passFinished .liftMessages 0] := by
  decide +kernel

end SchemaNormal
