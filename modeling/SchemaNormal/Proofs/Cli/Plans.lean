import SchemaNormal.Cli.Command
import SchemaNormal.Proofs.Cli.Disk

/-!
# Carrying plans out

What a plan can change on a disk is limited by the paths that it writes to, whatever the accesses
answer.  A stage of a plan that changes nothing is known by its answer: the value with which the
plan goes on, or the complaint with which it ends.
-/

namespace SchemaNormal.Cli

namespace Disk

variable {disk disk' disk'' : Disk}

/-- The second disk has the same folders, and what differs on it is where a file can be made under
one of the paths. -/
structure ChangedOnlyAt (allowed : String → Prop) (disk disk' : Disk) : Prop where
  folders : disk.SameFolders disk'
  entries : ∀ place, (∀ path, allowed path → ¬ disk.SavesTo path place) →
    disk'.entry? place = disk.entry? place

variable {allowed : String → Prop}

theorem ChangedOnlyAt.refl (allowed : String → Prop) (disk : Disk) :
    ChangedOnlyAt allowed disk disk :=
  ⟨.refl disk, fun _ _ => rfl⟩

theorem ChangedOnlyAt.trans (h : ChangedOnlyAt allowed disk disk')
    (h' : ChangedOnlyAt allowed disk' disk'') : ChangedOnlyAt allowed disk disk'' where
  folders := h.folders.trans h'.folders
  entries place hplace := by
    rw [h'.entries place, h.entries place hplace]
    -- the paths lead to the same places on both disks
    exact fun path hpath hsaves => hplace path hpath (h.folders.savesTo.mp hsaves)

theorem ChangedOnlyAt.put {path : String} {place : Place} (hpath : allowed path)
    (h : disk.SavesTo path place) (content : ByteArray) :
    ChangedOnlyAt allowed disk (disk.put place (.file content)) where
  folders := h.sameFolders content
  entries other hother := by
    rw [entry?_put h.not_isAround, if_neg]
    rintro rfl
    exact hother path hpath h

end Disk

/-! ## What a plan can change -/

variable {allowed : String → Prop}

/-- The plan writes to allowed paths only. -/
def Plan.WritesOnly (allowed : String → Prop) : Plan → Prop
  | finish _ => True
  | read _ next => ∀ answer, (next answer).WritesOnly allowed
  | write path _ next => allowed path ∧ ∀ answer, (next answer).WritesOnly allowed
  | print _ next | complain _ next | tell _ next => next.WritesOnly allowed

theorem Plan.WritesOnly.onDisk {plan : Plan} (h : plan.WritesOnly allowed)
    (sofar : Result) :
    Disk.ChangedOnlyAt allowed sofar.disk (plan.onDisk sofar).disk := by
  induction plan generalizing sofar with
  | finish code => exact .refl allowed sofar.disk
  | read path next ih => exact ih _ (h _) sofar
  | write path content next ih =>
    rw [Plan.onDisk]
    cases hwrite : sofar.disk.write path content.toUTF8 with
    | error e => exact ih _ (h.2 _) sofar
    | ok disk =>
      obtain ⟨place, hplace, rfl⟩ := Disk.write_eq_ok_iff.mp hwrite
      exact (Disk.ChangedOnlyAt.put h.1 hplace _).trans (ih _ (h.2 _) { sofar with disk := _ })
  | print text next ih => exact ih h { sofar with stdout := sofar.stdout ++ text }
  | complain text next ih => exact ih h { sofar with stderr := sofar.stderr ++ text }
  | tell event next ih => exact ih h { sofar with events := sofar.events ++ [event] }

theorem writesOnly_writeFile {path : String} {layout : Json.Layout} {value : Json} {next : Plan}
    (hpath : allowed path) (h : next.WritesOnly allowed) :
    (writeFile path layout value next).WritesOnly allowed := by
  refine ⟨hpath, fun answer => ?_⟩
  cases answer with
  | error e => trivial
  | ok _ => exact h

theorem writesOnly_writeOutput {output : Option String} {layout : Json.Layout} {value : Json}
    {next : Plan} (houtput : ∀ path ∈ output, allowed path) (h : next.WritesOnly allowed) :
    (writeOutput output layout value next).WritesOnly allowed := by
  cases output with
  | none => exact h
  | some path => exact writesOnly_writeFile (houtput path rfl) h

theorem onDisk_tellAll (events : List Event) (next : Plan) (sofar : Result) :
    (tellAll events next).onDisk sofar =
      next.onDisk { sofar with events := sofar.events ++ events } := by
  induction events generalizing sofar with
  | nil =>
    rw [List.append_nil]
    rfl
  | cons event events ih =>
    show (tellAll events next).onDisk _ = _
    rw [ih, List.append_assoc]
    rfl

/-! ## Stages that only read -/

variable {α β : Type} {disk : Disk}

/-- On the disk the stage answers so: the plan goes on with the value, or it complains and ends. -/
def Answers (stage : (α → Plan) → Plan) (disk : Disk) (answer : Except String α) : Prop :=
  ∀ next sofar, sofar.disk = disk → (stage next).onDisk sofar =
    match answer with
    | .error complaint => { sofar with code := 1, stderr := sofar.stderr ++ complaint }
    | .ok a => (next a).onDisk sofar

theorem Answers.bind {stage : (α → Plan) → Plan} {answer : Except String α}
    {further : α → (β → Plan) → Plan} {answers : α → Except String β}
    (h : Answers stage disk answer) (hfurther : ∀ a, Answers (further a) disk (answers a)) :
    Answers (fun next => stage fun a => further a next) disk (answer >>= answers) := by
  intro next sofar hdisk
  dsimp only
  rw [h _ _ hdisk]
  cases answer with
  | error complaint => rfl
  | ok a => exact hfurther a next sofar hdisk

end SchemaNormal.Cli
