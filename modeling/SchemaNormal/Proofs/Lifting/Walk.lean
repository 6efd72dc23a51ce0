import SchemaNormal.Pass.Lifting
import SchemaNormal.Proofs.Lifting.Firsts
import SchemaNormal.Proofs.Lifting.Strip
import SchemaNormal.Proofs.Schema.Grouping

/-!
# Lifting without a walk

Lifting takes messages out of a tree while it walks through it, and decides from what it has taken
so far.  Its answer has a description that knows no such state.  The messages taken out are the
nested ones whose names agree, and a message is lifted when no message of the file and no message
taken before it has its name.
-/

namespace SchemaNormal

namespace File

/-- What becomes of a message of the file: it loses the messages whose names agree. -/
def stripped (f : File) (m : Message) : Message :=
  m.strip fun name => f.Agrees name

/-- The messages that lifting takes out of their places. -/
def taken (f : File) : List Nested :=
  f.nested.filter fun x => f.Agrees x.name

def topNames (f : File) : List String :=
  f.messages.map (·.name)

/-- The messages that lifting puts at the end of the file: the first one taken of each name that
has no message at the top. -/
def lifted (f : File) : List Nested :=
  Nested.firsts f.topNames f.taken

end File

/-! ## The walk takes the listed messages -/

namespace Lifting

/-- Takes messages out of their places, one after the other. -/
def takeAll (gone : String → Bool) (xs : List Nested) (state : Lifting) : Lifting :=
  xs.foldl (fun state x => state.take x.path (x.message.strip gone)) state

theorem takeAll_append (gone : String → Bool) (xs ys : List Nested) (state : Lifting) :
    takeAll gone (xs ++ ys) state = takeAll gone ys (takeAll gone xs state) :=
  List.foldl_append

theorem takeAll_cons (gone : String → Bool) (x : Nested) (xs : List Nested) (state : Lifting) :
    takeAll gone (x :: xs) state =
      takeAll gone xs (state.take x.path (x.message.strip gone)) := rfl

end Lifting

namespace Message

variable (liftable : List String)

mutual

/-- Below one message: it ends up stripped, and the messages inside it are taken in order. -/
theorem lift_eq (scopes : List String) :
    ∀ (m : Message) (state : Lifting), lift liftable (dotted scopes) m state =
      (strip liftable.contains m,
        Lifting.takeAll liftable.contains
          ((inside scopes m).filter (liftable.contains ·.name)) state)
  | ⟨name, _, messages, _⟩, state => by
    rw [lift, qualify_dotted, liftAll_eq (scopes ++ [name]) messages state]
    rfl

theorem liftAll_eq (scopes : List String) :
    ∀ (ms : List Message) (state : Lifting), liftAll liftable (dotted scopes) ms state =
      (stripAll liftable.contains ms,
        Lifting.takeAll liftable.contains
          ((insideAll scopes ms).filter (liftable.contains ·.name)) state)
  | [], state => rfl
  | m :: ms, state => by
    rw [liftAll, lift_eq scopes m state, insideAll, List.filter_append, Lifting.takeAll_append,
      stripAll]
    simp only [strip_name]
    -- the messages inside `m` are taken; what is left is `m` itself and the siblings after it
    by_cases hm : liftable.contains m.name = true
    · rw [if_pos hm, if_pos hm, liftAll_eq scopes ms, List.filter_cons_of_pos (by exact hm),
        Lifting.takeAll_cons, qualify_dotted]
      rfl
    · rw [if_neg hm, if_neg hm, liftAll_eq scopes ms, List.filter_cons_of_neg (by exact hm)]

end

theorem liftBelow_eq (ms : List Message) (state : Lifting) :
    liftBelow liftable ms state =
      (ms.map (strip liftable.contains),
        Lifting.takeAll liftable.contains
          ((ms.flatMap (inside [])).filter (liftable.contains ·.name)) state) := by
  induction ms generalizing state with
  | nil => rfl
  | cons m ms ih =>
    rw [liftBelow, ← dotted_nil, lift_eq liftable [] m state, List.flatMap_cons,
      List.filter_append, Lifting.takeAll_append]
    simp only [ih]
    rfl

end Message

/-! ## What taking messages leaves behind -/

namespace Lifting

theorem mem_placed_take (state : Lifting) (path : String) (m : Message) (name : String) :
    name ∈ (state.take path m).placed ↔ name = m.name ∨ name ∈ state.placed := by
  simp only [take, List.contains_iff_mem]
  split
  · rename_i h
    have hname : name = m.name → name ∈ state.placed := fun heq => heq ▸ h
    exact (or_iff_right_of_imp hname).symm
  · exact List.mem_cons

theorem take_lifted (state : Lifting) (path : String) (m : Message) :
    (state.take path m).lifted =
      if m.name ∈ state.placed then state.lifted else state.lifted ++ [m] := by
  simp only [take, List.contains_iff_mem]
  split <;> rfl

theorem take_changes (state : Lifting) (path : String) (m : Message) :
    (state.take path m).trail.changes = state.trail.changes ++
      [if m.name ∈ state.placed then .duplicateDropped path m.name
        else .messageLifted path m.name] := by
  simp only [take, List.contains_iff_mem]
  split <;> rfl

/-- A whole walk: the first messages of new names are lifted, and each message taken leaves its
change. -/
theorem takeAll_eq (gone : String → Bool) (xs : List Nested) (state : Lifting) :
    (takeAll gone xs state).lifted =
        state.lifted ++ (Nested.firsts state.placed xs).map (·.message.strip gone) ∧
      (takeAll gone xs state).trail.changes = state.trail.changes ++
        (withEarlier xs).map fun p => Nested.change state.placed p.1 p.2 := by
  induction xs generalizing state with
  | nil => exact ⟨(List.append_nil _).symm, (List.append_nil _).symm⟩
  | cons x xs ih =>
    -- the names placed after the first message are those before it and its own
    have hplaced : ∀ y ∈ xs, y.name ∈ (state.take x.path (x.message.strip gone)).placed ↔
        y.name ∈ x.name :: state.placed := by
      intro y _
      rw [mem_placed_take, Message.strip_name, List.mem_cons]
      rfl
    obtain ⟨hlifted, hchanges⟩ := ih (state.take x.path (x.message.strip gone))
    rw [Nested.firsts_congr hplaced, take_lifted, Message.strip_name] at hlifted
    rw [Nested.changes_congr hplaced, take_changes, Message.strip_name,
      List.append_assoc] at hchanges
    rw [takeAll_cons, Nested.firsts_cons, Nested.changes_cons]
    refine ⟨hlifted.trans ?_, hchanges⟩
    show (if x.name ∈ state.placed then _ else _) ++ _ = _
    split
    · rfl
    · rw [List.append_assoc]
      rfl

end Lifting

/-! ## The answer of the pass -/

namespace File

/-- The pass is the walk below the messages of the file, also when there are none. -/
theorem liftMessages_eq_liftBelow (f : File) :
    let walk := Message.liftBelow f.groups.liftable f.messages
      { placed := (f.messages.filter fun m => f.groups.liftable.contains m.name).map (·.name) }
    f.liftMessages.file = { f with messages := walk.1 ++ walk.2.lifted } ∧
      f.liftMessages.changes = walk.2.trail.changes := by
  obtain ⟨package, messages, enums⟩ := f
  -- for a file without messages the pass answers early, with what the walk would give
  cases messages with
  | nil => exact ⟨rfl, rfl⟩
  | cons m ms => exact ⟨rfl, rfl⟩

theorem contains_liftable {f : File} {m : Message} (h : m ∈ f.allMessages) :
    f.groups.liftable.contains m.name = decide (f.Agrees m.name) := by
  rw [Bool.eq_iff_iff, List.contains_iff_mem, decide_eq_true_iff, f.mem_liftable_iff]
  exact and_iff_right ⟨m, h, rfl⟩

theorem strip_liftable {f : File} {m : Message} (h : m ∈ f.allMessages) :
    m.strip f.groups.liftable.contains = f.stripped m := by
  apply Message.strip_congr
  intro a ha
  exact contains_liftable (mem_allMessages_of_mem_inner h ha)

theorem taken_eq (f : File) :
    f.taken = f.nested.filter (f.groups.liftable.contains ·.name) := by
  apply List.filter_congr
  intro x hx
  exact (contains_liftable (message_mem_of_mem_nested hx)).symm

theorem placed_iff {f : File} {x : Nested} (h : x ∈ f.taken) :
    x.name ∈ (f.messages.filter fun m => f.groups.liftable.contains m.name).map (·.name) ↔
      x.name ∈ f.topNames := by
  rw [taken_eq] at h
  obtain ⟨-, hx⟩ := List.mem_filter.mp h
  simp only [topNames, List.mem_map, List.mem_filter]
  constructor
  · rintro ⟨m, ⟨hm, -⟩, hname⟩
    exact ⟨m, hm, hname⟩
  · -- a message at the top with the name of one taken out has a liftable name
    rintro ⟨m, hm, hname⟩
    exact ⟨m, ⟨hm, hname ▸ hx⟩, hname⟩

theorem message_mem_of_mem_taken {f : File} {x : Nested} (h : x ∈ f.taken) :
    x.message ∈ f.allMessages :=
  message_mem_of_mem_nested (List.mem_of_mem_filter h)

theorem mem_taken_of_mem_lifted {f : File} {x : Nested} (h : x ∈ f.lifted) : x ∈ f.taken :=
  (Nested.firsts_sublist f.topNames f.taken).mem h

theorem liftMessages_file (f : File) :
    f.liftMessages.file =
      { package := f.package
        messages := f.messages.map f.stripped ++ f.lifted.map (f.stripped ·.message)
        enums := f.enums } := by
  have hfile := f.liftMessages_eq_liftBelow.1
  have hlifted := (Lifting.takeAll_eq f.groups.liftable.contains f.taken
    { placed := (f.messages.filter fun m => f.groups.liftable.contains m.name).map (·.name) }).1
  have hstays : f.messages.map (Message.strip f.groups.liftable.contains) =
      f.messages.map f.stripped :=
    List.map_congr_left fun m hm => strip_liftable (mem_allMessages_of_mem hm)
  have hends : f.lifted.map (·.message.strip f.groups.liftable.contains) =
      f.lifted.map (f.stripped ·.message) :=
    List.map_congr_left fun x hx =>
      strip_liftable (message_mem_of_mem_taken (mem_taken_of_mem_lifted hx))
  rw [Message.liftBelow_eq, ← nested, ← taken_eq] at hfile
  rw [hfile, hlifted, List.nil_append, Nested.firsts_congr fun x hx => placed_iff hx, ← lifted,
    hstays, hends]

theorem liftMessages_changes (f : File) :
    f.liftMessages.changes =
      (withEarlier f.taken).map fun p => Nested.change f.topNames p.1 p.2 := by
  have hwalk := f.liftMessages_eq_liftBelow.2
  have hchanges := (Lifting.takeAll_eq f.groups.liftable.contains f.taken
    { placed := (f.messages.filter fun m => f.groups.liftable.contains m.name).map (·.name) }).2
  rw [Message.liftBelow_eq, ← nested, ← taken_eq] at hwalk
  rw [hwalk, hchanges, List.nil_append, Nested.changes_congr fun x hx => placed_iff hx]

/-- Lifting strips the messages of the file and appends, stripped, the first message taken of each
name that is new at the top.  It writes down each message taken, in order. -/
theorem liftMessages_eq (f : File) :
    f.liftMessages.file =
        { package := f.package
          messages := f.messages.map f.stripped ++ f.lifted.map (f.stripped ·.message)
          enums := f.enums } ∧
      f.liftMessages.changes =
        (withEarlier f.taken).map fun p => Nested.change f.topNames p.1 p.2 :=
  ⟨f.liftMessages_file, f.liftMessages_changes⟩

/-- `K` leaves its place before the message around it does. -/
example :
    let f : File :=
      { messages := [{ name := "A", messages := [{ name := "B", messages := [{ name := "K" }] }] }] }
    f.liftMessages.file.topNames = ["A", "K", "B"] ∧
      f.liftMessages.changes = [.messageLifted "A.B.K" "K", .messageLifted "A.B" "B"] := by
  decide +kernel

end File

end SchemaNormal
