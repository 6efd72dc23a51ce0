import SchemaNormal.Proofs.Lifting.Walk
import SchemaNormal.Proofs.Schema.Chains

/-!
# Paths of a report

Two walks make paths on their way down, the one that lifts messages and the one that visits enums.
Both give a definition the path of its chain of names.  In a file of plain names a path stands for
one chain only, whichever walk has made it.
-/

namespace SchemaNormal

/-- Where a change took place. -/
def Change.path : Change → String
  | .messageLifted path _ => path
  | .duplicateDropped path _ => path
  | .zeroInserted path _ => path
  | .valueRenamed path _ _ => path

theorem Nested.path_change (names : List String) (earlier : List Nested) (x : Nested) :
    (change names earlier x).path = dotted x.names := by
  unfold change
  split <;> rfl

/-- Each message taken out is written down with the path of its chain. -/
theorem Lifting.map_path_takeAll (gone : String → Bool) (xs : List Nested) (state : Lifting) :
    (takeAll gone xs state).trail.changes.map Change.path =
      state.trail.changes.map Change.path ++ xs.map (dotted ·.names) := by
  have hchanges := (takeAll_eq gone xs state).2
  calc
    (takeAll gone xs state).trail.changes.map Change.path =
        state.trail.changes.map Change.path ++
          (withEarlier xs).map fun p => (Nested.change state.placed p.1 p.2).path := by
      rw [hchanges, List.map_append, List.map_map]
      rfl
    _ = state.trail.changes.map Change.path ++
          ((withEarlier xs).map (·.2)).map (dotted ·.names) := by
      rw [List.map_map]
      exact congrArg (_ ++ ·) (List.map_congr_left fun p _ => Nested.path_change _ p.1 p.2)
    _ = state.trail.changes.map Change.path ++ xs.map (dotted ·.names) := by
      rw [map_snd_withEarlier]

namespace File

/-- The chains of names of the nested messages and of the enums. -/
def chains (f : File) : List (List String) :=
  f.nested.map (·.names) ++ f.placedEnums.map (·.names)

theorem ne_nil_of_mem_chains {f : File} {names : List String} (h : names ∈ f.chains) :
    names ≠ [] := by
  obtain h | h := List.mem_append.mp h
  · obtain ⟨x, -, rfl⟩ := List.mem_map.mp h
    exact List.append_ne_nil_of_right_ne_nil x.scopes (List.cons_ne_nil x.name [])
  · obtain ⟨x, -, rfl⟩ := List.mem_map.mp h
    exact List.append_ne_nil_of_right_ne_nil x.scopes (List.cons_ne_nil x.enum.name [])

/-- Every name of a chain is the name of a message or of an enum of the file. -/
theorem isPlain_of_mem_chains {f : File} (hmessages : ∀ m ∈ f.allMessages, IsPlain m.name)
    (henums : ∀ e ∈ f.allEnums, IsPlain e.name) {names : List String} (h : names ∈ f.chains) :
    ∀ name ∈ names, IsPlain name := by
  have haround : ∀ {scopes : List String} {m : Message}, f.StandsIn scopes m →
      ∀ name ∈ scopes ++ [m.name], IsPlain name := by
    intro scopes m hm name hname
    obtain hname | hname := List.mem_append.mp hname
    · obtain ⟨a, ha, rfl⟩ := hm.exists_of_mem hname
      exact hmessages a ha
    · obtain rfl := List.mem_singleton.mp hname
      exact hmessages m hm.stands.mem_allMessages
  obtain h | h := List.mem_append.mp h
  · obtain ⟨x, hx, rfl⟩ := List.mem_map.mp h
    exact haround ((f.mem_nested_iff x).mp hx).2
  · obtain ⟨x, hx, rfl⟩ := List.mem_map.mp h
    have hown : IsPlain x.enum.name := (f.forall_placedEnums_iff (IsPlain ·.name)).mpr henums x hx
    intro name hname
    obtain hname | hname := List.mem_append.mp hname
    · -- an enum at the top has no names around it
      obtain ⟨hscopes, -⟩ | ⟨outer, m, hm, hscopes, -⟩ := (f.mem_placedEnums_iff x).mp hx
      · rw [hscopes] at hname
        cases hname
      · exact haround hm name (hscopes ▸ hname)
    · rw [List.mem_singleton.mp hname]
      exact hown

/-- Whichever names are taken for liftable and whatever a visitor does, the paths are those of the
chains of the given names: of each nested message that is taken out, in the order of the walk, and of
each enum, in the order of the visit.  The chain of a definition has the names of the messages that
it stands in, from the outside in, and its own.  With plain names all round, equal paths are paths of
one chain. -/
theorem paths_eq_dotted_names (f : File) :
    (∀ liftable state,
      (Message.liftBelow liftable f.messages state).2.trail.changes.map Change.path =
        state.trail.changes.map Change.path ++
          (f.nested.filter fun x => liftable.contains x.name).map (dotted ·.names)) ∧
    (∀ (σ : Type) (visit : EnumVisitor σ) (s : σ),
      (f.visitEnums visit s).1 =
        f.placedEnums.foldl (fun s x => (visit s x.enum (dotted x.names)).1) s) ∧
    (∀ x, x ∈ f.nested ↔ x.scopes ≠ [] ∧ f.StandsIn x.scopes x.message) ∧
    (∀ x, x ∈ f.placedEnums ↔ (x.scopes = [] ∧ x.enum ∈ f.enums) ∨
      ∃ outer m, f.StandsIn outer m ∧ x.scopes = outer ++ [m.name] ∧ x.enum ∈ m.enums) ∧
    ((∀ m ∈ f.allMessages, IsPlain m.name) → (∀ e ∈ f.allEnums, IsPlain e.name) →
      ∀ names ∈ f.chains, ∀ names' ∈ f.chains, dotted names = dotted names' → names = names') := by
  refine ⟨fun liftable state => ?_, fun σ visit s => f.visitEnums_fst visit s, f.mem_nested_iff,
    f.mem_placedEnums_iff, fun hmessages henums names hnames names' hnames' heq => ?_⟩
  · rw [Message.liftBelow_eq]
    exact Lifting.map_path_takeAll _ _ state
  · have hplain : ∀ name ∈ names, IsPlain name := isPlain_of_mem_chains hmessages henums hnames
    have hplain' : ∀ name ∈ names', IsPlain name := isPlain_of_mem_chains hmessages henums hnames'
    exact (dotted_inj hplain hplain' (ne_nil_of_mem_chains hnames)
      (ne_nil_of_mem_chains hnames')).mp heq

/-- A message and an enum share the path `A.B`, and both have the names `A` and `B`. -/
theorem samePath_paths_eq_dotted_names :
    let b : Message := { name := "B", enums := [{ name := "C" }] }
    let f : File := { messages := [{ name := "A", messages := [b], enums := [{ name := "B" }] }] }
    (∀ m ∈ f.allMessages, IsPlain m.name) ∧ (∀ e ∈ f.allEnums, IsPlain e.name) ∧
      ⟨["A"], b⟩ ∈ f.nested ∧ ⟨["A"], { name := "B" }⟩ ∈ f.placedEnums ∧
      (∀ names ∈ f.chains, dotted names = "A.B" → names = ["A", "B"]) ∧
      (Message.liftBelow ["B"] f.messages ⟨[], [], {}⟩).2.trail.changes.map Change.path =
        ["A.B"] ∧
      (f.visitEnums (fun paths e path => (paths ++ [path], e)) []).1 = ["A.B", "A.B.C"] := by
  intro b f
  obtain ⟨hlifted, hvisited, -, -, hinj⟩ := f.paths_eq_dotted_names
  have hmessages : ∀ m ∈ f.allMessages, IsPlain m.name := by decide +kernel
  have henums : ∀ e ∈ f.allEnums, IsPlain e.name := by decide +kernel
  have hpath : dotted ["A", "B"] = "A.B" := by decide +kernel
  have hchain : ["A", "B"] ∈ f.chains := by decide +kernel
  refine ⟨hmessages, henums, by decide +kernel, by decide +kernel, ?_, ?_, ?_⟩
  · intro names hnames heq
    exact hinj hmessages henums names hnames ["A", "B"] hchain (heq.trans hpath.symm)
  · rw [hlifted]
    decide +kernel
  · rw [hvisited]
    decide +kernel

/-- Empty names are lost at the front of a path only, and a name with a dot in it can make two chains
look the same. -/
example :
    dotted ["", "", "A", "", "B", ""] = "A..B." ∧ dotted ["A.B", "C"] = dotted ["A", "B", "C"] := by
  decide +kernel

end File

end SchemaNormal
