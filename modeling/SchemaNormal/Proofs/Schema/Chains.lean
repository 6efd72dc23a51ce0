import SchemaNormal.Proofs.Enums.Placed
import SchemaNormal.Proofs.Schema.Nested
import SchemaNormal.Proofs.Schema.Standing

/-!
# Chains of names

A definition that stands inside messages has a chain of names: theirs from the outside in, and its
own.  Its path is the chain joined by dots.  The path can be taken apart again when none of the names
is empty or has a dot in it.
-/

namespace SchemaNormal

def Nested.names (x : Nested) : List String :=
  x.scopes ++ [x.name]

def PlacedEnum.names (x : PlacedEnum) : List String :=
  x.scopes ++ [x.enum.name]

/-! ## What stands inside which messages -/

namespace File

/-- The message stands inside messages of these names, from the outside in. -/
inductive StandsIn (f : File) : List String → Message → Prop where
  | top {m : Message} : m ∈ f.messages → StandsIn f [] m
  | inner {scopes : List String} {a m : Message} :
      StandsIn f scopes a → m ∈ a.messages → StandsIn f (scopes ++ [a.name]) m

end File

namespace Message

theorem inside_eq (scopes : List String) (m : Message) :
    inside scopes m = insideAll (scopes ++ [m.name]) m.messages := by
  cases m
  rfl

theorem placedEnums_eq (scopes : List String) (m : Message) :
    placedEnums scopes m = m.enums.map (⟨scopes ++ [m.name], ·⟩) ++
      placedEnumsAll (scopes ++ [m.name]) m.messages := by
  cases m
  rfl

theorem mem_insideAll {x : Nested} {scopes : List String} {ms : List Message} :
    x ∈ insideAll scopes ms ↔ ∃ m ∈ ms, x ∈ inside scopes m ∨ x = ⟨scopes, m⟩ := by
  induction ms with
  | nil => simp [insideAll]
  | cons m ms ih =>
    rw [insideAll, List.mem_append, List.mem_cons, ih, List.exists_mem_cons_iff, or_assoc]

theorem mem_placedEnumsAll {x : PlacedEnum} {scopes : List String} {ms : List Message} :
    x ∈ placedEnumsAll scopes ms ↔ ∃ m ∈ ms, x ∈ placedEnums scopes m := by
  induction ms with
  | nil => simp [placedEnumsAll]
  | cons m ms ih => rw [placedEnumsAll, List.mem_append, ih, List.exists_mem_cons_iff]

end Message

namespace File

variable {f : File} {scopes : List String}

/-- What the walk lists inside a message stands there, inside that message. -/
theorem StandsIn.of_mem_inside {m : Message} (hm : f.StandsIn scopes m) {x : Nested}
    (hx : x ∈ m.inside scopes) : x.scopes ≠ [] ∧ f.StandsIn x.scopes x.message := by
  induction m generalizing scopes with
  | mk name fields messages enums ih =>
    -- what is inside `m` is one of its own messages `c`, or it is inside `c`
    rw [Message.inside] at hx
    obtain ⟨c, hc, hx⟩ := Message.mem_insideAll.mp hx
    have hstands : f.StandsIn (scopes ++ [name]) c := .inner hm hc
    obtain hx | rfl := hx
    · exact ih c hc hstands hx
    · exact ⟨List.append_ne_nil_of_right_ne_nil scopes (List.cons_ne_nil name []), hstands⟩

/-- The walk comes to every message, so it lists all that is inside it. -/
theorem StandsIn.inside_subset {m : Message} (hm : f.StandsIn scopes m) :
    m.inside scopes ⊆ f.nested := by
  induction hm with
  | top hm =>
    intro x hx
    exact List.mem_flatMap.mpr ⟨_, hm, hx⟩
  | @inner scopes a m _ hm ih =>
    intro x hx
    apply ih
    rw [Message.inside_eq]
    exact Message.mem_insideAll.mpr ⟨m, hm, Or.inl hx⟩

theorem mem_nested_iff (f : File) (x : Nested) :
    x ∈ f.nested ↔ x.scopes ≠ [] ∧ f.StandsIn x.scopes x.message := by
  constructor
  · intro hx
    obtain ⟨top, htop, hx⟩ := List.mem_flatMap.mp hx
    exact (StandsIn.top htop).of_mem_inside hx
  · obtain ⟨scopes, m⟩ := x
    rintro ⟨hscopes, hm⟩
    cases hm with
    | top _ => exact absurd rfl hscopes
    | @inner scopes a m ha hm =>
      apply ha.inside_subset
      rw [Message.inside_eq]
      exact Message.mem_insideAll.mpr ⟨m, hm, Or.inr rfl⟩

theorem StandsIn.of_mem_placedEnums {m : Message} (hm : f.StandsIn scopes m) {x : PlacedEnum}
    (hx : x ∈ m.placedEnums scopes) :
    ∃ outer a, f.StandsIn outer a ∧ x.scopes = outer ++ [a.name] ∧ x.enum ∈ a.enums := by
  induction m generalizing scopes with
  | mk name fields messages enums ih =>
    rw [Message.placedEnums, List.mem_append] at hx
    obtain hown | hinner := hx
    · obtain ⟨e, he, rfl⟩ := List.mem_map.mp hown
      exact ⟨scopes, ⟨name, fields, messages, enums⟩, hm, rfl, he⟩
    · obtain ⟨c, hc, hx⟩ := Message.mem_placedEnumsAll.mp hinner
      exact ih c hc (.inner hm hc) hx

theorem StandsIn.placedEnums_subset {m : Message} (hm : f.StandsIn scopes m) :
    m.placedEnums scopes ⊆ f.placedEnums := by
  induction hm with
  | @top m hm =>
    intro x hx
    exact List.mem_append_right _ (Message.mem_placedEnumsAll.mpr ⟨m, hm, hx⟩)
  | @inner scopes a m _ hm ih =>
    intro x hx
    apply ih
    rw [Message.placedEnums_eq]
    exact List.mem_append_right _ (Message.mem_placedEnumsAll.mpr ⟨m, hm, hx⟩)

theorem mem_placedEnums_iff (f : File) (x : PlacedEnum) :
    x ∈ f.placedEnums ↔ (x.scopes = [] ∧ x.enum ∈ f.enums) ∨
      ∃ outer m, f.StandsIn outer m ∧ x.scopes = outer ++ [m.name] ∧ x.enum ∈ m.enums := by
  constructor
  · intro hx
    obtain htop | hinner := List.mem_append.mp hx
    · obtain ⟨e, he, rfl⟩ := List.mem_map.mp htop
      exact Or.inl ⟨rfl, he⟩
    · obtain ⟨m, hm, hx⟩ := Message.mem_placedEnumsAll.mp hinner
      exact Or.inr ((StandsIn.top hm).of_mem_placedEnums hx)
  · obtain ⟨scopes, e⟩ := x
    rintro (⟨rfl, he⟩ | ⟨outer, m, hm, rfl, he⟩)
    · exact List.mem_append_left _ (List.mem_map.mpr ⟨e, he, rfl⟩)
    · apply hm.placedEnums_subset
      rw [Message.placedEnums_eq]
      exact List.mem_append_left _ (List.mem_map.mpr ⟨e, he, rfl⟩)

theorem StandsIn.stands {m : Message} (hm : f.StandsIn scopes m) : f.Stands scopes.length m := by
  induction hm with
  | top hm => exact .top hm
  | inner _ hm ih =>
    rw [List.length_append, List.length_singleton]
    exact .inner ih hm

/-- The names around a message are names of messages of the file. -/
theorem StandsIn.exists_of_mem {m : Message} (hm : f.StandsIn scopes m) {name : String}
    (hname : name ∈ scopes) : ∃ a ∈ f.allMessages, a.name = name := by
  induction hm with
  | top _ => cases hname
  | @inner scopes a m ha _ ih =>
    obtain hname | hname := List.mem_append.mp hname
    · exact ih hname
    · exact ⟨a, ha.stands.mem_allMessages, (List.mem_singleton.mp hname).symm⟩

end File

/-! ## Paths that can be taken apart -/

/-- The name is not empty and has no dot in it. -/
def IsPlain (name : String) : Prop :=
  name ≠ "" ∧ '.' ∉ name.toList

instance : DecidablePred IsPlain := fun _ => inferInstanceAs (Decidable (_ ∧ _))

theorem dotted_of_plain {names : List String} (h : ∀ name ∈ names, IsPlain name) :
    dotted names = ".".intercalate names := by
  cases names with
  | nil => rw [dotted_nil, String.intercalate_nil]
  | cons name names =>
    have hname : name ≠ "" := (h name List.mem_cons_self).1
    exact dotted_cons_of_not_isEmpty names (by rwa [String.isEmpty_iff])

/-- Split at its dots, the path of a chain of plain names gives back the chain. -/
theorem splitOn_dotted {names : List String} (h : ∀ name ∈ names, IsPlain name)
    (hnames : names ≠ []) : (dotted names).toList.splitOn '.' = names.map String.toList := by
  have hdots : ∀ cs ∈ names.map String.toList, '.' ∉ cs := by
    intro cs hcs
    obtain ⟨name, hname, rfl⟩ := List.mem_map.mp hcs
    exact (h name hname).2
  rw [dotted_of_plain h, String.toList_intercalate]
  exact List.splitOn_intercalate '.' hdots (by simpa using hnames)

theorem dotted_inj {names names' : List String} (h : ∀ name ∈ names, IsPlain name)
    (h' : ∀ name ∈ names', IsPlain name) (hnames : names ≠ []) (hnames' : names' ≠ []) :
    dotted names = dotted names' ↔ names = names' := by
  constructor
  · intro heq
    have hsplit : names.map String.toList = names'.map String.toList := by
      rw [← splitOn_dotted h hnames, heq, splitOn_dotted h' hnames']
    exact List.map_injective_iff.mpr (fun _ _ => String.toList_inj.mp) hsplit
  · rintro rfl
    rfl

end SchemaNormal
