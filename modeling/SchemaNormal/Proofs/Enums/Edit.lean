import SchemaNormal.Proofs.Schema.Members
import SchemaNormal.Schema.Visit

/-!
# Editing every enum

A visitor whose answer depends on nothing but the enum edits each enum of the file in its place
and leaves the rest of the file as it is.
-/

namespace SchemaNormal

namespace Message

mutual

/-- The message with every enum in it edited. -/
def mapEnums (edit : Enum → Enum) : Message → Message
  | ⟨name, fields, messages, enums⟩ =>
      ⟨name, fields, mapEnumsAll edit messages, enums.map edit⟩

def mapEnumsAll (edit : Enum → Enum) : List Message → List Message
  | [] => []
  | m :: ms => mapEnums edit m :: mapEnumsAll edit ms

end

variable {edit : Enum → Enum}

@[simp] theorem mapEnums_name (m : Message) : (mapEnums edit m).name = m.name := by
  cases m
  rfl

@[simp] theorem mapEnums_enums (m : Message) : (mapEnums edit m).enums = m.enums.map edit := by
  cases m
  rfl

@[simp] theorem mapEnums_fields (m : Message) : (mapEnums edit m).fields = m.fields := by
  cases m
  rfl

theorem mapEnums_messages (m : Message) :
    (mapEnums edit m).messages = mapEnumsAll edit m.messages := by
  cases m
  rfl

theorem mapEnumsAll_eq_map (ms : List Message) : mapEnumsAll edit ms = ms.map (mapEnums edit) := by
  induction ms with
  | nil => rfl
  | cons m ms ih => rw [mapEnumsAll, ih, List.map_cons]

mutual

theorem preorder_mapEnums :
    ∀ m : Message, preorder (mapEnums edit m) = (preorder m).map (mapEnums edit)
  | ⟨_, _, messages, _⟩ => by
    rw [mapEnums, preorder, preorder, preorderAll_mapEnumsAll messages]
    rfl

theorem preorderAll_mapEnumsAll :
    ∀ ms : List Message, preorderAll (mapEnumsAll edit ms) = (preorderAll ms).map (mapEnums edit)
  | [] => rfl
  | m :: ms => by
    rw [mapEnumsAll, preorderAll, preorderAll, List.map_append, preorder_mapEnums m,
      preorderAll_mapEnumsAll ms]

end

mutual

theorem mapEnums_id : ∀ m : Message, mapEnums id m = m
  | ⟨_, _, messages, _⟩ => by
    rw [mapEnums, mapEnumsAll_id messages, List.map_id]

theorem mapEnumsAll_id : ∀ ms : List Message, mapEnumsAll id ms = ms
  | [] => rfl
  | m :: ms => by
    rw [mapEnumsAll, mapEnums_id m, mapEnumsAll_id ms]

end

variable {edit' : Enum → Enum}

/-- Edits that agree at the enums of a message give the same message. -/
theorem mapEnums_congr {m : Message} (h : ∀ a ∈ preorder m, ∀ e ∈ a.enums, edit e = edit' e) :
    mapEnums edit m = mapEnums edit' m := by
  induction m with
  | mk name fields messages enums ih =>
    have henums : enums.map edit = enums.map edit' :=
      List.map_congr_left (h _ (mem_preorder_self _))
    have hmessages : messages.map (mapEnums edit) = messages.map (mapEnums edit') := by
      apply List.map_congr_left
      intro m hm
      apply ih m hm
      intro a ha
      apply h
      rw [preorder]
      exact List.mem_cons_of_mem _ (mem_preorderAll.mpr ⟨m, hm, ha⟩)
    rw [mapEnums, mapEnums, mapEnumsAll_eq_map, mapEnumsAll_eq_map, henums, hmessages]

variable (edit')

mutual

theorem mapEnums_mapEnums :
    ∀ m : Message, mapEnums edit' (mapEnums edit m) = mapEnums (edit' ∘ edit) m
  | ⟨_, _, messages, _⟩ => by
    rw [mapEnums, mapEnums, mapEnums, mapEnumsAll_mapEnumsAll messages, List.map_map]

theorem mapEnumsAll_mapEnumsAll : ∀ ms : List Message,
    mapEnumsAll edit' (mapEnumsAll edit ms) = mapEnumsAll (edit' ∘ edit) ms
  | [] => rfl
  | m :: ms => by
    rw [mapEnumsAll, mapEnumsAll, mapEnumsAll, mapEnums_mapEnums m, mapEnumsAll_mapEnumsAll ms]

end

end Message

def File.mapEnums (edit : Enum → Enum) (f : File) : File :=
  { f with messages := Message.mapEnumsAll edit f.messages, enums := f.enums.map edit }

theorem File.mapEnums_messages (edit : Enum → Enum) (f : File) :
    (f.mapEnums edit).messages = f.messages.map (Message.mapEnums edit) :=
  Message.mapEnumsAll_eq_map f.messages

theorem File.mapEnums_id (f : File) : f.mapEnums id = f := by
  unfold mapEnums
  rw [Message.mapEnumsAll_id, List.map_id]

theorem File.mapEnums_congr {edit edit' : Enum → Enum} {f : File}
    (h : ∀ e ∈ f.allEnums, edit e = edit' e) : f.mapEnums edit = f.mapEnums edit' := by
  have henums : f.enums.map edit = f.enums.map edit' :=
    List.map_congr_left fun e he => h e (mem_allEnums.mpr (Or.inl he))
  have hmessages : f.messages.map (Message.mapEnums edit) =
      f.messages.map (Message.mapEnums edit') := by
    apply List.map_congr_left
    intro m hm
    apply Message.mapEnums_congr
    intro a ha e he
    have hmem : a ∈ f.allMessages := Message.mem_preorderAll.mpr ⟨m, hm, ha⟩
    exact h e (mem_allEnums.mpr (Or.inr ⟨a, hmem, he⟩))
  unfold mapEnums
  rw [Message.mapEnumsAll_eq_map, Message.mapEnumsAll_eq_map, henums, hmessages]

/-- An edit after an edit is one edit. -/
theorem File.mapEnums_mapEnums (edit edit' : Enum → Enum) (f : File) :
    (f.mapEnums edit).mapEnums edit' = f.mapEnums (edit' ∘ edit) := by
  unfold mapEnums
  rw [Message.mapEnumsAll_mapEnumsAll, List.map_map]

theorem File.allMessages_mapEnums (edit : Enum → Enum) (f : File) :
    (f.mapEnums edit).allMessages = f.allMessages.map (Message.mapEnums edit) :=
  Message.preorderAll_mapEnumsAll f.messages

theorem File.allEnums_mapEnums (edit : Enum → Enum) (f : File) :
    (f.mapEnums edit).allEnums = f.allEnums.map edit := by
  unfold allEnums
  rw [allMessages_mapEnums, mapEnums, List.map_append, List.flatMap_map, List.map_flatMap]
  simp only [Message.mapEnums_enums]

/-- What holds of all enums after an edit. -/
theorem File.forall_allEnums_mapEnums_iff {edit : Enum → Enum} {f : File} {P : Enum → Prop} :
    (∀ e ∈ (f.mapEnums edit).allEnums, P e) ↔ ∀ e ∈ f.allEnums, P (edit e) := by
  rw [allEnums_mapEnums, List.forall_mem_map]

/-- An edit leaves a file as it is only if it leaves each enum as it is. -/
theorem File.mapEnums_eq_self_iff {edit : Enum → Enum} {f : File} :
    f.mapEnums edit = f ↔ ∀ e ∈ f.allEnums, edit e = e := by
  constructor
  · intro h
    have henums : f.allEnums.map edit = f.allEnums.map id := by
      rw [← allEnums_mapEnums, h, List.map_id]
    exact List.map_eq_map_iff.mp henums
  · intro h
    exact (mapEnums_congr h).trans f.mapEnums_id

/-! ## Visitors that edit -/

section Visit

variable {σ : Type} {visit : EnumVisitor σ} {edit : Enum → Enum}

theorem Enum.visitAll_snd (h : ∀ s e path, (visit s e path).2 = edit e) (scope : String)
    (es : List Enum) (s : σ) : (Enum.visitAll visit scope es s).2 = es.map edit := by
  induction es generalizing s with
  | nil => rfl
  | cons e es ih =>
    have he := h s e (qualify scope e.name)
    rw [Enum.visitAll, List.map_cons, ← he, ← ih]

mutual

theorem Message.visitEnums_snd (h : ∀ s e path, (visit s e path).2 = edit e) (scope : String) :
    ∀ (m : Message) (s : σ), (m.visitEnums visit scope s).2 = m.mapEnums edit
  | ⟨name, fields, messages, enums⟩, s => by
    rw [Message.visitEnums, Message.mapEnums, ← Enum.visitAll_snd h (qualify scope name) enums s,
      ← Message.visitEnumsAll_snd h (qualify scope name) messages]

theorem Message.visitEnumsAll_snd (h : ∀ s e path, (visit s e path).2 = edit e) (scope : String) :
    ∀ (ms : List Message) (s : σ),
      (Message.visitEnumsAll visit scope ms s).2 = Message.mapEnumsAll edit ms
  | [], _ => rfl
  | m :: ms, s => by
    rw [Message.visitEnumsAll, Message.mapEnumsAll, ← Message.visitEnums_snd h scope m s,
      ← Message.visitEnumsAll_snd h scope ms]

end

theorem File.visitEnums_snd (h : ∀ s e path, (visit s e path).2 = edit e) (f : File) (s : σ) :
    (f.visitEnums visit s).2 = f.mapEnums edit := by
  rw [File.visitEnums, File.mapEnums, ← Enum.visitAll_snd h "" f.enums s,
    ← Message.visitEnumsAll_snd h "" f.messages]

end Visit

end SchemaNormal
