import SchemaNormal.Proofs.Enums.Edit
import SchemaNormal.Proofs.Schema.Path

/-!
# Where enums stand

The enums of a file in the order of a visit, each with the names of the messages around it.  The
state of any visitor is its fold over this list.
-/

namespace SchemaNormal

/-- An enum and the names around it, from the outside in. -/
structure PlacedEnum where
  scopes : List String
  enum : Enum
deriving DecidableEq, Repr

namespace PlacedEnum

/-- The names around the enum and its own, joined by dots. -/
def path (x : PlacedEnum) : String :=
  dotted (x.scopes ++ [x.enum.name])

/-- The edited enum at the same place. -/
def map (edit : Enum → Enum) (x : PlacedEnum) : PlacedEnum :=
  { x with enum := edit x.enum }

theorem path_map {edit : Enum → Enum} (h : ∀ e, (edit e).name = e.name) (x : PlacedEnum) :
    (x.map edit).path = x.path := by
  unfold path map
  rw [h]

end PlacedEnum

namespace Message

mutual

/-- The enums of a message that stands in `scopes`, and then those of the messages inside it. -/
def placedEnums (scopes : List String) : Message → List PlacedEnum
  | ⟨name, _, messages, enums⟩ =>
      enums.map (⟨scopes ++ [name], ·⟩) ++ placedEnumsAll (scopes ++ [name]) messages

def placedEnumsAll (scopes : List String) : List Message → List PlacedEnum
  | [] => []
  | m :: ms => placedEnums scopes m ++ placedEnumsAll scopes ms

end

end Message

def File.placedEnums (f : File) : List PlacedEnum :=
  f.enums.map (⟨[], ·⟩) ++ Message.placedEnumsAll [] f.messages

/-! ## The placed enums are all enums -/

mutual

theorem Message.map_enum_placedEnums (scopes : List String) : ∀ m : Message,
    (placedEnums scopes m).map (·.enum) = m.preorder.flatMap (·.enums)
  | ⟨name, fields, messages, enums⟩ => by
    rw [placedEnums, preorder, List.map_append, List.map_map, List.flatMap_cons,
      map_enum_placedEnumsAll (scopes ++ [name]) messages]
    congr 1
    exact List.map_id enums

theorem Message.map_enum_placedEnumsAll (scopes : List String) : ∀ ms : List Message,
    (placedEnumsAll scopes ms).map (·.enum) = (preorderAll ms).flatMap (·.enums)
  | [] => rfl
  | m :: ms => by
    rw [placedEnumsAll, preorderAll, List.map_append, List.flatMap_append,
      map_enum_placedEnums scopes m, map_enum_placedEnumsAll scopes ms]

end

theorem File.map_enum_placedEnums (f : File) : f.placedEnums.map (·.enum) = f.allEnums := by
  unfold placedEnums allEnums
  rw [List.map_append, List.map_map, Message.map_enum_placedEnumsAll]
  congr 1
  exact List.map_id f.enums

/-- What holds of each enum in its place holds of all enums. -/
theorem File.forall_placedEnums_iff (f : File) (P : Enum → Prop) :
    (∀ x ∈ f.placedEnums, P x.enum) ↔ ∀ e ∈ f.allEnums, P e := by
  rw [← map_enum_placedEnums, List.forall_mem_map]

/-! ## Edited enums keep their places -/

section Edit

variable {edit : Enum → Enum}

mutual

theorem Message.placedEnums_mapEnums (scopes : List String) :
    ∀ m : Message, placedEnums scopes (mapEnums edit m) = (placedEnums scopes m).map (·.map edit)
  | ⟨name, _, messages, enums⟩ => by
    rw [mapEnums, placedEnums, placedEnums, placedEnumsAll_mapEnumsAll (scopes ++ [name]) messages,
      List.map_append, List.map_map, List.map_map]
    rfl

theorem Message.placedEnumsAll_mapEnumsAll (scopes : List String) :
    ∀ ms : List Message,
      placedEnumsAll scopes (mapEnumsAll edit ms) = (placedEnumsAll scopes ms).map (·.map edit)
  | [] => rfl
  | m :: ms => by
    rw [mapEnumsAll, placedEnumsAll, placedEnumsAll, placedEnums_mapEnums scopes m,
      placedEnumsAll_mapEnumsAll scopes ms, List.map_append]

end

theorem File.placedEnums_mapEnums (f : File) :
    (f.mapEnums edit).placedEnums = f.placedEnums.map (·.map edit) := by
  unfold placedEnums
  rw [List.map_append, List.map_map, ← Message.placedEnumsAll_mapEnumsAll]
  unfold mapEnums
  rw [List.map_map]
  rfl

end Edit

/-! ## A visit is a fold -/

section Visit

variable {σ : Type} (visit : EnumVisitor σ)

/-- The state of a visitor after one more enum. -/
def PlacedEnum.step (s : σ) (x : PlacedEnum) : σ :=
  (visit s x.enum x.path).1

theorem Enum.visitAll_fst (scopes : List String) (es : List Enum) (s : σ) :
    (Enum.visitAll visit (dotted scopes) es s).1 =
      (es.map (⟨scopes, ·⟩)).foldl (PlacedEnum.step visit) s := by
  induction es generalizing s with
  | nil => rfl
  | cons e es ih =>
    rw [Enum.visitAll, List.map_cons, List.foldl_cons, ← ih, qualify_dotted]
    rfl

mutual

theorem Message.visitEnums_fst (scopes : List String) : ∀ (m : Message) (s : σ),
    (m.visitEnums visit (dotted scopes) s).1 =
      (placedEnums scopes m).foldl (PlacedEnum.step visit) s
  | ⟨name, _, messages, enums⟩, s => by
    rw [Message.visitEnums, placedEnums, List.foldl_append, qualify_dotted,
      ← Enum.visitAll_fst visit (scopes ++ [name]) enums s,
      ← Message.visitEnumsAll_fst (scopes ++ [name]) messages]

theorem Message.visitEnumsAll_fst (scopes : List String) : ∀ (ms : List Message) (s : σ),
    (Message.visitEnumsAll visit (dotted scopes) ms s).1 =
      (placedEnumsAll scopes ms).foldl (PlacedEnum.step visit) s
  | [], _ => rfl
  | m :: ms, s => by
    rw [Message.visitEnumsAll, placedEnumsAll, List.foldl_append,
      ← Message.visitEnums_fst scopes m s, ← Message.visitEnumsAll_fst scopes ms]

end

/-- The last state of a visitor that starts in `s`. -/
theorem File.visitEnums_fst (f : File) (s : σ) :
    (f.visitEnums visit s).1 = f.placedEnums.foldl (PlacedEnum.step visit) s := by
  rw [File.visitEnums, placedEnums, List.foldl_append, ← Enum.visitAll_fst visit [] f.enums s,
    ← Message.visitEnumsAll_fst visit [] f.messages, dotted_nil]

end Visit

end SchemaNormal
