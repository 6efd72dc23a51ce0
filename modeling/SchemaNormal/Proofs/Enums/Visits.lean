import SchemaNormal.Proofs.Enums.Placed

/-!
# A visit seen from outside

A visit threads a state through a file and builds the file anew on its way.  From outside it goes
through the list of placed enums: the state is the fold over this list, and the answers take the
places of the enums in the same order.  A file is told by two things, its frame and the list of its
enums, so nothing else about the visited file needs to be said.
-/

namespace SchemaNormal

/-- What is left of a file when every enum in it is blotted out. -/
def File.frame (f : File) : File :=
  f.mapEnums fun _ => default

/-! ## Frame and enums tell a file -/

section Const

variable {blank : Enum}

theorem length_eq_of_map_const {es es' : List Enum}
    (h : es.map (fun _ => blank) = es'.map fun _ => blank) : es.length = es'.length := by
  simpa only [List.length_map] using congrArg List.length h

namespace Message

theorem flatMap_enums_preorderAll_mapEnumsAll {edit : Enum → Enum} (ms : List Message) :
    (preorderAll (mapEnumsAll edit ms)).flatMap (·.enums) =
      ((preorderAll ms).flatMap (·.enums)).map edit := by
  rw [preorderAll_mapEnumsAll, List.flatMap_map, List.map_flatMap]
  simp only [mapEnums_enums]

/-- Messages with one frame have enums in the same places, so their lists of enums can be divided
in the same way. -/
theorem enums_append_inj {m m' : Message} {es es' : List Enum}
    (hframe : mapEnums (fun _ => blank) m = mapEnums (fun _ => blank) m')
    (h : m.preorder.flatMap (·.enums) ++ es = m'.preorder.flatMap (·.enums) ++ es') :
    m.preorder.flatMap (·.enums) = m'.preorder.flatMap (·.enums) ∧ es = es' := by
  have hsingle : ∀ a : Message, preorderAll [a] = a.preorder := fun a => List.append_nil _
  have hall : mapEnumsAll (fun _ => blank) [m] = mapEnumsAll (fun _ => blank) [m'] := by
    rw [mapEnumsAll, mapEnumsAll, hframe]
    rfl
  have hblank := congrArg (fun ms => (preorderAll ms).flatMap (·.enums)) hall
  simp only [flatMap_enums_preorderAll_mapEnumsAll, hsingle] at hblank
  exact List.append_inj h (length_eq_of_map_const hblank)

mutual

theorem eq_of_frame : ∀ m m' : Message,
    mapEnums (fun _ => blank) m = mapEnums (fun _ => blank) m' →
      m.preorder.flatMap (·.enums) = m'.preorder.flatMap (·.enums) → m = m'
  | ⟨_, _, messages, enums⟩, ⟨_, _, messages', enums'⟩, hframe, henums => by
    simp only [mapEnums, Message.mk.injEq] at hframe
    obtain ⟨rfl, rfl, hmessages, hblank⟩ := hframe
    simp only [preorder, List.flatMap_cons] at henums
    obtain ⟨rfl, hinner⟩ := List.append_inj henums (length_eq_of_map_const hblank)
    rw [eq_of_frameAll messages messages' hmessages hinner]

theorem eq_of_frameAll : ∀ ms ms' : List Message,
    mapEnumsAll (fun _ => blank) ms = mapEnumsAll (fun _ => blank) ms' →
      (preorderAll ms).flatMap (·.enums) = (preorderAll ms').flatMap (·.enums) → ms = ms'
  | [], [], _, _ => rfl
  | m :: ms, m' :: ms', hframe, henums => by
    simp only [mapEnumsAll, List.cons.injEq] at hframe
    obtain ⟨hm, hms⟩ := hframe
    simp only [preorderAll, List.flatMap_append] at henums
    obtain ⟨henum, henums⟩ := enums_append_inj hm henums
    rw [eq_of_frame m m' hm henum, eq_of_frameAll ms ms' hms henums]

end

end Message

end Const

theorem File.eq_of_frame {f g : File} (hframe : f.frame = g.frame)
    (henums : f.allEnums = g.allEnums) : f = g := by
  obtain ⟨package, messages, enums⟩ := f
  obtain ⟨package', messages', enums'⟩ := g
  simp only [frame, mapEnums, File.mk.injEq] at hframe
  obtain ⟨rfl, hmessages, hblank⟩ := hframe
  obtain ⟨rfl, hinner⟩ := List.append_inj henums (length_eq_of_map_const hblank)
  rw [Message.eq_of_frameAll messages messages' hmessages hinner]

section Visit

variable {σ : Type} (visit : EnumVisitor σ)

/-! ## A visit keeps the frame -/

theorem Enum.visitAll_map_const (blank : Enum) (scope : String) (es : List Enum) (s : σ) :
    (Enum.visitAll visit scope es s).2.map (fun _ => blank) = es.map fun _ => blank := by
  induction es generalizing s with
  | nil => rfl
  | cons e es ih => rw [Enum.visitAll, List.map_cons, List.map_cons, ih]

mutual

theorem Message.frame_visitEnums (blank : Enum) (scope : String) : ∀ (m : Message) (s : σ),
    mapEnums (fun _ => blank) (m.visitEnums visit scope s).2 = mapEnums (fun _ => blank) m
  | ⟨name, _, messages, enums⟩, s => by
    rw [Message.visitEnums, mapEnums, mapEnums,
      Message.frame_visitEnumsAll blank (qualify scope name) messages,
      Enum.visitAll_map_const visit blank]

theorem Message.frame_visitEnumsAll (blank : Enum) (scope : String) :
    ∀ (ms : List Message) (s : σ),
      mapEnumsAll (fun _ => blank) (Message.visitEnumsAll visit scope ms s).2 =
        mapEnumsAll (fun _ => blank) ms
  | [], _ => rfl
  | m :: ms, s => by
    rw [Message.visitEnumsAll, mapEnumsAll, mapEnumsAll, Message.frame_visitEnums blank scope m,
      Message.frame_visitEnumsAll blank scope ms]

end

theorem File.frame_visitEnums (f : File) (s : σ) : (f.visitEnums visit s).2.frame = f.frame := by
  rw [File.visitEnums, frame, frame, mapEnums, mapEnums,
    Message.frame_visitEnumsAll visit default "" f.messages,
    Enum.visitAll_map_const visit default "" f.enums]

/-! ## The answers in their order -/

/-- What a visitor that starts in a state answers to the enums of a list, one after the other. -/
def PlacedEnum.answers : List PlacedEnum → σ → List Enum
  | [], _ => []
  | x :: xs, s => (visit s x.enum x.path).2 :: answers xs (visit s x.enum x.path).1

theorem PlacedEnum.answers_append (xs ys : List PlacedEnum) (s : σ) :
    answers visit (xs ++ ys) s =
      answers visit xs s ++ answers visit ys (xs.foldl (step visit) s) := by
  induction xs generalizing s with
  | nil => rfl
  | cons x xs ih =>
    rw [List.cons_append, answers, answers, ih]
    rfl

theorem Enum.visitAll_eq_answers (scopes : List String) (es : List Enum) (s : σ) :
    (Enum.visitAll visit (dotted scopes) es s).2 =
      PlacedEnum.answers visit (es.map (⟨scopes, ·⟩)) s := by
  induction es generalizing s with
  | nil => rfl
  | cons e es ih =>
    rw [Enum.visitAll, List.map_cons, PlacedEnum.answers, ← ih, qualify_dotted]
    rfl

mutual

theorem Message.enums_visitEnums (scopes : List String) : ∀ (m : Message) (s : σ),
    (m.visitEnums visit (dotted scopes) s).2.preorder.flatMap (·.enums) =
      PlacedEnum.answers visit (placedEnums scopes m) s
  | ⟨name, _, messages, enums⟩, s => by
    rw [placedEnums, PlacedEnum.answers_append, ← Enum.visitAll_eq_answers,
      ← Enum.visitAll_fst, ← Message.enums_visitEnumsAll (scopes ++ [name]) messages,
      Message.visitEnums, qualify_dotted, preorder, List.flatMap_cons]

theorem Message.enums_visitEnumsAll (scopes : List String) : ∀ (ms : List Message) (s : σ),
    (preorderAll (Message.visitEnumsAll visit (dotted scopes) ms s).2).flatMap (·.enums) =
      PlacedEnum.answers visit (placedEnumsAll scopes ms) s
  | [], _ => rfl
  | m :: ms, s => by
    rw [placedEnumsAll, PlacedEnum.answers_append, ← Message.enums_visitEnums scopes m s,
      ← Message.visitEnums_fst, ← Message.enums_visitEnumsAll scopes ms, Message.visitEnumsAll,
      preorderAll, List.flatMap_append]

end

theorem File.allEnums_visitEnums (f : File) (s : σ) :
    (f.visitEnums visit s).2.allEnums = PlacedEnum.answers visit f.placedEnums s := by
  rw [placedEnums, PlacedEnum.answers_append, ← Enum.visitAll_eq_answers, ← Enum.visitAll_fst,
    ← Message.enums_visitEnumsAll visit [] f.messages, File.visitEnums, dotted_nil]
  rfl

/-- A visit goes once through the enums of the file, those at the top first, then message by
message its own before those inside it, each with the path that it has in the given file.  Its last
state is the fold of the visitor over these visits, and the file that it makes is the only one that
has the frame of the given file and the answers for its enums. -/
theorem File.visitEnums_eq (f : File) (s : σ) :
    f.placedEnums.map (·.enum) = f.allEnums ∧
      (f.visitEnums visit s).1 =
        f.placedEnums.foldl (fun s x => (visit s x.enum x.path).1) s ∧
      ∀ g, g = (f.visitEnums visit s).2 ↔
        g.frame = f.frame ∧ g.allEnums = PlacedEnum.answers visit f.placedEnums s := by
  refine ⟨f.map_enum_placedEnums, f.visitEnums_fst visit s, fun g => ⟨?_, ?_⟩⟩
  · rintro rfl
    exact ⟨f.frame_visitEnums visit s, f.allEnums_visitEnums visit s⟩
  · rintro ⟨hframe, henums⟩
    apply eq_of_frame
    · rw [hframe, frame_visitEnums]
    · rw [henums, allEnums_visitEnums]

end Visit

/-- The visitor numbers the enums and puts their paths in their places.  The paths that it sees are
made of the given names. -/
example :
    let visit : EnumVisitor Nat := fun n e path => (n + 1, { e with name := s!"{n} {path}" })
    let inner : Message := { name := "B", enums := [{ name := "E" }] }
    let f : File :=
      { messages := [{ name := "A", messages := [inner], enums := [{ name := "E" }] }]
        enums := [{ name := "E" }] }
    f.visitEnums visit 0 =
      (3, { messages :=
              [{ name := "A"
                 messages := [{ inner with enums := [{ name := "2 A.B.E" }] }]
                 enums := [{ name := "1 A.E" }] }]
            enums := [{ name := "0 E" }] }) := by
  decide +kernel

end SchemaNormal
