import SchemaNormal.Schema.Scope

/-!
# Dotted paths

The path of a definition is made on the way down, one `qualify` for each scope.  Seen from the
outside it is the chain of names joined by dots, without the empty names at its front.
-/

namespace SchemaNormal

/-- The names joined by dots.  Empty names at the front leave no trace. -/
def dotted (names : List String) : String :=
  ".".intercalate (names.dropWhile (·.isEmpty))

@[simp] theorem dotted_nil : dotted [] = "" := by
  simp [dotted]

theorem dotted_cons_of_isEmpty {name : String} (names : List String) (h : name.isEmpty = true) :
    dotted (name :: names) = dotted names := by
  unfold dotted
  rw [List.dropWhile_cons_of_pos h]

theorem dotted_cons_of_not_isEmpty {name : String} (names : List String)
    (h : ¬ name.isEmpty = true) : dotted (name :: names) = ".".intercalate (name :: names) := by
  unfold dotted
  rw [List.dropWhile_cons_of_neg h]

@[simp] theorem dotted_singleton (name : String) : dotted [name] = name := by
  by_cases h : name.isEmpty = true
  · have hname : name = "" := String.isEmpty_iff.mp h
    rw [dotted_cons_of_isEmpty [] h, dotted_nil, hname]
  · rw [dotted_cons_of_not_isEmpty [] h, String.intercalate_singleton]

private theorem intercalate_not_isEmpty {name : String} (names : List String)
    (h : ¬ name.isEmpty = true) : ¬ (".".intercalate (name :: names)).isEmpty = true := by
  cases names with
  | nil => rwa [String.intercalate_singleton]
  | cons name' names =>
    rw [String.intercalate_cons_cons]
    simp

/-- One step down: a name in the scope of a chain of names is the last of the longer chain. -/
theorem qualify_dotted (names : List String) (name : String) :
    qualify (dotted names) name = dotted (names ++ [name]) := by
  induction names with
  | nil =>
    rw [dotted_nil, List.nil_append, dotted_singleton]
    rfl
  | cons first names ih =>
    -- an empty outermost name vanishes from both sides; from a non-empty one on, all names stay
    by_cases h : first.isEmpty = true
    · rw [List.cons_append, dotted_cons_of_isEmpty names h, dotted_cons_of_isEmpty _ h, ih]
    · have hjoin : ".".intercalate ((first :: names) ++ [name]) =
          ".".intercalate (first :: names) ++ "." ++ name := by
        rw [String.intercalate_append_of_ne_nil (by simp) (by simp), String.intercalate_singleton]
      rw [List.cons_append, dotted_cons_of_not_isEmpty names h, dotted_cons_of_not_isEmpty _ h,
        ← List.cons_append, hjoin]
      unfold qualify
      rw [if_neg (intercalate_not_isEmpty names h)]

end SchemaNormal
