/-!
# Scope paths

A definition is addressed by the names of the messages around it and its own name, joined by dots.
The scope of a file is the empty path.
-/

namespace SchemaNormal

/-- The path of `name` inside `scope`. In the empty scope it is the bare name. -/
def qualify (scope name : String) : String :=
  if scope.isEmpty then name else scope ++ "." ++ name

end SchemaNormal
