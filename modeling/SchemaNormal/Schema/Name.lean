/-!
# Names of enum values

Generated code cannot use a name that starts with a decimal digit. Only the ten ASCII digits count:
digits of other scripts are letters to the languages concerned.
-/

namespace SchemaNormal

/-- The first character of the name is one of `0` to `9`. -/
def startsWithDigit (name : String) : Bool :=
  match name.toList with
  | [] => false
  | c :: _ => c.isDigit

end SchemaNormal
