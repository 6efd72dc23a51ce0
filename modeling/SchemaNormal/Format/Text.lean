import SchemaNormal.Format.Options
import SchemaNormal.Format.Report
import SchemaNormal.Normalize

/-!
# Texts of the library's values

Reading a whole text fails with the reader's message; writing always succeeds. `normalizeJson` runs
a normalisation from text to text.
-/

namespace SchemaNormal

open Json

/-- The value of a whole text. -/
def ofText {α : Type} (read : Nat → Reader α) (text : String) : Except Failure α :=
  match readText (read levels) text with
  | .ok v => .ok v
  | .error fault => .error (.unreadable (fault.message text))

def File.ofText (text : String) : Except Failure File :=
  SchemaNormal.ofText File.read text

/-- The options of a text. They may not be valid. -/
def Options.ofText (text : String) : Except Failure Options :=
  SchemaNormal.ofText Options.read text

def File.toText (file : File) : String :=
  file.toJson.compact

/-- Reads a file, normalises it and writes it again. -/
def normalizeJson (text : String) (options : Options) : Except Failure String := do
  let file ← File.ofText text
  let outcome ← normalize file options
  return outcome.file.toText

end SchemaNormal
