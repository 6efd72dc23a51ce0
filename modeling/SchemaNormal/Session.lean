import SchemaNormal.Format.Text
import SchemaNormal.Schema.Edit

/-!
# Working sessions

A session holds a file, the options in force and the report of everything done so far. Steps build
the file up, replace it, or normalise it. A step that fails leaves the session as it is.
-/

namespace SchemaNormal

/-- A file under work. -/
structure Session where
  file : File := {}
  report : Report := {}
  options : Options := {}
deriving DecidableEq, Repr

/-- What can be done in a session. Places are positions of messages, from the outside in. -/
inductive Step where
  | clearFile
  | load (text : String)
  /-- Writes the file and reads it again. -/
  | reload
  | configure (text : String)
  | validate
  | setPackage (package : Option String)
  | addMessage (place : List Nat) (name : String)
  | copyMessage (source target : List Nat)
  /-- The label is given by its name. -/
  | addField (place : List Nat) (label : Option String) (typeName name : String) (index : UInt32)
  | addEnum (place : List Nat) (e : Enum)
  | wrap (name : String) (times : Nat)
  | run (pass : Pass)
  | normalize
  | clearReport

/-- The label of a name. A name alone has no place in a text. -/
def FieldLabel.ofName (name : String) : Except Failure FieldLabel :=
  match names.lookup name with
  | some label => .ok label
  | none =>
      .error (.unreadable (Json.Cause.unknownName name (names.map (·.1))).text)

namespace Session

def extend (session : Session) (file : File) (changes : List Change) : Session :=
  { session with file, report := ⟨session.report.changes ++ changes⟩ }

def step (session : Session) : Step → Except Failure Session
  | .clearFile => return { session with file := {} }
  | .load text => return { session with file := ← File.ofText text }
  | .reload => return { session with file := ← File.ofText session.file.toText }
  | .configure text => return { session with options := ← Options.ofText text }
  | .validate => do
      session.options.validate
      return session
  | .setPackage package => return { session with file := { session.file with package } }
  | .addMessage place name => return { session with file := session.file.addMessage place { name } }
  | .copyMessage source target =>
      match session.file.messageAt? source with
      | some m => return { session with file := session.file.addMessage target m }
      | none => return session
  | .addField place label typeName name index => do
      let label ← label.mapM FieldLabel.ofName
      return { session with file := session.file.addField place { label, typeName, name, index } }
  | .addEnum place e => return { session with file := session.file.addEnum place e }
  | .wrap name times => return { session with file := File.wrapTimes name times session.file }
  | .run pass =>
      let result := pass.run session.options session.file
      return session.extend result.file result.changes
  | .normalize => do
      let outcome ← SchemaNormal.normalize session.file session.options
      return session.extend outcome.file outcome.report.changes
  | .clearReport => return { session with report := {} }

end Session

end SchemaNormal
