import SchemaNormal.Schema.Basic

/-!
# Building schema files

Operations that add one definition to a file or to a message inside it. A place inside a file is a
list of positions: the first picks a message of the file, each further one a message inside the
message picked so far. The empty list is the file itself.
-/

namespace SchemaNormal

namespace Message

/-- The message at a place below the given messages. -/
def at? : List Nat → List Message → Option Message
  | [], _ => none
  | [i], ms => ms[i]?
  | i :: j :: path, ms => ms[i]? >>= fun m => at? (j :: path) m.messages

/-- Changes the message at a place below the given messages; other messages stay as they are. -/
def modifyAt (change : Message → Message) : List Nat → List Message → List Message
  | [], ms => ms
  | [i], ms => ms.modify i change
  | i :: j :: path, ms =>
      ms.modify i fun m => { m with messages := modifyAt change (j :: path) m.messages }

end Message

namespace File

/-- Puts a message at the end of the file or of the message at `place`. -/
def addMessage (file : File) (place : List Nat) (m : Message) : File :=
  match place with
  | [] => { file with messages := file.messages ++ [m] }
  | _ =>
      let add := fun parent : Message => { parent with messages := parent.messages ++ [m] }
      { file with messages := Message.modifyAt add place file.messages }

/-- Puts an enum at the end of the file or of the message at `place`. -/
def addEnum (file : File) (place : List Nat) (e : Enum) : File :=
  match place with
  | [] => { file with enums := file.enums ++ [e] }
  | _ =>
      let add := fun parent : Message => { parent with enums := parent.enums ++ [e] }
      { file with messages := Message.modifyAt add place file.messages }

/-- Puts a field at the end of the message at `place`. A file itself has no fields. -/
def addField (file : File) (place : List Nat) (field : MessageField) : File :=
  let add := fun parent : Message => { parent with fields := parent.fields ++ [field] }
  { file with messages := Message.modifyAt add place file.messages }

def messageAt? (file : File) (place : List Nat) : Option Message :=
  Message.at? place file.messages

/-- Replaces the messages of the file by one message that holds them. -/
def wrap (file : File) (name : String) : File :=
  { file with messages := [{ name, messages := file.messages }] }

/-- Wraps the messages of the file a number of times. -/
def wrapTimes (name : String) : Nat → File → File
  | 0, file => file
  | n + 1, file => wrapTimes name n (file.wrap name)

end File

end SchemaNormal
