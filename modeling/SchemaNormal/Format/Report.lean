import SchemaNormal.Change
import SchemaNormal.Format.Schema
import SchemaNormal.Json.Kind

/-!
# Reports as JSON

A change is an object whose member `type` says which kind it is; its other members are strings. The
reader accepts the tag anywhere in the object, so it has to read all other members as values of any
kind first and looks at them afterwards. Faults found then have no place of their own. A change may
also be a list: the tag and then the strings in order.
-/

namespace SchemaNormal

open Json

inductive ChangeKind where
  | messageLifted
  | duplicateDropped
  | zeroInserted
  | valueRenamed
deriving DecidableEq, Repr

namespace ChangeKind

def name : ChangeKind → String
  | .messageLifted => "message_lifted"
  | .duplicateDropped => "duplicate_message_dropped"
  | .zeroInserted => "zero_value_inserted"
  | .valueRenamed => "enum_value_renamed"

def names : List (String × ChangeKind) :=
  [messageLifted, duplicateDropped, zeroInserted, valueRenamed].map fun kind => (kind.name, kind)

/-- What messages call a kind. -/
def title : ChangeKind → String
  | .messageLifted => "MessageLifted"
  | .duplicateDropped => "DuplicateMessageDropped"
  | .zeroInserted => "ZeroValueInserted"
  | .valueRenamed => "EnumValueRenamed"

/-- The members besides the tag. -/
def fields : ChangeKind → List String
  | .messageLifted | .duplicateDropped | .zeroInserted => ["path", "name"]
  | .valueRenamed => ["path", "from", "to"]

/-- The change with these members, in the order of `fields`. -/
def change : ChangeKind → List String → Option Change
  | .messageLifted, [path, name] => some (.messageLifted path name)
  | .duplicateDropped, [path, name] => some (.duplicateDropped path name)
  | .zeroInserted, [path, name] => some (.zeroInserted path name)
  | .valueRenamed, [path, old, new] => some (.valueRenamed path old new)
  | _, _ => none

end ChangeKind

/-! ## Writing -/

def Change.toJson : Change → Json
  | .messageLifted path name => tagged .messageLifted [path, name]
  | .duplicateDropped path name => tagged .duplicateDropped [path, name]
  | .zeroInserted path name => tagged .zeroInserted [path, name]
  | .valueRenamed path old new => tagged .valueRenamed [path, old, new]
where
  /-- The object of a change: its tag, then its members. -/
  tagged (kind : ChangeKind) (values : List String) : Json :=
    .object (("type", .string kind.name) :: kind.fields.zip (values.map .string))

def Report.toJson (report : Report) : Json :=
  .object [("rewrites", .ofList Change.toJson report.changes)]

/-! ## Reading -/

/-- A fault of a value that has been read as a whole. -/
def lateFault (cause : Cause) : Fault :=
  { cause }

/-- A value that has been read as a whole, as a string. -/
def Json.Found.string? : Found → Except Fault String
  | .string s => .ok s
  | found => .error (lateFault (.wrongType found "a string"))

/-- Members picked by name: for each name its value, once it has been met. -/
def pickMember (key : String) (found : Found) :
    List (String × Option String) → Except Fault (List (String × Option String))
  | [] => .ok []
  | (name, value) :: rest =>
      if name = key then
        match value with
        | some _ => .error (lateFault (.repeatedField name))
        | none => found.string?.map fun s => (name, some s) :: rest
      else (pickMember key found rest).map ((name, value) :: ·)

/-- The values of all picked members; the first without a value is missing. -/
def pickedValues : List (String × Option String) → Except Fault (List String)
  | [] => .ok []
  | (name, none) :: _ => .error (lateFault (.missingField name))
  | (_, some s) :: rest => (pickedValues rest).map (s :: ·)

namespace ChangeKind

/-- The change of a kind; `values` has one string for each field. -/
def build (kind : ChangeKind) (values : List String) : Except Fault Change :=
  match kind.change values with
  | some change => .ok change
  | none => .error (lateFault (.wrongLength values.length kind.title))

/-- A change from the members of an object, in their order. -/
def ofMembers (kind : ChangeKind) (members : List (String × Found)) : Except Fault Change := do
  let slots := kind.fields.map fun name => (name, none)
  let slots ← members.foldlM (fun slots (key, found) => pickMember key found slots) slots
  kind.build (← pickedValues slots)

/-- The strings of a list from its items; `position` items came before. -/
def takeStrings (kind : ChangeKind) (position : Nat) :
    List String → List Found → Except Fault (List String)
  | [], _ => .ok []
  | _ :: _, [] =>
      .error (lateFault (.wrongLength position
        ("struct variant Rewrite::" ++ kind.title ++ " with " ++ elements kind.fields.length)))
  | _ :: names, found :: items => do
      let s ← found.string?
      return s :: (← takeStrings kind (position + 1) names items)

/-- A change from the items of a list after its tag. -/
def ofItems (kind : ChangeKind) (items : List Found) : Except Fault Change := do
  let values ← takeStrings kind 0 kind.fields items
  if items.length > kind.fields.length then
    .error (lateFault (.wrongLength items.length
      (elements kind.fields.length ++ " in sequence")))
  kind.build values

def readTag (node : Node) : Except Fault ChangeKind := do
  let name ← readString "variant identifier" node
  nameValue names name (stop node)
where
  /-- Where a string ends. -/
  stop : Node → Nat
    | .string _ stop _ => stop
    | node => node.start

end ChangeKind

/-- What has been read of the members of a change. -/
structure TaggedMembers where
  kind : Option ChangeKind := none
  /-- The other members, the latest first. -/
  others : List (String × Found) := []

/-- What becomes of a member of a change. -/
def TaggedMembers.visit (levels : Nat) (seen : TaggedMembers) (key : String) :
    Visit TaggedMembers :=
  if key = "type" then
    if seen.kind.isSome then .repeated
    else .read fun node => (ChangeKind.readTag node).map fun kind => { seen with kind := some kind }
  else
    .read fun node =>
      (readAny levels node).map fun found => { seen with others := (key, found) :: seen.others }

def Change.read (levels : Nat) : Reader Change
  | .list start items =>
      if levels = 0 then .error (tooDeepAt start)
      else
        match (ListPlace.start items).next with
        | .error fault => .error fault
        | .ok (.closed stop) => .error (.at (.missingField "type") stop)
        | .ok (.item tag rest) => do
            let kind ← ChangeKind.readTag tag
            kind.ofItems (← rest.read (readAny (levels - 1)))
  | .object start members =>
      if levels = 0 then .error (tooDeepAt start)
      else do
        let (seen, stop) ← members.visit (TaggedMembers.visit (levels - 1)) true {}
        match seen.kind with
        | none => .error (.at (.missingField "type") stop)
        | some kind => kind.ofMembers seen.others.reverse
  | node => .error (node.wrongType "internally tagged enum Rewrite")

/-- The fields of a report, inside its brackets. -/
def Report.shape (levels : Nat) : List Field :=
  [{ listField levels "rewrites" (Change.read (levels - 1)) with absent := none }]

def Report.read (levels : Nat) : Reader Report := fun node =>
  (readRecord levels "struct RewriteReport" (shape (levels - 1)) node).map
    fun (changes, _) => { changes }

end SchemaNormal
