import SchemaNormal.Schema.Basic

/-!
# Messages grouped by name

All messages of a file, at every depth, are collected into one group per name. A walk visits a
message before the messages inside it, and those before its next sibling; a group keeps that order,
and the groups are kept in the order in which their names are first met.

A name is liftable when all messages of its group are the same definition.
-/

namespace SchemaNormal

/-- Groups of messages, each under its name. -/
abbrev Groups := List (String × List Message)

namespace Groups

/-- Puts a message at the end of the group of its name, opening the group if there is none. -/
def add (m : Message) : Groups → Groups
  | [] => [(m.name, [m])]
  | (name, group) :: groups =>
      if name = m.name then (name, group ++ [m]) :: groups else (name, group) :: add m groups

/-- The messages of a name; none if the name has no group. -/
def find (groups : Groups) (name : String) : List Message :=
  (groups.lookup name).getD []

end Groups

namespace Message

mutual

/-- Adds a message and everything inside it to the groups. -/
def collect : Message → Groups → Groups
  | ⟨name, fields, messages, enums⟩, groups =>
      collectAll messages (groups.add ⟨name, fields, messages, enums⟩)

/-- Adds messages in order, each with everything inside it. -/
def collectAll : List Message → Groups → Groups
  | [], groups => groups
  | m :: ms, groups => collectAll ms (collect m groups)

end

end Message

def File.groups (file : File) : Groups :=
  Message.collectAll file.messages []

/-- Every two of the messages are the same definition. -/
def allSame : List Message → Bool
  | [] => true
  | m :: ms => ms.all (fun other => m.same other) && allSame ms

/-- The names whose messages are all the same definition. -/
def Groups.liftable (groups : Groups) : List String :=
  (groups.filter fun group => allSame group.2).map (·.1)

end SchemaNormal
