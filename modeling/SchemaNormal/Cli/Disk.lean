/-!
# Files and folders

A disk holds files and folders, each at one place under the root. A path is resolved part by part,
from the working folder or from the root; every part but the last must be a folder. The working
folder has its place like any other, so a path from it and one from the root may lead to the same
file. The working folder and all folders around it exist.

Some things that disks have are left out. There are no links, so only its own names lead to a place.
There are no rights, so nothing is refused for the lack of one. A disk does not get full, and nobody
else changes it.
-/

namespace SchemaNormal.Cli

/-- Why a file cannot be used. -/
inductive FileError where
  | missing
  | isFolder
  | notFolder
  | nameTooLong
  /-- The content is no UTF-8. -/
  | notText
  | other (message : String)
deriving DecidableEq, Repr

def FileError.message : FileError → String
  | missing => "No such file or directory (os error 2)"
  | isFolder => "Is a directory (os error 21)"
  | notFolder => "Not a directory (os error 20)"
  | nameTooLong => "File name too long (os error 36)"
  | notText => "stream did not contain valid UTF-8"
  | other message => message

/-- Where something is: the names of the folders around it and its own, from the root in. -/
structure Place where
  names : List String
deriving DecidableEq, Repr

namespace Place

def root : Place :=
  ⟨[]⟩

/-- The folder around a place. The root is around itself. -/
def outer (place : Place) : Place :=
  ⟨place.names.dropLast⟩

/-- The place that a part of a path leads to from a folder. -/
def enter (folder : Place) (part : String) : Place :=
  if part = "" || part = "." then folder
  else if part = ".." then folder.outer
  else ⟨folder.names ++ [part]⟩

/-- Whether a place is the other one or a folder around it. -/
def isAround (place other : Place) : Bool :=
  place.names.isPrefixOf other.names

end Place

inductive Entry where
  | file (content : ByteArray)
  | folder

structure Disk where
  /-- The working folder. On a new disk it is an empty folder in the root. -/
  here : Place := ⟨["work"]⟩
  /-- What there is; of two entries at one place the first counts. -/
  entries : List (Place × Entry) := []

namespace Disk

/-- What is at a place. The working folder and the folders around it are always there. -/
def entry? (disk : Disk) (place : Place) : Option Entry :=
  if place.isAround disk.here then some .folder else disk.entries.lookup place

def put (disk : Disk) (place : Place) (entry : Entry) : Disk :=
  { disk with entries := (place, entry) :: disk.entries }

def longestName : Nat := 255

def longestPath : Nat := 4095

/-- The place that a part of a path leads to from a folder. -/
def enter (folder : Place) (part : String) : Except FileError Place :=
  if longestName < part.utf8ByteSize then .error .nameTooLong else .ok (folder.enter part)

def folderAt (disk : Disk) : Place → List String → Except FileError Place
  | folder, [] => .ok folder
  | folder, part :: parts =>
      match enter folder part with
      | .error e => .error e
      | .ok place =>
          match disk.entry? place with
          | none => .error .missing
          | some (.file _) => .error .notFolder
          | some .folder => folderAt disk place parts

/-- Where a path leads: to the last of its parts, from the folder that the others lead to. -/
structure Target where
  folder : Place
  last : String
  /-- The path says that it leads to a folder. -/
  asFolder : Bool

/-- Where a path leads. What it leads to need not exist. -/
def locate (disk : Disk) (path : String) : Except FileError Target :=
  if longestPath < path.utf8ByteSize then .error .nameTooLong
  else if path.isEmpty then .error .missing
  else
    let base := if path.startsWith "/" then Place.root else disk.here
    let parts := path.splitOn "/"
    let inner := (parts.reverse.dropWhile (·.isEmpty)).reverse
    match disk.folderAt base inner.dropLast with
    | .error e => .error e
    | .ok folder => .ok ⟨folder, inner.getLast?.getD "", inner.length < parts.length⟩

def read (disk : Disk) (path : String) : Except FileError ByteArray := do
  let target ← disk.locate path
  let place ← enter target.folder target.last
  match disk.entry? place with
  | none => .error .missing
  | some .folder => .error .isFolder
  | some (.file content) => if target.asFolder then .error .notFolder else .ok content

/-- Makes or replaces the file at a path. -/
def write (disk : Disk) (path : String) (content : ByteArray) : Except FileError Disk := do
  let target ← disk.locate path
  if target.asFolder then .error .isFolder
  else
    let place ← enter target.folder target.last
    match disk.entry? place with
    | some .folder => .error .isFolder
    | some (.file _) | none => .ok (disk.put place (.file content))

/-- The places along a path in the working folder, from the outside in. -/
def placesAlong (disk : Disk) (path : String) : List Place :=
  let names := (path.splitOn "/").filter fun part => part ≠ "" && part ≠ "."
  (List.range names.length).map fun n => ⟨disk.here.names ++ names.take (n + 1)⟩

def makeFolder (disk : Disk) (path : String) : Disk :=
  (disk.placesAlong path).foldl (fun disk place => disk.put place .folder) disk

def makeFile (disk : Disk) (path : String) (content : ByteArray) : Disk :=
  let places := disk.placesAlong path
  let missing := places.dropLast.filter fun place => (disk.entry? place).isNone
  let disk := missing.foldl (fun disk place => disk.put place .folder) disk
  match places.getLast? with
  | none => disk
  | some place => disk.put place (.file content)

end Disk

end SchemaNormal.Cli
