import SchemaNormal.Cli.Disk
import SchemaNormal.Event

/-!
# Plans

What a command does to the world, as a value: it reads and writes files, prints, tells events, and
ends with an exit code. What comes after an access to a file depends on its outcome. `Plan.onDisk`
carries a plan out on a disk.
-/

namespace SchemaNormal.Cli

inductive Plan where
  | finish (code : UInt32)
  | read (path : String) (next : Except FileError ByteArray → Plan)
  /-- Makes or replaces a file. -/
  | write (path content : String) (next : Except FileError Unit → Plan)
  | print (text : String) (next : Plan)
  | complain (text : String) (next : Plan)
  | tell (event : Event) (next : Plan)

structure Result where
  code : UInt32 := 0
  stdout : String := ""
  stderr : String := ""
  events : List Event := []
  disk : Disk

/-- Carries a plan out; `sofar` is what earlier steps left behind. -/
def Plan.onDisk : Plan → (sofar : Result) → Result
  | finish code, sofar => { sofar with code }
  | read path next, sofar => (next (sofar.disk.read path)).onDisk sofar
  | write path content next, sofar =>
      match sofar.disk.write path content.toUTF8 with
      | .error e => (next (.error e)).onDisk sofar
      | .ok disk => (next (.ok ())).onDisk { sofar with disk }
  | print text next, sofar => next.onDisk { sofar with stdout := sofar.stdout ++ text }
  | complain text next, sofar => next.onDisk { sofar with stderr := sofar.stderr ++ text }
  | tell event next, sofar => next.onDisk { sofar with events := sofar.events ++ [event] }

end SchemaNormal.Cli
