import Voxel.Error
import Voxel.OrderedMap
import Voxel.Text.Decimal
/-!
The archive of old logs. Archiving compresses the current log under the next free number of the
day and takes it away. It goes through a file of its own on the way, and touches no other.
-/
namespace Voxel.Log

/-- What a file holds: a text as it is, or the compressed form of a file. What a text is made of is of
no account to the archive. -/
inductive File (α : Type := String)
  | text (s : α)
  | compressed (content : File α)
  deriving DecidableEq, Inhabited, Repr

abbrev Directory (α : Type := String) := OrderedMap String (File α)

namespace Directory

variable {α : Type}

def current : String := "latest.log"

/-- The name that a log has while it is compressed. -/
def moving : String := "latest-tmp.log"

/-- The number in a file's name: what stands between its last dash and its first dot. -/
def number? (name : String) : Option Nat :=
  let stem := name.toList.takeWhile (· ≠ '.')
  let rest := name.toList.dropWhile (· ≠ '.')
  if rest.isEmpty || '-' ∈ rest || '-' ∉ stem then none
  else Text.readIndex? (stem.reverse.takeWhile (· ≠ '-')).reverse

def archived (day : String) (number : Nat) : String := s!"{day}-{number}.log.gz"

def highest (day : String) (d : Directory α) : Nat :=
  ((d.keys.filter fun name => day.toList.isPrefixOf name.toList).filterMap number?).foldl max 0

/-- The directory after archiving the current log, if there is one. The number after the highest
has to be a 32-bit number. -/
def archive (day : String) (d : Directory α) : Except Failure (Directory α) :=
  -- the number is fixed before anything is moved
  let number := highest day d + 1
  if UInt32.size ≤ number then .error .fault
  else
    match d.find? current with
    | none => .ok d
    | some log =>
      let moved := (d.erase current).insert moving log
      .ok ((moved.insert (archived day number) (.compressed log)).erase moving)

end Directory
end Voxel.Log
