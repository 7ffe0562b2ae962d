import Voxel.Text.Letters
/-!
Levels of log messages and the threshold below which messages are dropped.
-/
namespace Voxel.Log

inductive Level
  | error | warn | info | debug | trace
  deriving DecidableEq, Inhabited, Repr

def Level.text : Level → String
  | error => "ERROR"
  | warn => "WARN"
  | info => "INFO"
  | debug => "DEBUG"
  | trace => "TRACE"

inductive Threshold
  | off
  | upTo (level : Level)
  deriving DecidableEq, Inhabited, Repr

namespace Threshold

def all : List Threshold :=
  [.off, .upTo .error, .upTo .warn, .upTo .info, .upTo .debug, .upTo .trace]

def text : Threshold → String
  | off => "OFF"
  | upTo level => level.text

/-- Reads a threshold in any case; an unknown name keeps messages up to `info`. -/
def ofText (s : String) : Threshold :=
  (all.find? fun t => Text.sameLetters t.text s).getD (.upTo .info)

end Threshold

structure Record where
  level : Level
  text : String
  deriving DecidableEq, Inhabited, Repr

end Voxel.Log
