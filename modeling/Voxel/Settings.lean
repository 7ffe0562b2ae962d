import Voxel.Error
import Voxel.Json.Decode
import Voxel.Json.Reader
import Voxel.Json.Writer
import Voxel.Log.Level
import Voxel.OpenFile
import Voxel.OrderedMap
/-!
Settings of the library, kept in a file. A file that is absent or that holds no settings is
replaced by the written default; a file that holds settings, and one that is no text at all, stays
as it is.
-/
namespace Voxel

/-- What to log, and the directory of the log files, if there are to be any. -/
structure LogSettings where
  level : String
  directory : Option String
  deriving DecidableEq, Inhabited, Repr

/-- Where version descriptions are, which versions stand for others, how many idle buffers a pool
keeps, and what to log. -/
structure Settings where
  registryDirectory : String
  aliases : OrderedMap String String
  poolCapacity : Nat
  log : LogSettings
  deriving DecidableEq, Inhabited, Repr

namespace LogSettings

def standard : LogSettings := ⟨"debug", some "logs"⟩

def threshold (s : LogSettings) : Log.Threshold := .ofText s.level

def fields : List String := ["level", "directory"]

def readField (s : LogSettings) (i : Nat) (j : Json) : Json.Read LogSettings :=
  match i with
  | 0 => return { s with level := ← j.asText }
  | _ => return { s with directory := ← j.asOption Json.asText }

def ofJson (j : Json) : Json.Read LogSettings := Prod.fst <$> j.foldRecord fields readField standard

def toJson (s : LogSettings) : Json :=
  .record [("level", .text s.level), ("directory", (s.directory.map Json.text).getD .null)]

end LogSettings

namespace Settings

def usualCapacity : Nat := 64

def standard : Settings := ⟨"./registries", .empty, usualCapacity, .standard⟩

def fields : List String := ["registry_dir", "version_aliases", "pool_capacity", "log"]

def readField (s : Settings) (i : Nat) (j : Json) : Json.Read Settings :=
  match i with
  | 0 => return { s with registryDirectory := ← j.asText }
  | 1 => return { s with aliases := ← j.asMap pure Json.asText }
  | 2 => return { s with poolCapacity := ← j.asNatBelow UInt64.size }
  | _ => return { s with log := ← LogSettings.ofJson j }

def ofJson (j : Json) : Json.Read Settings := Prod.fst <$> j.foldRecord fields readField standard

def toJson (s : Settings) : Json :=
  .record
    [("registry_dir", .text s.registryDirectory),
     ("version_aliases", .record (s.aliases.entries.map fun (k, v) => (k, .text v))),
     ("pool_capacity", .nat s.poolCapacity),
     ("log", s.log.toJson)]

def ofText (s : String) : Json.Read Settings := (Json.Document.ofText s).read ofJson

def text (s : Settings) : String := s.toJson.pretty 0

inductive LoadError
  | file (cause : FileError)
  | unwritable (reason : String)
  deriving DecidableEq, Inhabited, Repr

def LoadError.message : LoadError → String
  | file cause => s!"Failed to access config file: {cause.text}"
  | unwritable reason => s!"Failed to write config JSON: {reason}"

/-- What loading gives: settings, the file as it is then, and the messages logged on the way. -/
structure Loaded where
  settings : Except LoadError Settings
  file : ByteArray
  records : List Log.Record

/-- The usual settings, written over what is in the file, and nothing left behind them. -/
def restored (file : OpenFile) (cause : Log.Record) : Loaded :=
  let bytes := standard.text.toUTF8
  let file := ((file.seek 0).write bytes).setLength bytes.size
  ⟨.ok standard, file.bytes, [cause, ⟨.info, "Using default configurations"⟩]⟩

/-- Loads the settings in a file, and mends the file if need be. -/
def load (path : String) : Option ByteArray → Loaded
  | none => restored .created ⟨.info, "Config file not found, creating file"⟩
  | some bytes =>
    match (OpenFile.existing bytes).readText with
    | (.error cause, file) => ⟨.error (.file cause), file.bytes, []⟩
    | (.ok text, file) =>
      match ofText text with
      | .ok s => ⟨.ok s, file.bytes, [⟨.info, s!"Loaded config from {path}"⟩]⟩
      | .error _ => restored file ⟨.error, "Invalid config JSON"⟩

end Settings
end Voxel
