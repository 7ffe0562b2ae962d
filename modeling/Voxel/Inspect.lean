import Voxel.Property.Standard
import Voxel.Registry.Basic
import Voxel.Storage.Pool
import Voxel.Storage.Section
import Voxel.Text.Quoted
/-!
Descriptions of values for people who look into a running program. A record has its name and its
fields in braces, texts stand in quotes, and the values of a family are written in capitals.
-/
namespace Voxel

namespace Inspect

def record (name : String) (fields : List (String × String)) : String :=
  name ++ " \x7b " ++ ", ".intercalate (fields.map fun (k, v) => k ++ ": " ++ v) ++ " \x7d"

def list (items : List String) : String := "[" ++ ", ".intercalate items ++ "]"

def option : Option String → String
  | some s => s!"Some({s})"
  | none => "None"

def truth (b : Bool) : String := if b then "true" else "false"

def handle (id : RegistryId) : String := s!"RegistryId({id})"

/-- The words of a name joined, each with a capital. -/
def title (s : String) : String :=
  "".intercalate ((s.splitOn "_").map String.capitalize)

end Inspect

open Inspect

def Choices.inspect (c : Choices) : String :=
  list (c.values.map (if c.family = .text then Text.quoted else title))

def Property.inspect (p : Property) : String :=
  let name := ("name", Text.quoted p.name)
  match p.domain with
  | .bool default => record "BoolTrait" [name, ("default", truth default)]
  | .int r =>
    record "IntTrait"
      [name, ("min", Text.int32 r.min), ("max", Text.int32 r.max), ("default", Text.int32 r.default)]
  | .choice c => record "EnumTrait" [name, ("values", c.inspect), ("default", c.default.repr)]

def BlockState.inspect (s : BlockState) : String := s!"{s.text}#{s.runtimeId}"

def BlockKind.inspect (k : BlockKind) : String :=
  record "BlockType"
    [("identifier", k.name.text), ("traits", list (k.properties.map Property.inspect)),
     ("states", k.stateCount.repr)]

def Registry.inspect (r : Registry) : String :=
  let counts := [("block_types", r.index.kinds.size.repr), ("states", r.index.stateCount.repr)]
  match r.version? with
  | none => record "GlobalBlockRegistry" ([("id", handle r.id)] ++ counts)
  | some v =>
    record "VersionBlockRegistry" ([("id", handle r.id), ("version", Text.quoted v)] ++ counts)

def Flat.inspect (s : Flat) : String :=
  record "FlattenedStorage"
    [("registry", handle s.registry), ("bits_per_block", s.bits.repr),
     ("palette_len", option (s.paletteSize?.map Nat.repr))]

def Legacy.inspect (s : Legacy) : String :=
  record "LegacyStorage" [("registry", handle s.registry), ("has_add", truth s.hasHigh)]

def Section.inspect (s : Section) : String :=
  record "Section"
    [("blocks", s.blocks.inspect), ("fluids", option (s.fluids.map Flat.inspect))]

def Pool.inspect {α : Type} (p : Pool α) : String :=
  record "ArrayPool"
    [("capacity", p.capacity.repr),
     ("stats", record "PoolStats"
       [("acquired", p.acquired.repr), ("released", p.released.repr),
        ("idle", p.idle.length.repr)])]

end Voxel
