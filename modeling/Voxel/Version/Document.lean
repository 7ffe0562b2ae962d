import Voxel.Json.Decode
import Voxel.Json.Reader
import Voxel.Json.Writer
import Voxel.Version.Description
/-!
Version descriptions as JSON. Writing leaves out what is absent; reading takes for absent what may
be left out. Two properties of one name in a block are a defect.
-/
namespace Voxel

open Json (Read)

def requireFields (needed : List Nat) (x : α × List Nat) : Read α :=
  if needed.all x.2.contains then .ok x.1 else .error .malformed

namespace StateDescription

def fields : List String := ["id", "meta", "default", "properties"]

def readField (s : StateDescription) (i : Nat) (j : Json) : Read StateDescription :=
  match i with
  | 0 => return { s with id := UInt32.ofNat (← j.asNatBelow UInt32.size) }
  | 1 => return { s with data := ← j.asOption fun j => UInt8.ofNat <$> j.asNatBelow 256 }
  | 2 => return { s with isDefault := ← j.asBool }
  | _ => return { s with values := ← j.asMap pure Json.asText }

def ofJson (j : Json) : Read StateDescription := do
  let x ← j.foldRecord fields readField ⟨0, none, false, .empty⟩
  requireFields [0] x

def toJson (s : StateDescription) : Json :=
  .record <|
    [("id", .nat s.id.toNat)] ++
    (s.data.map fun m => ("meta", .nat m.toNat)).toList ++
    [("default", .bool s.isDefault),
     ("properties", .record (s.values.entries.map fun (k, v) => (k, .text v)))]

end StateDescription

namespace BlockDescription

/-- Reads properties, no two of one name. -/
def propertiesOfJson : Json → Read (OrderedMap String (List String)) :=
  Json.foldFields (fun m k j => do
    let values ← j.asList Json.asText
    if m.contains k then .error (.repeatedProperty k)
    return m.insert k values) .empty

def propertiesToJson (entries : List (String × List String)) : Json :=
  .record (entries.map fun (k, vs) => (k, .list (vs.map .text)))

def fields : List String := ["legacy_id", "global", "global_traits", "properties", "states"]

def readField (b : BlockDescription) (i : Nat) (j : Json) : Read BlockDescription :=
  match i with
  | 0 => return { b with legacyId := ← j.asOption fun j => UInt16.ofNat <$> j.asNatBelow 65536 }
  | 1 => return { b with global := ← j.asOption Json.asName }
  | 2 => return { b with renames := ← j.asMap pure Json.asText }
  | 3 => return { b with properties := ← propertiesOfJson j }
  | _ => return { b with states := ← j.asList StateDescription.ofJson }

def ofJson (j : Json) : Read BlockDescription := do
  let x ← j.foldRecord fields readField ⟨none, none, .empty, .empty, []⟩
  requireFields [4] x

def toJson (b : BlockDescription) : Json :=
  .record <|
    [("legacy_id", (b.legacyId.map fun id => Json.nat id.toNat).getD .null)] ++
    (b.global.map fun n => ("global", Json.text n.text)).toList ++
    (if b.renames.entries.isEmpty then []
     else [("global_traits", .record (b.renames.entries.map fun (k, v) => (k, .text v)))]) ++
    [("properties", propertiesToJson b.properties.entries),
     ("states", .list (b.states.map StateDescription.toJson))]

end BlockDescription

namespace FluidDescription

def fields : List String := ["liquid_blocks", "waterlogged_trait", "waterlogged_fluid"]

def readField (f : FluidDescription) (i : Nat) (j : Json) : Read FluidDescription :=
  match i with
  | 0 => return { f with liquids := ← j.asList Json.asName }
  | 1 => return { f with waterlogged := ← j.asOption Json.asText }
  | _ => return { f with fluid := ← j.asOption Json.asName }

def ofJson (j : Json) : Read FluidDescription := do
  let x ← j.foldRecord fields readField ⟨[], none, none⟩
  requireFields [] x

def toJson (f : FluidDescription) : Json :=
  .record <|
    [("liquid_blocks", .list (f.liquids.map fun n => .text n.text))] ++
    (f.waterlogged.map fun p => ("waterlogged_trait", Json.text p)).toList ++
    (f.fluid.map fun n => ("waterlogged_fluid", Json.text n.text)).toList

end FluidDescription

namespace VersionDescription

def fields : List String := ["version", "blocks", "fluids"]

def readField (d : VersionDescription) (i : Nat) (j : Json) : Read VersionDescription :=
  let blockName (s : String) : Read Name := Json.asName (.text s)
  match i with
  | 0 => return { d with version := ← j.asText }
  | 1 => return { d with blocks := ← j.asMap blockName BlockDescription.ofJson }
  | _ => return { d with fluids := ← j.asOption FluidDescription.ofJson }

def ofJson (j : Json) : Read VersionDescription := do
  let x ← j.foldRecord fields readField ⟨"", .empty, none⟩
  requireFields [0, 1] x

def toJson (d : VersionDescription) : Json :=
  .record <|
    [("version", .text d.version),
     ("blocks", .record (d.blocks.entries.map fun (n, b) => (n.text, b.toJson)))] ++
    (d.fluids.map fun f => ("fluids", f.toJson)).toList

def ofText (s : String) : Except BlockError VersionDescription :=
  ((Json.Document.ofText s).read ofJson).mapError fun d => .construction (.version (.document d))

end VersionDescription
end Voxel
