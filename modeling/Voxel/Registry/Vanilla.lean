import Voxel.Property.Standard
import Voxel.Registry.Global
/-!
The standard block kinds, in the fixed order that keeps their numbers the same from run to run.
-/
namespace Voxel.Vanilla

open Standard

def kinds : List (String × List Property) := [
  ("button", [buttonType, pressed, face, facing]),
  ("coarse_dirt", []),
  ("dirt", []),
  ("door", [doorType, top, hingeSide, isOpen, powered]),
  ("fence", [fenceType, north, east, south, west]),
  ("fence_gate", [fenceType, facing, inWall, isOpen, powered]),
  ("grass", [snowy]),
  ("lava", [waterFalling, waterLevel]),
  ("leaves", [leafType, distance, persistent]),
  ("log", [woodType, axis]),
  ("planks", [woodType]),
  ("pressure_plate", [buttonType, pressed]),
  ("sapling", [woodType, saplingStage]),
  ("sign", [woodType, facing]),
  ("slab", [slabType, slabPart]),
  ("stairs", [slabType, facing, upsideDown, stairShape]),
  ("standing_sign", [woodType, rotation]),
  ("stone", [stoneType]),
  ("trapdoor", [doorType, facing, isOpen, powered]),
  ("water", [waterFalling, waterLevel]),
  ("weighted_pressure_plate", [weightedPressurePlateType, power])]

def declarations : List Declaration :=
  kinds.map fun (path, properties) => ⟨.standard path, properties, none, none⟩

def start (id : RegistryId) : Report Registry := do
  let r ← Registry.newGlobal id
  let (r, registered) := r.registerAll declarations
  let _ ← registered
  Report.log .info s!"Initialized global block registry with {r.index.stateCount} states"
  return r

end Voxel.Vanilla
