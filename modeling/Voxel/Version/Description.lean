import Voxel.Block.Kind
import Voxel.OrderedMap
/-!
Descriptions of versions: the blocks of a version with their properties, numbers and states, what
they are called globally, and which states contain fluid.
-/
namespace Voxel

/-- One state of a block: its number, its data if that is given, and the text of each value. -/
structure StateDescription where
  id : StateId
  data : Option UInt8
  isDefault : Bool
  values : OrderedMap String String
  deriving DecidableEq, Inhabited, Repr

/-- One block: its old number, its global name and renamed properties, and its states. -/
structure BlockDescription where
  legacyId : Option UInt16
  global : Option Name
  renames : OrderedMap String String
  properties : OrderedMap String (List String)
  states : List StateDescription
  deriving DecidableEq, Inhabited, Repr

/-- Which blocks are nothing but fluid, and which property marks a block as full of which fluid. -/
structure FluidDescription where
  liquids : List Name
  waterlogged : Option String
  fluid : Option Name
  deriving DecidableEq, Inhabited, Repr

structure VersionDescription where
  version : String
  blocks : OrderedMap Name BlockDescription
  fluids : Option FluidDescription
  deriving DecidableEq, Inhabited, Repr

namespace BlockDescription

def globalName (b : BlockDescription) (own : Name) : Name := b.global.getD own

def globalProperty (b : BlockDescription) (own : String) : String := (b.renames.find? own).getD own

end BlockDescription

def textLe (a b : String) : Bool := a ≤ b

/-- The block with renames in the order of their keys, and so the values of each state. -/
def BlockDescription.arranged (b : BlockDescription) : BlockDescription :=
  { b with
    renames := b.renames.sortedBy textLe
    states := b.states.map fun s => { s with values := s.values.sortedBy textLe } }

/-- The description with every map that has no order of its own in the order of its keys. -/
def VersionDescription.arranged (d : VersionDescription) : VersionDescription :=
  { d with blocks := ⟨d.blocks.entries.map fun (n, b) => (n, b.arranged), by
      simpa [Function.comp_def] using d.blocks.nodup⟩ }

end Voxel
