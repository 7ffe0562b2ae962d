import Voxel.Storage.Flat
import Voxel.Storage.Legacy
/-!
Upgrading a layer in the old layout to flat layers. The first layer takes each state without its
fluid. The second, which is made for the first cell with fluid, takes the fluids.
-/
namespace Voxel

/-- The layers made so far, and the number of cells with fluid. -/
structure Upgraded where
  blocks : Flat
  fluids : Option Flat
  wet : Nat

namespace Upgraded

def add (r : Registry) (s : Legacy) (x : Upgraded) (c : Cell) : Report Upgraded := do
  let id ← s.read r c
  let fluid := r.fluids.extract id
  if fluid = 0 then
    let blocks ← x.blocks.write r c id
    return { x with blocks }
  else
    let drained := r.fluids.strip id
    let p := c.position
    Report.log .trace s!"Split {id} at ({p.x}, {p.y}, {p.z}) into {drained} and fluid {fluid}"
    let blocks ← x.blocks.write r c drained
    let fluids ← (x.fluids.getD (.fresh r)).write r c fluid
    return ⟨blocks, some fluids, x.wet + 1⟩

end Upgraded

def Legacy.upgrade (r : Registry) (s : Legacy) : Report (Flat × Option Flat) := do
  let x ← Cell.all.foldlM (Upgraded.add r s) ⟨.fresh r, none, 0⟩
  Report.log .debug
    s!"Upgraded legacy storage to {x.blocks.bits} bits per block, {x.wet} cells with fluid"
  return (x.blocks, x.fluids)

end Voxel
