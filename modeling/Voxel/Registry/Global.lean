import Voxel.Block.Declaration
import Voxel.Registry.Basic
/-!
The global registry. It starts with air as state 0, and every registration gives the states of one
more kind the next free numbers. A registration that fails changes nothing.
-/
namespace Voxel.Registry

def newGlobal (id : RegistryId) : Report Registry := do
  let air ← Declaration.build ⟨.air, [], none, none⟩ id fun _ => .ok (0, none)
  return ⟨id, .global, Index.empty.add air, air.defaultState, .empty⟩

/-- The number that a registration gives to a state, counted from the first free number. -/
def freeId (first : StateId) (offset : Nat) : Except Failure (StateId × Option UInt8) :=
  if first.toNat + offset < UInt32.size then .ok (UInt32.ofNat (first.toNat + offset), none)
  else .error (.error (.construction (.kind .idsExhausted)))

def register (r : Registry) (d : Declaration) : Report (Registry × BlockKind) := do
  if r.index.hasName d.name then Report.fail (.error (.duplicate (.kind d.name)))
  -- with every number in use this is 0 again, which is taken
  let first := UInt32.ofNat r.index.limit
  let kind ← d.build r.id (freeId first)
  let index ← (r.index.insert kind).mapError BlockError.duplicate
  let last := first.toNat + kind.stateCount
  Report.log .debug
    s!"Registered {kind.name.text} with {kind.stateCount} states at runtime ids {first}..{last}"
  return ({ r with index }, kind)

/-- Registers kinds in order up to the first that fails, and keeps those before it. -/
def registerAll (r : Registry) : List Declaration → Registry × Report (List BlockKind)
  | [] => (r, pure [])
  | d :: rest =>
    let x := r.register d
    match x.result with
    | .error e => (r, ⟨x.events, .error e⟩)
    | .ok (r, kind) =>
      let (r, y) := r.registerAll rest
      (r, ⟨x.events ++ y.events, (kind :: ·) <$> y.result⟩)

end Voxel.Registry
