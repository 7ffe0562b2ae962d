import Voxel.Version.Bridge
import Voxel.Version.Document
import Voxel.Version.Kinds
/-!
The registry of a version, built from its description: the declared kinds in order, the fluids
inside their states, and the bridge to the global registry as it is at that moment.
-/
namespace Voxel.Version

def addKinds (registry : RegistryId) (version : String) (x : Index) :
    List (Name × BlockDescription) → Report Index
  | [] => pure x
  | (name, b) :: rest => do
    let kind ← buildKind registry name b
    let x ← (x.insert kind).mapError fun c =>
      BlockError.construction (.version (.clash version c))
    addKinds registry version x rest

/-- The fluid table with every state of a liquid kind, which is nothing but fluid. -/
def addLiquids (air : StateId) (t : FluidTable) (states : List BlockState) :
    Except BlockError FluidTable :=
  states.foldlM (fun t s => t.insert ⟨s.runtimeId, air, s.runtimeId⟩) t

/-- The fluid table with the states of a kind that a property marks as full. -/
def addWaterlogged (property : String) (fluid : StateId) (t : FluidTable) (k : BlockKind) :
    Except BlockError FluidTable :=
  match k.place? property with
  | none => .ok t
  | some place =>
    if (k.properties.get place).sort ≠ .bool then
      refuse (.notBoolean k.name property)
    else
      k.states.foldlM (fun t s => do
        -- index 1 of a boolean property is true
        if (← s.index property) = 1 then
          let drained ← s.withIndex property 0
          t.insert ⟨s.runtimeId, drained.runtimeId, fluid⟩
        else return t) t

def fluidTable (index : Index) (air : StateId) (f : FluidDescription) :
    Except BlockError FluidTable := do
  let t ← f.liquids.foldlM (fun t name =>
    match index.kind name with
    | .ok k => addLiquids air t k.states
    | .error _ => refuse (.undeclaredLiquid name)) FluidTable.empty
  match f.waterlogged with
  | none => return t
  | some property =>
    match f.fluid with
    | none => refuse (.noFluidFor property)
    | some name =>
      match index.kind name with
      | .error _ => refuse (.undeclaredFluid name)
      | .ok k =>
        index.kinds.foldlM (addWaterlogged property k.defaultState.runtimeId) t

/-- The fluid table of a version; without a description no state contains fluid. -/
def fluids (index : Index) (air : StateId) : Option FluidDescription → Report FluidTable
  | none => pure .empty
  | some f => do
    let t ← fluidTable index air f
    Report.log .debug s!"Mapped {t.size} states containing fluid"
    return t

def build (id : RegistryId) (d : VersionDescription) (global : Registry) : Report Registry := do
  let index ← addKinds id d.version .empty d.blocks.entries
  match index.kind .air with
  | .error _ => Report.fail (.error (.construction (.version (.noAir d.version))))
  | .ok k =>
    let air := k.defaultState
    let fluids ← fluids index air.runtimeId d.fluids
    let bridge ← bridge index air.runtimeId d.blocks global
    Report.log .info
      s!"Built block registry for version {d.version} with {index.kinds.size} block types and {index.stateCount} states"
    return ⟨id, .version d.version bridge, index, air, fluids⟩

def buildText (id : RegistryId) (text : String) (global : Registry) : Report Registry := do
  let d ← VersionDescription.ofText text
  build id d global

end Voxel.Version
