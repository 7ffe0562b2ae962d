import Voxel.Fluid
import Voxel.Registry.Index
/-!
Registries. The global registry numbers states for good and only ever grows. The registry of a
version never changes; a bridge leads from its numbering to the global one and back. Both ways may
lose something: what has no counterpart becomes air.
-/
namespace Voxel

/-- The way between a version's numbering and the global one, as tables by runtime id. -/
structure Bridge where
  global : RegistryId
  outward : Array StateId
  inward : Array StateId
  air : StateId
  deriving Inhabited

namespace Bridge

/-- The global number of a version's state; 0 is air. -/
def toGlobal (b : Bridge) (id : StateId) : StateId := b.outward[id.toNat]?.getD 0

def fromGlobal (b : Bridge) (id : StateId) : StateId := b.inward[id.toNat]?.getD b.air

end Bridge

/-- Whether a registry is the global one or that of a version. -/
inductive Scope
  | global
  | version (name : String) (bridge : Bridge)

structure Registry where
  id : RegistryId
  scope : Scope
  index : Index
  air : BlockState
  fluids : FluidTable

namespace Registry

def isGlobal (r : Registry) : Bool :=
  match r.scope with
  | .global => true
  | .version .. => false

/-- The bridge to the global numbering; the global registry needs none. -/
def bridge? (r : Registry) : Option Bridge :=
  match r.scope with
  | .global => none
  | .version _ b => some b

def version? (r : Registry) : Option String :=
  match r.scope with
  | .global => none
  | .version v _ => some v

def toGlobal (r : Registry) (id : StateId) : StateId :=
  match r.bridge? with
  | none => id
  | some b => b.toGlobal id

def fromGlobal (r : Registry) (id : StateId) : StateId :=
  match r.bridge? with
  | none => id
  | some b => b.fromGlobal id

/-- The registry whose numbering the bridge leads to, or this one. -/
def globalId (r : Registry) : RegistryId :=
  match r.bridge? with
  | none => r.id
  | some b => b.global

def legacyId (r : Registry) (name : Name) : Except BlockError UInt16 := do
  let k ← r.index.kind name
  match k.legacyId with
  | some id => return id
  | none => .error (.unknownName name)

def nameOfLegacy (r : Registry) (id : UInt16) : Except BlockError Name :=
  BlockKind.name <$> r.index.legacyKind id

def stateOfLegacy (r : Registry) (p : LegacyPair) : Except BlockError BlockState := do
  let id ← r.index.legacyRuntimeId p
  r.index.state id

def stateOfTexts (r : Registry) (name : Name) (texts : List (String × String)) :
    Except BlockError BlockState := do
  let k ← r.index.kind name
  k.stateOfTexts texts

end Registry
end Voxel
