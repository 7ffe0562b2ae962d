import Voxel.Storage.Upgrade
/-!
Sections: a layer of blocks, and a layer of fluids that exists once something other than air was
written to it. A write to the missing layer makes it before anything else, so a write that fails
can leave an empty layer behind.
-/
namespace Voxel

structure Section where
  blocks : Flat
  fluids : Option Flat

namespace Section

def fresh (r : Registry) : Section := ⟨.fresh r, none⟩

def ofLegacy (r : Registry) (s : Legacy) : Report Section := do
  let (blocks, fluids) ← s.upgrade r
  return ⟨blocks, fluids⟩

def registry (s : Section) : RegistryId := s.blocks.registry

/-- A layer by its number; the second may be missing. -/
def layer (s : Section) : Nat → Except BlockError (Option Flat)
  | 0 => .ok (some s.blocks)
  | 1 => .ok s.fluids
  | n => .error (.invalidValue (.storage (.layer n)))

/-- The state at a position of a layer. A missing layer is air, at any position. -/
def read (r : Registry) (s : Section) (layer : Nat) (p : Position) : Except Failure StateId := do
  match ← s.layer layer with
  | some t =>
    let c ← p.cell
    t.read c
  | none => return r.air.runtimeId

def readState (r : Registry) (s : Section) (layer : Nat) (p : Position) :
    Except Failure BlockState := do
  match ← s.layer layer with
  | some t =>
    let c ← p.cell
    let id ← t.read c
    r.index.state id
  | none => return r.air

/-- Writes a state to a layer that is there; a failed write leaves it. -/
def writeLayer (r : Registry) (t : Flat) (p : Position) (id : StateId) : Flat × Report Unit :=
  Report.keeping t do
    let c ← p.cell
    t.write r c id

/-- Writes a state. Air written to a missing layer changes nothing, at any position. -/
def write (r : Registry) (s : Section) (layer : Nat) (p : Position) (id : StateId) :
    Section × Report Unit :=
  match layer with
  | 0 =>
    let (blocks, x) := writeLayer r s.blocks p id
    ({ s with blocks }, x)
  | 1 =>
    if s.fluids.isNone && id = r.air.runtimeId then (s, pure ())
    else
      -- the layer exists from here on, whether or not the write succeeds
      let (fluids, x) := writeLayer r (s.fluids.getD (.fresh r)) p id
      ({ s with fluids := some fluids }, x)
  | n => (s, Report.fail (.error (.invalidValue (.storage (.layer n)))))

def writeState (r : Registry) (s : Section) (layer : Nat) (p : Position) (t : BlockState) :
    Section × Report Unit :=
  if t.registry = s.registry then s.write r layer p t.runtimeId
  else (s, Report.fail (.error (.invalidValue (.storage (.otherSectionRegistry t.text)))))

/-- The state at a position with its fluid put back; air in the second layer is no fluid. -/
def merged (r : Registry) (s : Section) (p : Position) : Except Failure StateId := do
  let block ← s.read r 0 p
  let fluid ← s.read r 1 p
  r.fluids.combine block (if fluid = r.air.runtimeId then 0 else fluid)

def clone (s : Section) : Except Failure Section := do
  return ⟨← s.blocks.clone, ← s.fluids.mapM Flat.clone⟩

def ids (r : Registry) (s : Section) (layer : Nat) : Except Failure (List StateId) :=
  Cell.all.mapM fun c => s.read r layer c.position

def mergedIds (r : Registry) (s : Section) : Except Failure (List StateId) :=
  Cell.all.mapM fun c => s.merged r c.position

end Section
end Voxel
