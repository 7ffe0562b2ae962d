import Std.Data.HashMap
import Voxel.Block.Kind
/-!
Fluids inside block states. A table splits a state that contains fluid into the drained state and
the fluid, and puts the two together again. Every entry can be followed both ways.
-/
namespace Voxel

/-- A state with its fluid, the state without it, and the fluid. -/
structure Filling where
  filled : StateId
  drained : StateId
  fluid : StateId
  deriving DecidableEq, Inhabited, Repr

/-- Which states contain fluid, and what comes of adding fluid to a state. -/
structure FluidTable where
  split : Std.HashMap StateId (StateId × StateId)
  merge : Std.HashMap (StateId × StateId) StateId
  deriving Inhabited

namespace FluidTable

def empty : FluidTable := ⟨∅, ∅⟩

def size (t : FluidTable) : Nat := t.split.size

/-- The fluid in a state, or 0. -/
def extract (t : FluidTable) (state : StateId) : StateId :=
  match t.split[state]? with
  | some (_, fluid) => fluid
  | none => 0

def strip (t : FluidTable) (state : StateId) : StateId :=
  match t.split[state]? with
  | some (drained, _) => drained
  | none => state

/-- The state with fluid added, if there is one. Fluid 0 changes nothing. -/
def add? (t : FluidTable) (state fluid : StateId) : Option StateId :=
  if fluid = 0 then some state else t.merge[(state, fluid)]?

def combine (t : FluidTable) (state fluid : StateId) : Except BlockError StateId :=
  match t.add? state fluid with
  | some filled => .ok filled
  | none => .error (.invalidValue (.fluid state fluid))

/-- The table with one more filling, unless it contradicts one that is there. -/
def insert (t : FluidTable) (f : Filling) : Except BlockError FluidTable :=
  let refuse (d : FluidDefect) := Except.error (BlockError.construction (.fluid d))
  if f.fluid = 0 then refuse (.noFluid f.filled)
  else
    match t.split[f.filled]? with
    | some parts =>
      if parts = (f.drained, f.fluid) then .ok t
      else refuse (.splitTwice f.filled parts (f.drained, f.fluid))
    | none =>
      match t.merge[(f.drained, f.fluid)]? with
      | some other => refuse (.combinedTwice f.drained f.fluid other f.filled)
      | none =>
        .ok ⟨t.split.insert f.filled (f.drained, f.fluid),
             t.merge.insert (f.drained, f.fluid) f.filled⟩

end FluidTable
end Voxel
