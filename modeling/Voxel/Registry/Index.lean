import Std.Data.HashMap
import Std.Data.TreeMap
import Voxel.Block.Kind
/-!
The look-up tables of a registry: kinds by name and by old number, states by runtime id and by
old number with data. A kind is added as a whole or not at all.
-/
namespace Voxel

/-- An old number above its four bits of data, in one word. -/
def LegacyPair.combined (p : LegacyPair) : UInt32 := p.id.toUInt32 <<< 4 ||| p.data.toUInt32

/-- What a registry looks its answers up in. Runtime ids may leave holes. -/
structure Index where
  kinds : Array BlockKind
  byName : Std.HashMap Name BlockKind
  byLegacyId : Std.TreeMap UInt16 BlockKind
  byRuntimeId : Array (Option BlockState)
  byLegacyPair : Std.HashMap UInt32 StateId
  stateCount : Nat

namespace Index

def empty : Index := ⟨#[], ∅, ∅, #[], ∅, 0⟩

instance : Inhabited Index := ⟨empty⟩

def limit (x : Index) : Nat := x.byRuntimeId.size

def maxRuntimeId (x : Index) : StateId := UInt32.ofNat (x.limit - 1)

def state? (x : Index) (id : StateId) : Option BlockState := x.byRuntimeId[id.toNat]?.join

def hasName (x : Index) (name : Name) : Bool := x.byName.contains name

def hasLegacyId (x : Index) (id : UInt16) : Bool := x.byLegacyId.contains id

/-- Whether a state has an old number and data. Data above 15 belongs to none, and would run into
the number in one word. -/
def hasLegacyPair (x : Index) (p : LegacyPair) : Bool :=
  p.data < 16 && x.byLegacyPair.contains p.combined

def hasRuntimeId (x : Index) (id : StateId) : Bool := (x.state? id).isSome

def kind (x : Index) (name : Name) : Except BlockError BlockKind :=
  match x.byName[name]? with
  | some k => .ok k
  | none => .error (.unknownName name)

def legacyKind (x : Index) (id : UInt16) : Except BlockError BlockKind :=
  match x.byLegacyId[id]? with
  | some k => .ok k
  | none => .error (.unknownLegacyId id)

def state (x : Index) (id : StateId) : Except BlockError BlockState :=
  match x.state? id with
  | some s => .ok s
  | none => .error (.unknownRuntimeId id)

def legacyRuntimeId (x : Index) (p : LegacyPair) : Except BlockError StateId :=
  if p.data < 16 then
    match x.byLegacyPair[p.combined]? with
    | some id => .ok id
    | none => .error (.unknownLegacyState p.id p.data)
  else .error (.unknownLegacyState p.id p.data)

def states (x : Index) : List BlockState := x.kinds.toList.flatMap BlockKind.states

/-- The old numbers in use with the names of their kinds, in rising order. -/
def legacyIds (x : Index) : List (UInt16 × Name) :=
  x.byLegacyId.toList.map fun e => (e.1, e.2.name)

def stateClash? (x : Index) (s : BlockState) : Option Clash :=
  if x.hasRuntimeId s.runtimeId then some (.runtimeId s.runtimeId s.text)
  else
    match s.legacy with
    | some p =>
      if x.byLegacyPair.contains p.combined then some (.legacyState p.id p.data s.text) else none
    | none => none

/-- What a kind has that is taken, if anything. -/
def clash? (x : Index) (k : BlockKind) : Option Clash :=
  if x.hasName k.name then some (.kind k.name)
  else
    match k.legacyId.filter x.hasLegacyId with
    | some id => some (.legacyId id k.name)
    | none => k.states.findSome? x.stateClash?

def place (ids : Array (Option BlockState)) (s : BlockState) : Array (Option BlockState) :=
  let n := s.runtimeId.toNat
  -- numbers that are skipped become holes
  let ids := if n < ids.size then ids else ids ++ Array.replicate (n + 1 - ids.size) none
  ids.setIfInBounds n (some s)

def placeLegacy (pairs : Std.HashMap UInt32 StateId) (s : BlockState) : Std.HashMap UInt32 StateId :=
  match s.legacy with
  | some p => pairs.insert p.combined s.runtimeId
  | none => pairs

/-- The tables with a kind added that has nothing that is taken. -/
def add (x : Index) (k : BlockKind) : Index where
  kinds := x.kinds.push k
  byName := x.byName.insert k.name k
  byLegacyId :=
    match k.legacyId with
    | some id => x.byLegacyId.insert id k
    | none => x.byLegacyId
  byRuntimeId := k.states.foldl place x.byRuntimeId
  byLegacyPair := k.states.foldl placeLegacy x.byLegacyPair
  stateCount := x.stateCount + k.stateCount

def insert (x : Index) (k : BlockKind) : Except Clash Index :=
  match x.clash? k with
  | some c => .error c
  | none => .ok (x.add k)

end Index
end Voxel
