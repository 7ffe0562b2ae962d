import Voxel.Block.Kind
import Voxel.Report
/-!
Declarations of block kinds, and the building of their state spaces. A declaration is refused if
it has too many properties, two of one name, one without values or with too many, or if the
states are too many to number.
-/
namespace Voxel

/-- A block kind before its states are built. -/
structure Declaration where
  name : Name
  properties : List Property
  legacyId : Option UInt16
  default : Option Nat

/-- Computes the items of an array of a known size in order, up to the first failure. Each
computation starts in the state that the one before it left. -/
def collect {α ε σ : Type} (size : Nat) (f : Nat → σ → Except ε (α × σ)) (start : σ) :
    Except ε ({ items : Array α // items.size = size } × σ) :=
  go size #[] (Nat.zero_add size) start
where
  go (left : Nat) (items : Array α) (h : items.size + left = size) (s : σ) :
      Except ε ({ items : Array α // items.size = size } × σ) :=
    match left, h with
    | 0, h => .ok (⟨items, h⟩, s)
    | left + 1, h =>
      match f items.size s with
      | .error e => .error e
      | .ok (a, s) => go left (items.push a) (by rw [Array.size_push]; omega) s

namespace Declaration

def maxProperties : Nat := 16

def maxValues : Nat := 65535

def maxStates : Nat := 4294967295

def checkProperties (kind : Name) (seen : List String) : List Property → Except BlockError Unit
  | [] => .ok ()
  | p :: rest =>
    if p.name ∈ seen then .error (.duplicate (.property p.name kind))
    else if p.size = 0 ∨ maxValues < p.size then
      .error (.construction (.kind (.unsupportedSize kind p.name)))
    else checkProperties kind (p.name :: seen) rest

def sizes (d : Declaration) : Except BlockError (List Nat) := do
  if maxProperties < d.properties.length then
    .error (.construction (.kind (.tooManyProperties d.name d.properties.length maxProperties)))
  checkProperties d.name [] d.properties
  return d.properties.map Property.size

/-- The product of sizes, multiplied from the last on, unless it grows too large. -/
def countStates : (sizes : List Nat) → Option { n : Nat // n = Radix.total sizes }
  | [] => some ⟨1, rfl⟩
  | size :: rest =>
    match countStates rest with
    | none => none
    | some ⟨n, h⟩ =>
      if size * n ≤ maxStates then some ⟨size * n, congrArg (size * ·) h⟩ else none

def entry (d : Declaration) (assigned : StateId × Option UInt8) : StateEntry :=
  ⟨assigned.1, d.legacyId.bind fun l => assigned.2.map fun m => ⟨l, m⟩⟩

/-- What assigns a number and data to each state. It is told the offset of the state and the index of
each value, and may keep a state of its own. -/
abbrev Rule (σ : Type) := Nat → List Nat → σ → Except Failure ((StateId × Option UInt8) × σ)

/-- The state space, with the number and data that a rule assigns to each state in turn. -/
def enumerate {σ : Type} (d : Declaration) (registry : RegistryId) (assign : Rule σ) (start : σ) :
    Except Failure (BlockKind × σ) := do
  let sizes ← d.sizes
  match countStates (d.properties.map Property.size) with
  | none => .error (.error (.construction (.kind (.tooManyStates d.name))))
  | some ⟨total, total_eq⟩ =>
    let (⟨entries, size_entries⟩, last) ← collect total (fun offset s =>
      Prod.map d.entry id <$> assign offset (Radix.digits sizes offset) s) start
    have size_entries := size_entries.trans total_eq
    -- without a choice of its own a kind takes the defaults of its properties
    let default := d.default.getD (Radix.number sizes (d.properties.map Property.defaultIndex))
    if default_lt : default < entries.size then
      return ({ registry, name := d.name, legacyId := d.legacyId, properties := d.properties,
                entries, default, moves := Radix.moves (d.properties.map Property.size),
                size_entries, default_lt, moves_eq := rfl }, last)
    else .error (.error (.construction (.kind (.defaultOutOfBounds d.name default))))

/-- The state space, with the number and data that a rule assigns to each offset. -/
def states (d : Declaration) (registry : RegistryId)
    (assign : Nat → Except Failure (StateId × Option UInt8)) : Except Failure BlockKind :=
  Prod.fst <$> d.enumerate registry (fun offset _ _ => (·, ()) <$> assign offset) ()

def build (d : Declaration) (registry : RegistryId)
    (assign : Nat → Except Failure (StateId × Option UInt8)) : Report BlockKind := do
  let kind ← d.states registry assign
  Report.log .trace
    s!"Built {kind.name.text} with {kind.stateCount} states over {kind.properties.length} traits"
  return kind

end Declaration
end Voxel
