import Voxel.OrderedMap
/-!
Pools of buffers. A buffer that is given back is kept, if there is room, on the shelf of its length
for the next one who asks for that length, and is cleared before it is lent again. The pool counts
what it lends and gets back.
-/
namespace Voxel

/-- Buffers that wait to be lent again, on a shelf for each length, latest first. -/
structure Shelves (α : Type) where
  byLength : OrderedMap Nat (List (Array α))
  deriving Inhabited, Repr

namespace Shelves

variable {α : Type}

def empty : Shelves α := ⟨.empty⟩

def toList (s : Shelves α) : List (Array α) := s.byLength.entries.flatMap Prod.snd

def length (s : Shelves α) : Nat := s.toList.length

def shelf (s : Shelves α) (length : Nat) : List (Array α) := (s.byLength.find? length).getD []

/-- The latest buffer on the shelf of a length, and what is left. -/
def take? (s : Shelves α) (length : Nat) : Option (Array α × Shelves α) :=
  match s.byLength.find? length with
  | some (buffer :: rest) => some (buffer, ⟨s.byLength.insert length rest⟩)
  | _ => none

def put (s : Shelves α) (buffer : Array α) : Shelves α :=
  ⟨s.byLength.insert buffer.size (buffer :: s.shelf buffer.size)⟩

end Shelves

/-- Buffers that wait to be lent again, and the counts. -/
structure Pool (α : Type) where
  capacity : Nat
  acquired : Nat
  released : Nat
  idle : Shelves α
  deriving Inhabited, Repr

namespace Pool

variable {α : Type}

/-- A buffer with items written over it, place by place. -/
def overwrite (buffer items : Array α) : Array α := buffer.mapIdx fun i old => items.getD i old

variable [Inhabited α]

def fresh (capacity : Nat) : Pool α := ⟨capacity, 0, 0, .empty⟩

def outstanding (p : Pool α) : Nat := p.acquired - p.released

/-- Lends a cleared buffer: the latest idle one of the length, or else a new one. -/
def acquire (p : Pool α) (length : Nat) : Pool α × Array α :=
  match p.idle.take? length with
  | some (buffer, idle) =>
    ({ p with acquired := p.acquired + 1, idle }, buffer.map fun _ => default)
  | none => ({ p with acquired := p.acquired + 1 }, Array.replicate length default)

def acquireCopy (p : Pool α) (items : Array α) : Pool α × Array α :=
  let (p, buffer) := p.acquire items.size
  (p, overwrite buffer items)

def release (p : Pool α) (buffer : Array α) : Pool α :=
  { p with
    released := p.released + 1
    idle := if p.idle.length < p.capacity then p.idle.put buffer else p.idle }

end Pool
end Voxel
