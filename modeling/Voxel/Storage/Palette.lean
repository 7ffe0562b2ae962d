import Voxel.Bits
import Voxel.Block.Kind
/-!
Palettes: two-way tables between small indices and states. Indices follow the order of arrival;
a second list, sorted by state, is searched by bisection.
-/
namespace Voxel

/-- Distinct states, as many as `bits` bits can number at most, each with its index. -/
structure Palette where
  ids : Array StateId
  sorted : Array (StateId × Nat)
  bits : Nat
  size_sorted : sorted.size = ids.size

/-- What comes of putting a state into a palette. -/
inductive Insertion
  | present (index : Nat)
  | inserted (index : Nat) (palette : Palette)
  | full

namespace Palette

def empty (bits : Nat) : Palette := ⟨#[], #[], bits, rfl⟩

instance : Inhabited Palette := ⟨empty 0⟩

def maxBits : Nat := 16

/-- An index as the sorted list keeps it, in `maxBits` bits. -/
def narrowed (index : Nat) : Nat := (UInt16.ofNat index).toNat

def size (p : Palette) : Nat := p.ids.size

def capacity (p : Palette) : Nat := Bits.capacity p.bits

def state? (p : Palette) (index : Nat) : Option StateId := p.ids[index]?

/-- The first place from `low` on whose state is not below a given one, in a sorted list. -/
def lowerBound (sorted : Array (StateId × Nat)) (id : StateId) (low high : Nat)
    (h : high ≤ sorted.size) : Nat :=
  if less : low < high then
    let middle := low + (high - low) / 2
    have : middle < sorted.size := by omega
    if sorted[middle].1 < id then lowerBound sorted id (middle + 1) high h
    else lowerBound sorted id low middle (by omega)
  else low
termination_by high - low

theorem lowerBound_le (sorted : Array (StateId × Nat)) (id : StateId) {low high : Nat}
    (h : high ≤ sorted.size) (ordered : low ≤ high) : lowerBound sorted id low high h ≤ high := by
  fun_induction lowerBound sorted id low high h with
  | case1 low high h less middle _ _ ih => exact ih (by omega)
  | case2 low high h less middle _ _ ih => exact Nat.le_trans (ih (by omega)) (by omega)
  | case3 => exact ordered

def place (p : Palette) (id : StateId) : Nat :=
  lowerBound p.sorted id 0 p.sorted.size (Nat.le_refl _)

theorem place_le (p : Palette) (id : StateId) : p.place id ≤ p.sorted.size :=
  lowerBound_le p.sorted id (Nat.le_refl _) (Nat.zero_le _)

def indexOf? (p : Palette) (id : StateId) : Option Nat :=
  match p.sorted[p.place id]? with
  | some (found, index) => if found = id then some index else none
  | none => none

def push (p : Palette) (id : StateId) : Palette where
  ids := p.ids.push id
  sorted := p.sorted.insertIdx (p.place id) (id, narrowed p.size) (p.place_le id)
  bits := p.bits
  size_sorted := by rw [Array.size_insertIdx, Array.size_push, p.size_sorted]

/-- Puts a state in, unless it is there or the palette is full. -/
def insert (p : Palette) (id : StateId) : Insertion :=
  match p.indexOf? id with
  | some index => .present index
  | none => if p.capacity ≤ p.size then .full else .inserted p.size (p.push id)

def adding (p : Palette) (id : StateId) : Palette :=
  match p.insert id with
  | .inserted _ q => q
  | _ => p

def singleton (id : StateId) (bits : Nat) : Palette := (empty bits).adding id

/-- An empty palette, whose width has to be one that indices can have. -/
def ofBits (bits : Nat) : Except Failure Palette :=
  if bits ≤ maxBits then .ok (empty bits) else .error .fault

/-- The palette of another width with the same states at the same indices. It has to hold them. -/
def rebuilt (p : Palette) (bits : Nat) : Except Failure Palette := do
  if Bits.capacity bits < p.size then .error .fault
  return p.ids.foldl adding (← ofBits bits)

end Palette
end Voxel
