import Voxel.Bits
import Voxel.Outcome
import Voxel.Storage.Cell
/-!
Arrays with one entry for each cell, packed into words. All entries have one width, no entry spans
two words, and the first entry of a word takes its lowest bits. The bits above the last entry of a
word are unused.
-/
namespace Voxel

/-- An entry for each cell, `bits` wide. -/
structure Packed where
  bits : Nat
  bits_pos : 0 < bits
  bits_le : bits ≤ 32
  words : Vector UInt64 (Bits.wordCount volume bits)

namespace Packed

def perWord (bits : Nat) : Nat := 64 / bits

def mask (bits : Nat) : UInt64 := (1 : UInt64) <<< UInt64.ofNat bits - 1

def shift (bits : Nat) (c : Cell) : UInt64 := UInt64.ofNat (c.val % perWord bits * bits)

theorem perWord_pos {bits : Nat} (pos : 0 < bits) (le : bits ≤ 32) : 0 < perWord bits :=
  Nat.div_pos (by omega) pos

theorem word_lt {bits : Nat} (pos : 0 < bits) (le : bits ≤ 32) (c : Cell) :
    c.val / perWord bits < Bits.wordCount volume bits := by
  have hp := perWord_pos pos le
  have hc := c.isLt
  show c.val / perWord bits < (volume + perWord bits - 1) / perWord bits
  rw [Nat.div_lt_iff_lt_mul hp]
  have := Nat.div_add_mod (volume + perWord bits - 1) (perWord bits)
  have := Nat.mod_lt (volume + perWord bits - 1) hp
  rw [Nat.mul_comm]
  omega

def zero (bits : Nat) (pos : 0 < bits) (le : bits ≤ 32) : Packed :=
  ⟨bits, pos, le, Vector.replicate _ 0⟩

def ofWords? (bits : Nat) (words : Array UInt64) : Except Failure Packed :=
  if range : 0 < bits ∧ bits ≤ 32 then
    if size : words.size = Bits.wordCount volume bits then
      .ok ⟨bits, range.1, range.2, ⟨words, size⟩⟩
    else
      .error (.error (.invalidValue (.storage
        (.wordCount (Bits.wordCount volume bits) bits words.size))))
  else .error .fault

def get (p : Packed) (c : Cell) : Nat :=
  have := word_lt p.bits_pos p.bits_le c
  (p.words[c.val / perWord p.bits] >>> shift p.bits c &&& mask p.bits).toNat

def set (p : Packed) (c : Cell) (value : Nat) : Packed :=
  have h := word_lt p.bits_pos p.bits_le c
  let i := c.val / perWord p.bits
  let cleared := p.words[i] &&& ~~~(mask p.bits <<< shift p.bits c)
  let entry := (UInt64.ofNat value &&& mask p.bits) <<< shift p.bits c
  { p with words := p.words.set i (cleared ||| entry) h }

def entriesOf (bits : Nat) (word : UInt64) : List Nat :=
  (List.range (perWord bits)).map fun i => (word >>> UInt64.ofNat (i * bits) &&& mask bits).toNat

def toList (p : Packed) : List Nat := (p.words.toList.flatMap (entriesOf p.bits)).take volume

/-- The array with an entry replaced by a value, which has to fit. -/
def put (p : Packed) (c : Cell) (value : Nat) : Except Failure Packed :=
  if value < Bits.capacity p.bits then .ok (p.set c value) else .error .fault

/-- The array of another width with each entry sent through a function. -/
def remap (p : Packed) (bits : Nat) (pos : 0 < bits) (le : bits ≤ 32) (f : Nat → Nat) :
    Except Failure Packed :=
  (Cell.all.zip p.toList).foldlM (fun q (c, entry) => q.put c (f entry)) (zero bits pos le)

@[simp] theorem bits_set (p : Packed) (c : Cell) (value : Nat) :
    (p.set c value).bits = p.bits := rfl

theorem bits_put {p q : Packed} {c : Cell} {value : Nat} (h : p.put c value = .ok q) :
    q.bits = p.bits := by
  unfold put at h
  split at h
  · cases h; rfl
  · cases h

theorem bits_remap {p q : Packed} {bits : Nat} {pos : 0 < bits} {le : bits ≤ 32} {f : Nat → Nat}
    (h : p.remap bits pos le f = .ok q) : q.bits = bits := by
  refine Outcome.foldlM_keeps (motive := fun t => t.bits = bits) ?_ rfl h
  rintro s ⟨c, entry⟩ t _ same step
  exact (bits_put step).trans same

end Packed
end Voxel
