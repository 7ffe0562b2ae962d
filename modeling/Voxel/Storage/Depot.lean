import Voxel.Report
import Voxel.Storage.Pool
/-!
The pools in use: pools of words, which flat storages draw from, and pools of bytes, which storages
in the old layout draw from.
-/
namespace Voxel

inductive Width
  | word
  | byte
  deriving DecidableEq, Inhabited, Repr

namespace Width

abbrev Item : Width → Type
  | word => UInt64
  | byte => UInt8

instance : (w : Width) → Inhabited w.Item
  | word => inferInstanceAs (Inhabited UInt64)
  | byte => inferInstanceAs (Inhabited UInt8)

def item : (w : Width) → Nat → w.Item
  | word, n => UInt64.ofNat n
  | byte, n => UInt8.ofNat n

def number : (w : Width) → w.Item → Nat
  | word, (x : UInt64) => x.toNat
  | byte, (x : UInt8) => x.toNat

def bytes : Width → Nat
  | word => 8
  | byte => 1

/-- The length of the longest buffer: a signed 64-bit number counts its bytes. -/
def maxLength (w : Width) : Nat := (UInt64.size / 2 - 1) / w.bytes

end Width

/-- Every pool there is, by width and place. -/
structure Depot where
  words : Array (Pool UInt64)
  bytes : Array (Pool UInt8)

structure PoolRef where
  width : Width
  place : Nat
  deriving DecidableEq, Inhabited, Repr

namespace Depot

def empty : Depot := ⟨#[], #[]⟩

def pools (d : Depot) : (w : Width) → Array (Pool w.Item)
  | .word => d.words
  | .byte => d.bytes

def replace (d : Depot) : (w : Width) → Array (Pool w.Item) → Depot
  | .word, ps => { d with words := ps }
  | .byte, ps => { d with bytes := ps }

def pool (d : Depot) (r : PoolRef) : Pool r.width.Item :=
  (d.pools r.width)[r.place]?.getD (.fresh 0)

def add (d : Depot) (w : Width) (capacity : Nat) : Depot × PoolRef :=
  (d.replace w ((d.pools w).push (.fresh capacity)), ⟨w, (d.pools w).size⟩)

def modify (d : Depot) (r : PoolRef) (f : Pool r.width.Item → Pool r.width.Item) : Depot :=
  d.replace r.width ((d.pools r.width).modify r.place f)

def acquire (d : Depot) (r : PoolRef) (length : Nat) : Depot :=
  d.modify r fun p => (p.acquire length).1

def release (d : Depot) (r : PoolRef) (length : Nat) : Depot :=
  d.modify r fun p => p.release (Array.replicate length default)

def book (r : PoolRef) (d : Depot) : Event → Depot
  | .acquired n => d.acquire r n
  | .released n => d.release r n
  | .logged _ => d

end Depot
end Voxel
