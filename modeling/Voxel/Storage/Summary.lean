import Voxel.Block.Kind
/-!
Short forms of long lists of states: the runs of equal items, and a hash of the bytes.
-/
namespace Voxel.Summary

def runs {α : Type} [DecidableEq α] : List α → List (α × Nat)
  | [] => []
  | a :: rest =>
    match runs rest with
    | [] => [(a, 1)]
    | (b, n) :: more => if a = b then (b, n + 1) :: more else (a, 1) :: (b, n) :: more

def basis : UInt64 := 14695981039346656037

/-- The hash with one more byte: mixed into the low bits, then spread by a multiplication. -/
def mix (hash : UInt64) (byte : UInt8) : UInt64 := (hash ^^^ byte.toUInt64) * 1099511628211

def bytes (id : StateId) : List UInt8 :=
  [id.toUInt8, (id >>> 8).toUInt8, (id >>> 16).toUInt8, (id >>> 24).toUInt8]

def digest (ids : List StateId) : UInt64 := (ids.flatMap bytes).foldl mix basis

end Voxel.Summary
