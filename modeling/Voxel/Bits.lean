/-!
Logarithms of machine words, and the sizes that packed arrays and palettes take from them. The
floor logarithm fills every bit below the highest one, keeps the highest bit alone, and looks it up
through a multiplication that sends the sixty-four powers of two to distinct table slots.
-/
namespace Voxel.Bits

def exponents : Vector UInt8 64 := #v[
  63, 0, 58, 1, 59, 47, 53, 2, 60, 39, 48, 27, 54, 33, 42, 3,
  61, 51, 37, 40, 49, 18, 28, 20, 55, 30, 34, 11, 43, 14, 22, 4,
  62, 57, 46, 52, 38, 26, 32, 41, 50, 36, 17, 19, 29, 10, 13, 21,
  56, 45, 25, 31, 35, 16, 9, 12, 44, 24, 15, 8, 23, 7, 6, 5]

def smear (v : UInt64) : UInt64 :=
  let v := v ||| v >>> 1
  let v := v ||| v >>> 2
  let v := v ||| v >>> 4
  let v := v ||| v >>> 8
  let v := v ||| v >>> 16
  v ||| v >>> 32

def highest (v : UInt64) : UInt64 := smear v - smear v >>> 1

def slot (power : UInt64) : UInt64 := (power * 0x07EDD5E59A4E28C2) >>> 58

theorem slot_lt (power : UInt64) : (slot power).toNat < 64 := by
  have := (power * 0x07EDD5E59A4E28C2).toNat_lt
  rw [slot, UInt64.toNat_shiftRight, show (58 : UInt64).toNat % 64 = 58 from rfl,
    Nat.shiftRight_eq_div_pow]
  omega

/-- The floor of the base-two logarithm; zero gives 63. -/
def floorLog2 (v : UInt64) : Nat := (exponents.get ⟨(slot (highest v)).toNat, slot_lt _⟩).toNat

/-- The ceiling of the base-two logarithm, through the floor of one less than twice the word. -/
def ceilLog2 (v : UInt64) : Nat := floorLog2 (v <<< 1 - 1)

def forCount (count : UInt64) : Nat := if count ≤ 1 then 0 else ceilLog2 count

def capacity (bits : Nat) : Nat := Nat.pow 2 bits

/-- The number of words that hold `entries` values of `bits` bits when no value spans two words. -/
def wordCount (entries bits : Nat) : Nat :=
  let perWord := 64 / bits
  (entries + perWord - 1) / perWord

/-- The word count where it is computed on machine words: there is none if a word holds no value,
or if rounding up leaves the range of a word. -/
def wordCount? (entries bits : Nat) : Option Nat :=
  if bits = 0 ∨ 64 / bits = 0 ∨ UInt64.size ≤ entries + 64 / bits then none
  else some (wordCount entries bits)

end Voxel.Bits
