/-!
Whole numbers in decimal. A signed number has one text, which reading accepts and no other: no
plus sign, no leading zero, no blank. A count may have leading zeros and one plus sign.
-/
namespace Voxel.Text

/-- The value of a canonical numeral in the range of a 32-bit word. -/
def readInt32? (s : String) : Option Int32 :=
  match s.toInt? with
  | none => none
  | some v =>
    if v.repr = s ∧ Int32.minValue.toInt ≤ v ∧ v ≤ Int32.maxValue.toInt then some (Int32.ofInt v)
    else none

def int32 (v : Int32) : String := v.toInt.repr

def digits? (cs : List Char) : Option Nat :=
  if cs.isEmpty || cs.any (fun c => !c.isDigit) then none
  else some (cs.foldl (fun n c => 10 * n + (c.toNat - '0'.toNat)) 0)

/-- Reads an index of 32 bits, with an optional plus sign. -/
def readIndex? (cs : List Char) : Option Nat :=
  let ds := match cs with
    | '+' :: rest => rest
    | _ => cs
  (digits? ds).filter (· < UInt32.size)

end Voxel.Text
