/-!
The text of bytes that may not be well-formed UTF-8. Each longest part that begins like a
character and then breaks off reads as one replacement character; all else reads as it is.
-/
namespace Voxel.Text.Utf8

/-- What has to follow a first byte: the number of bytes, and the range of the first of them. -/
structure Lead where
  tails : Nat
  low : UInt8
  high : UInt8
  deriving DecidableEq, Inhabited, Repr

/-- What a first byte calls for; some bytes start no character. -/
def lead? (b : UInt8) : Option Lead :=
  if b < 0x80 then some ⟨0, 0x80, 0xBF⟩
  else if b < 0xC2 then none
  else if b < 0xE0 then some ⟨1, 0x80, 0xBF⟩
  else if b = 0xE0 then some ⟨2, 0xA0, 0xBF⟩
  else if b = 0xED then some ⟨2, 0x80, 0x9F⟩
  else if b < 0xF0 then some ⟨2, 0x80, 0xBF⟩
  else if b = 0xF0 then some ⟨3, 0x90, 0xBF⟩
  else if b < 0xF4 then some ⟨3, 0x80, 0xBF⟩
  else if b = 0xF4 then some ⟨3, 0x80, 0x8F⟩
  else none

def following : Nat → UInt8 → UInt8 → List UInt8 → Nat
  | 0, _, _, _ => 0
  | _, _, _, [] => 0
  | n + 1, low, high, b :: rest =>
    if low ≤ b ∧ b ≤ high then following n 0x80 0xBF rest + 1 else 0

def leadBits (tails : Nat) (b : UInt8) : Nat :=
  match tails with
  | 0 => b.toNat
  | 1 => b.toNat % 32
  | 2 => b.toNat % 16
  | _ => b.toNat % 8

def assemble (tails : Nat) (b : UInt8) (rest : List UInt8) : Char :=
  Char.ofNat (rest.foldl (fun n t => n * 64 + t.toNat % 64) (leadBits tails b))

def replacement : Char := '\uFFFD'

/-- The characters of bytes, with replacements. -/
def repaired : List UInt8 → List Char
  | [] => []
  | b :: rest =>
    match lead? b with
    | none => replacement :: repaired rest
    | some l =>
      -- the bytes that did go on with the character are replaced with it
      let n := following l.tails l.low l.high rest
      let c := if n = l.tails then assemble l.tails b (rest.take n) else replacement
      c :: repaired (rest.drop n)
termination_by bytes => bytes.length
decreasing_by all_goals simp only [List.length_cons, List.length_drop]; omega

def lossy (bytes : ByteArray) : String :=
  match String.fromUTF8? bytes with
  | some s => s
  | none => String.ofList (repaired bytes.data.toList)

end Voxel.Text.Utf8
