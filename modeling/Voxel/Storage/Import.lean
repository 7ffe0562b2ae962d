import Voxel.Json.Decode
import Voxel.Json.Reader
import Voxel.Json.Writer
import Voxel.Storage.Flat
/-!
Flat storages from palettes and packed indices that come from elsewhere. A palette may name one
state twice; its entries are sent to the distinct states they stand for.
-/
namespace Voxel

structure PaletteEntry where
  name : Name
  values : OrderedMap String String
  deriving DecidableEq, Inhabited, Repr

namespace PaletteEntry

def plain (name : Name) : PaletteEntry := ⟨name, .empty⟩

def withValue (e : PaletteEntry) (property text : String) : PaletteEntry :=
  { e with values := e.values.insert property text }

def ofJson (j : Json) : Json.Read PaletteEntry := do
  let read (e : PaletteEntry) (i : Nat) (j : Json) : Json.Read PaletteEntry :=
    match i with
    | 0 => return { e with name := ← j.asName }
    | _ => return { e with values := ← j.asMap pure Json.asText }
  let x ← j.foldRecord ["Name", "Properties"] read default
  if 0 ∈ x.2 then .ok x.1 else .error .malformed

def toJson (e : PaletteEntry) : Json :=
  .record <|
    [("Name", .text e.name.text)] ++
    (if e.values.entries.isEmpty then []
     else [("Properties", .record (e.values.entries.map fun (k, v) => (k, .text v)))])

def listOfText (s : String) : Json.Read (List PaletteEntry) :=
  (Json.Document.ofText s).read (Json.asList ofJson)

def resolve (r : Registry) (e : PaletteEntry) : Except BlockError StateId :=
  BlockState.runtimeId <$> r.stateOfTexts e.name e.values.entries

end PaletteEntry

namespace Flat

/-- The distinct states of a palette, and the index of each entry's state among them. -/
def resolveAll (r : Registry) (bits : Nat) (entries : List PaletteEntry) :
    Except Failure (Palette × Array Nat) := do
  entries.foldlM (fun (p, indices) e => do
    let id ← e.resolve r
    match p.insert id with
    | .present index => return (p, indices.push index)
    | .inserted index q => return (q, indices.push index)
    | .full => .error (.error (.capacityExceeded bits))) (← Palette.ofBits bits, #[])

def importBits (size : Nat) : Nat := max minBits (Bits.forCount (UInt64.ofNat size))

/-- The storage that a palette and packed indices into it describe. -/
def ofPacked (r : Registry) (entries : List PaletteEntry) (words : Array UInt64) :
    Except Failure Flat := do
  if entries.isEmpty || volume < entries.length then
    .error (.error (.invalidValue (.storage (.paletteSize volume entries.length))))
  let bits := importBits entries.length
  -- entries count the palette as given here, and its distinct states in the result
  let raw ← Packed.ofWords? bits words
  let (palette, indices) ← resolveAll r bits entries
  match raw.toList.find? (indices.size ≤ ·) with
  | some index => .error (.error (.invalidValue (.storage (.paletteIndex index indices.size))))
  | none =>
    let cells ← raw.remap raw.bits raw.bits_pos raw.bits_le fun i => indices[i]?.getD 0
    return ⟨r.id, cells, .paletted palette⟩

/-- The words that bytes hold, highest byte first. -/
def wordsOfBytes : List UInt8 → List UInt64
  | a :: b :: c :: d :: e :: f :: g :: h :: rest =>
    [a, b, c, d, e, f, g, h].foldl (fun w x => w <<< 8 ||| x.toUInt64) 0 :: wordsOfBytes rest
  | _ => []

def ofPackedBytes (r : Registry) (entries : List PaletteEntry) (bytes : Array UInt8) :
    Except Failure Flat :=
  if bytes.size % 8 ≠ 0 then .error (.error (.invalidValue (.storage (.brokenWords bytes.size))))
  else ofPacked r entries (wordsOfBytes bytes.toList).toArray

end Flat
end Voxel
