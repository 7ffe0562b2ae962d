import Voxel.Registry.Basic
import Voxel.Report
import Voxel.Storage.Cell
/-!
Storage of a section layer in the old layout: a byte of block number and four bits of data for
each cell, and four more bits of block number once some number needs them. Of two cells that share
a byte the even one has its low half.
-/
namespace Voxel

/-- The number of bytes that hold four bits for each cell. -/
abbrev halfVolume : Nat := 2048

abbrev Nibbles := Vector UInt8 halfVolume

namespace Nibbles

theorem byte_lt (c : Cell) : c.val / 2 < halfVolume := by
  have h : c.val < 4096 := c.isLt
  show c.val / 2 < 2048
  omega

def get (v : Nibbles) (c : Cell) : UInt8 :=
  have := byte_lt c
  let byte : UInt8 := v[c.val / 2]
  if c.val % 2 = 0 then byte &&& 0xF else byte >>> 4

/-- The bits of a byte that a cell does not own, with the cell's bits beside them. -/
def join (c : Cell) (byte value : UInt8) : UInt8 :=
  if c.val % 2 = 0 then (byte &&& (0xF0 : UInt8)) ||| (value &&& (0xF : UInt8))
  else (byte &&& (0xF : UInt8)) ||| (value <<< (4 : UInt8))

def set (v : Nibbles) (c : Cell) (value : UInt8) : Nibbles :=
  have h := byte_lt c
  Vector.set v (c.val / 2) (join c v[c.val / 2] value) h

end Nibbles

/-- The blocks of a layer by old number and data. -/
structure Legacy where
  registry : RegistryId
  blocks : Vector UInt8 volume
  data : Nibbles
  high : Option Nibbles

namespace Legacy

def idLimit : Nat := 4096

def fresh (registry : RegistryId) : Legacy :=
  ⟨registry, Vector.replicate _ 0, Vector.replicate _ 0, none⟩

/-- Whether numbers above 255 have been stored. -/
def hasHigh (s : Legacy) : Bool := s.high.isSome

def sized (what : String) (n : Nat) (bytes : Array UInt8) : Except BlockError (Vector UInt8 n) :=
  if h : bytes.size = n then .ok ⟨bytes, h⟩
  else .error (.invalidValue (.storage (.byteCount what n bytes.size)))

def ofArrays (registry : RegistryId) (blocks data : Array UInt8) (high : Option (Array UInt8)) :
    Except BlockError Legacy := do
  let blocks ← sized "block ids" volume blocks
  let data ← sized "meta" halfVolume data
  match high with
  | none => return ⟨registry, blocks, data, none⟩
  | some high =>
    let high ← sized "extension nibbles" halfVolume high
    return ⟨registry, blocks, data, some high⟩

def idAt (s : Legacy) (c : Cell) : UInt16 :=
  let high : UInt16 := match s.high with
    | some v => (Nibbles.get v c).toUInt16
    | none => 0
  high <<< 8 ||| (s.blocks[c]).toUInt16

def dataAt (s : Legacy) (c : Cell) : UInt8 := Nibbles.get s.data c

def pairAt (s : Legacy) (c : Cell) : LegacyPair := ⟨s.idAt c, s.dataAt c⟩

/-- The block number of a cell above its data, in one word. -/
def combinedAt (s : Legacy) (c : Cell) : UInt16 := s.idAt c <<< 4 ||| (s.dataAt c).toUInt16

def combined (s : Legacy) : List UInt32 := Cell.all.map fun c => (s.combinedAt c).toUInt32

def putId (s : Legacy) (c : Cell) (id : UInt16) : Legacy :=
  let upper := (id >>> 8).toUInt8
  { s with
    blocks := s.blocks.set c id.toUInt8
    -- high bits that were made stay, even when all of them are zero again
    high := match s.high with
      | some v => some (Nibbles.set v c upper)
      | none => if upper = 0 then none else some (Nibbles.set (Vector.replicate _ 0) c upper) }

def putData (s : Legacy) (c : Cell) (data : UInt8) : Legacy :=
  { s with data := Nibbles.set s.data c data }

def checkData (data : UInt8) : Except BlockError Unit :=
  if data < 16 then .ok () else .error (.invalidValue (.storage (.legacyData data)))

def checkId (id : UInt16) : Except BlockError Unit :=
  if id.toNat < idLimit then .ok ()
  else .error (.invalidValue (.storage (.legacyId id idLimit)))

def setId (s : Legacy) (p : Position) (id : UInt16) : Report Legacy := do
  checkId id
  let c ← p.cell
  let t := s.putId c id
  if t.hasHigh && !s.hasHigh then Report.event (.acquired halfVolume)
  return t

def setData (s : Legacy) (p : Position) (data : UInt8) : Report Legacy := do
  checkData data
  let c ← p.cell
  return s.putData c data

def setPair (s : Legacy) (p : Position) (pair : LegacyPair) : Report Legacy := do
  -- refused data must not leave a new block number behind
  checkData pair.data
  let t ← s.setId p pair.id
  let c ← p.cell
  return t.putData c pair.data

def read (r : Registry) (s : Legacy) (c : Cell) : Except BlockError StateId :=
  r.index.legacyRuntimeId (s.pairAt c)

/-- Writes a state of the registry, which has to have an old number and data. -/
def write (r : Registry) (s : Legacy) (p : Position) (id : StateId) : Report Legacy := do
  let state ← r.index.state id
  match state.legacy with
  | some pair => s.setPair p pair
  | none => Report.fail (.error (.invalidValue (.storage (.noLegacyPair state.text))))

end Legacy
end Voxel
