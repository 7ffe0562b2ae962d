import Voxel.Registry.Basic
import Voxel.Report
import Voxel.Storage.Packed
import Voxel.Storage.Palette
/-!
Flat storage of a section layer. Entries index a palette of the states in use, which starts with
air alone at four bits. A state that finds the palette full widens it by a bit; past twelve bits
the entries become the states' numbers themselves, and widen as the numbers need.
-/
namespace Voxel

inductive Encoding
  | paletted (palette : Palette)
  | direct
  deriving Inhabited

/-- The states of a layer in the numbering of one registry. -/
structure Flat where
  registry : RegistryId
  cells : Packed
  encoding : Encoding

namespace Flat

def minBits : Nat := 4

def maxPaletteBits : Nat := 12

/-- The least width of entries that are numbers. -/
def minDirectBits : Nat := 13

/-- The width past which no storage grows. -/
abbrev maxBits : Nat := 32

def fresh (r : Registry) : Flat :=
  ⟨r.id, .zero minBits (by decide) (by decide), .paletted (.singleton r.air.runtimeId minBits)⟩

def bits (s : Flat) : Nat := s.cells.bits

def isDirect (s : Flat) : Bool :=
  match s.encoding with
  | .paletted _ => false
  | .direct => true

def paletteSize? (s : Flat) : Option Nat :=
  match s.encoding with
  | .paletted p => some p.size
  | .direct => none

def decode (s : Flat) (entry : Nat) : Except BlockError StateId :=
  match s.encoding with
  | .direct => .ok (UInt32.ofNat entry)
  | .paletted p =>
    match p.state? entry with
    | some id => .ok id
    | none => .error (.invalidValue (.storage (.paletteIndex entry p.size)))

def read (s : Flat) (c : Cell) : Except BlockError StateId := s.decode (s.cells.get c)

def nonAir (s : Flat) (r : Registry) : Nat :=
  let air := r.air.runtimeId
  match s.encoding with
  | .direct => (s.cells.toList.filter (· ≠ air.toNat)).length
  | .paletted p =>
    match p.indexOf? air with
    | some index => (s.cells.toList.filter (· ≠ index)).length
    -- a palette without air has no cell of air
    | none => volume

/-- The storage with a cell's state replaced, if there is room for the state. -/
def put? (s : Flat) (c : Cell) (id : StateId) : Except Failure (Option Flat) :=
  match s.encoding with
  | .direct =>
    if id.toNat < Bits.capacity s.bits then do
      return some { s with cells := ← s.cells.put c id.toNat }
    else .ok none
  | .paletted p =>
    match p.insert id with
    | .present index => do return some { s with cells := ← s.cells.put c index }
    | .inserted index p => do
      return some { s with cells := ← s.cells.put c index, encoding := .paletted p }
    | .full => .ok none

/-- The width at which numbers of the registry and an incoming one fit. -/
def directBits (r : Registry) (incoming : StateId) : Nat :=
  let highest := max r.index.maxRuntimeId incoming
  max minDirectBits (Bits.forCount (highest.toUInt64 + 1))

/-- A wider storage, with the message that tells of it. -/
structure Growth (s : Flat) where
  storage : Flat
  message : String
  wider : s.bits < storage.bits

def widen (s : Flat) (bits : Nat) (wider : s.bits < bits) (le : bits ≤ maxBits) (f : Nat → Nat)
    (encoding : Encoding) (message : String) : Except Failure (Growth s) :=
  match moved : s.cells.remap bits (Nat.zero_lt_of_lt wider) le f with
  | .ok cells =>
    .ok ⟨⟨s.registry, cells, encoding⟩, message, by
      show s.bits < cells.bits
      rw [Packed.bits_remap moved]
      exact wider⟩
  | .error e => .error e

/-- Makes room for an incoming state: one more bit for the palette, or else numbers. -/
def grow (r : Registry) (s : Flat) (incoming : StateId) : Except Failure (Growth s) :=
  match s.encoding with
  | .paletted p =>
    if narrow : s.bits < maxPaletteBits then do
      let q ← p.rebuilt (s.bits + 1)
      -- the states keep their indices, so that every entry comes out as it was
      let moved entry := ((p.state? entry).bind q.indexOf?).getD 0
      have le : s.bits + 1 ≤ 32 := Nat.le_trans narrow (by decide)
      s.widen (s.bits + 1) (Nat.lt_succ_self _) le moved (.paletted q)
        s!"Grew palette from {s.bits} to {s.bits + 1} bits per block ({q.size} states)"
    else
      let bits := directBits r incoming
      if wide : bits ≤ maxBits ∧ s.bits < bits then
        let number entry := ((p.state? entry).getD r.air.runtimeId).toNat
        s.widen bits wide.2 wide.1 number .direct
          s!"Switched from a {s.bits}-bit palette to {bits}-bit runtime ids"
      else .error (.error (.capacityExceeded s.bits))
  | .direct =>
    -- the registry may have grown since the width was chosen
    let bits := max (directBits r incoming) (s.bits + 1)
    have wider : s.bits < bits := Nat.lt_of_lt_of_le (Nat.lt_succ_self _) (Nat.le_max_right _ _)
    if wide : bits ≤ maxBits then
      s.widen bits wider wide id .direct s!"Widened runtime ids from {s.bits} to {bits} bits"
    else .error (.error (.capacityExceeded s.bits))

/-- Puts a state into a cell, growing until there is room for it. -/
def store (r : Registry) (s : Flat) (c : Cell) (id : StateId) : Report Flat :=
  match s.put? c id with
  | .error e => Report.fail e
  | .ok (some t) => pure t
  | .ok none =>
    match grow r s id with
    | .error e => Report.fail e
    | .ok g => do
      -- both arrays are held while the entries move
      Report.event (.acquired g.storage.cells.words.size)
      Report.log .debug g.message
      Report.event (.released s.cells.words.size)
      store r g.storage c id
termination_by maxBits - s.bits
decreasing_by
  have h₁ := g.wider
  have h₂ : g.storage.bits ≤ maxBits := g.storage.cells.bits_le
  omega

def write (r : Registry) (s : Flat) (c : Cell) (id : StateId) : Report Flat :=
  if r.index.hasRuntimeId id then store r s c id
  else Report.fail (.error (.unknownRuntimeId id))

def clone (s : Flat) : Except Failure Flat :=
  match s.encoding with
  | .paletted p => do return { s with encoding := .paletted (← p.rebuilt p.bits) }
  | .direct => .ok s

end Flat
end Voxel
