import Std.Data.HashSet
import Voxel.Block.Declaration
import Voxel.Version.Description
/-!
Block kinds from their descriptions. The narrowest domain that holds the declared texts becomes a
property's domain. The states may be declared in any order; each has to give one value for every
property, and together they have to give every combination once.
-/
namespace Voxel.Version

def legacyIdLimit : UInt16 := 4096

def runtimeIdLimit : StateId := 1048576

def refuse (d : VersionDefect) : Except BlockError α := .error (.construction (.version d))

def contiguous : List Int32 → Bool
  | a :: b :: rest => a.toInt + 1 = b.toInt && contiguous (b :: rest)
  | _ => true

/-- The least and the greatest of texts that are the numerals of a range, in any order. -/
def rangeOf? (values : List String) : Option (Int32 × Int32) := do
  let numbers ← values.mapM Text.readInt32?
  let sorted := numbers.mergeSort
  if sorted.length > 1 && contiguous sorted then
    return (← sorted.head?, ← sorted.getLast?)
  else none

/-- The property that takes the declared texts as its values. -/
def inferProperty (kind : Name) (name : String) (values : List String) :
    Except BlockError Property :=
  if values.isEmpty then refuse (.noValues kind name)
  else if values.length = 2 ∧ "true" ∈ values ∧ "false" ∈ values then .ok (.bool name false)
  else
    match rangeOf? values with
    | some (min, max) => Property.int name min max min
    | none => Property.choice .text name values none

/-- What the states of a block that were gone through make up so far. -/
structure Draft where
  slots : Array (Option (StateId × Option UInt8))
  ids : Std.HashSet StateId
  data : Std.HashSet UInt8
  default : Option Nat

def offsetOf (kind : Name) (properties : List Property) (s : StateDescription) :
    Except BlockError Nat :=
  let sizes := properties.map Property.size
  s.values.entries.foldlM (fun offset (name, text) => do
    match properties.findFinIdx? (·.name = name) with
    | none => refuse (.unknownProperty kind s.id name)
    | some place =>
      match (properties.get place).decodeIndex text with
      | .ok index => return offset + Radix.weight sizes place * index
      | .error e => refuse (.undecodable kind s.id e.message)) 0

/-- The data of a state: as given, or else the distance from the lowest number if that fits. -/
def dataOf (kind : Name) (lowest : StateId) (s : StateDescription) :
    Except BlockError (Option UInt8) :=
  match s.data with
  | some m =>
    if m < 16 then .ok (some m) else refuse (.dataOutOfRange kind s.id m)
  | none =>
    let distance := s.id.toNat - lowest.toNat
    .ok (if distance < 16 then some (UInt8.ofNat distance) else none)

def Draft.checkData (kind : Name) (x : Draft) : Option UInt8 → Except BlockError Unit
  | some m => if x.data.contains m then refuse (.repeatedData kind m) else .ok ()
  | none => .ok ()

def Draft.put (x : Draft) (s : StateDescription) (offset : Nat) (data : Option UInt8) :
    Except Failure Draft := do
  return {
    slots := ← setItem x.slots offset (some (s.id, data))
    ids := x.ids.insert s.id
    data := match data with
      | some m => x.data.insert m
      | none => x.data
    default := if s.isDefault then some offset else x.default }

def Draft.add (kind : Name) (properties : List Property) (lowest : StateId) (x : Draft)
    (s : StateDescription) : Except Failure Draft := do
  if runtimeIdLimit ≤ s.id then refuse (.runtimeIdOutOfRange kind s.id)
  if s.values.size ≠ properties.length then refuse (.valueCount kind s.id)
  -- as many values as properties, all of known names, leave no property out
  let offset ← offsetOf kind properties s
  let some slot := x.slots[offset]? | .error .fault
  if slot.isSome then refuse (.repeatedValues kind s.id)
  if x.ids.contains s.id then refuse (.repeatedRuntimeId kind s.id)
  let data ← dataOf kind lowest s
  x.checkData kind data
  if s.isDefault && x.default.isSome then refuse (.severalDefaults kind)
  x.put s offset data

def lowestId (states : List StateDescription) : StateId :=
  match states with
  | [] => 0
  | s :: rest => rest.foldl (fun m t => if t.id < m then t.id else m) s.id

/-- A declaration with the place of every state, from the description of a block. -/
def declare (name : Name) (b : BlockDescription) :
    Except Failure (Declaration × Array (Option (StateId × Option UInt8))) := do
  let some legacyId := b.legacyId | refuse (.noLegacyId name)
  if legacyIdLimit ≤ legacyId then refuse (.legacyIdOutOfRange name legacyId)
  let properties ← b.properties.entries.mapM fun (p, values) => inferProperty name p values
  let declaration : Declaration := ⟨name, properties, some legacyId, none⟩
  let sizes ← declaration.sizes
  let count := Radix.total sizes
  -- a count past a machine word is refused whatever the list of states holds
  if UInt64.size ≤ count then .error (.error (.construction (.kind (.tooManyStates name))))
  if b.states.length ≠ count then refuse (.stateCount name b.states.length count)
  let start : Draft := ⟨Array.replicate count none, ∅, ∅, none⟩
  let x ← b.states.foldlM (Draft.add name properties (lowestId b.states)) start
  let some default := x.default | refuse (.noDefault name)
  return ({ declaration with default := some default }, x.slots)

/-- The kind of a block, with each state at its slot. -/
def buildKind (registry : RegistryId) (name : Name) (b : BlockDescription) : Report BlockKind := do
  let (declaration, slots) ← declare name b
  declaration.build registry fun offset =>
    match slots[offset]? with
    | some (some found) => .ok found
    | some none => refuse (.missingState name offset)
    | none => .error .fault

end Voxel.Version
