import Voxel.Property.Lemmas
import Voxel.Radix
/-!
Block kinds and their states. A kind owns its whole state space, in mixed-radix order over the
sizes of its properties with the first property most significant. A state is a kind with an
offset into that space; its value for a property is a digit of the offset. The offsets with other
digits are in a table that the kind owns too.
-/
namespace Voxel

/-- The number of a state within its registry. -/
abbrev StateId := UInt32

abbrev RegistryId := Nat

/-- An old block number with its four bits of data. -/
structure LegacyPair where
  id : UInt16
  data : UInt8
  deriving DecidableEq, Hashable, Inhabited, Repr

/-- What a registry says of one state. -/
structure StateEntry where
  runtimeId : StateId
  legacy : Option LegacyPair
  deriving DecidableEq, Inhabited, Repr

/-- A kind of block with all of its states. -/
structure BlockKind where
  registry : RegistryId
  name : Name
  legacyId : Option UInt16
  properties : List Property
  entries : Array StateEntry
  default : Nat
  moves : Array Nat
  size_entries : entries.size = Radix.total (properties.map Property.size)
  default_lt : default < entries.size
  moves_eq : moves = Radix.moves (properties.map Property.size)

/-- One point in a kind's state space. -/
structure BlockState where
  kind : BlockKind
  offset : Nat
  offset_lt : offset < kind.entries.size

namespace BlockKind

def sizes (k : BlockKind) : List Nat := k.properties.map Property.size

def stateCount (k : BlockKind) : Nat := k.entries.size

def place? (k : BlockKind) (name : String) : Option (Fin k.properties.length) :=
  k.properties.findFinIdx? (·.name = name)

def property? (k : BlockKind) (name : String) : Option Property :=
  k.properties.find? (·.name = name)

def place (k : BlockKind) (name : String) : Except BlockError (Fin k.properties.length) :=
  match k.place? name with
  | some i => .ok i
  | none => .error (.invalidValue (.property (.noSuchProperty k.name name)))

def stateAt? (k : BlockKind) (offset : Nat) : Option BlockState :=
  if h : offset < k.entries.size then some ⟨k, offset, h⟩ else none

def defaultState (k : BlockKind) : BlockState := ⟨k, k.default, k.default_lt⟩

def states (k : BlockKind) : List BlockState :=
  List.ofFn fun i : Fin k.entries.size => ⟨k, i.1, i.2⟩

def base (k : BlockKind) : StateId :=
  have : 0 < k.entries.size := Nat.lt_of_le_of_lt (Nat.zero_le _) k.default_lt
  k.entries[0].runtimeId

end BlockKind

namespace BlockState

def entry (s : BlockState) : StateEntry :=
  have := s.offset_lt
  s.kind.entries[s.offset]

def runtimeId (s : BlockState) : StateId := s.entry.runtimeId

def legacy (s : BlockState) : Option LegacyPair := s.entry.legacy

def name (s : BlockState) : Name := s.kind.name

def registry (s : BlockState) : RegistryId := s.kind.registry

def isDefault (s : BlockState) : Bool := s.offset = s.kind.default

/-- States are equal if they have one number in one registry. -/
def same (s t : BlockState) : Bool := s.runtimeId = t.runtimeId && s.registry = t.registry

def indexAt (s : BlockState) (place : Nat) : Nat := Radix.digit s.kind.sizes s.offset place

def indices (s : BlockState) : List Nat := Radix.digits s.kind.sizes s.offset

section

variable (s : BlockState) (place : Fin s.kind.properties.length) (index : Nat)
  (h : index < (s.kind.properties.get place).size)
include h

theorem getElem?_moves : s.kind.moves[Radix.slot s.kind.sizes s.offset place index]? =
    some (Radix.set s.kind.sizes s.offset place index) := by
  rw [s.kind.moves_eq]
  refine Radix.getElem?_moves (s.kind.size_entries ▸ s.offset_lt) (by simp) ?_
  simpa using h

theorem set_lt : Radix.set s.kind.sizes s.offset place index < s.kind.entries.size := by
  rw [s.kind.size_entries]
  refine Radix.set_lt (s.kind.size_entries ▸ s.offset_lt) (by simp [BlockKind.sizes]) ?_
  simpa [BlockKind.sizes] using h

/-- The state with another value for one property, found in the table of its kind. -/
def moved : BlockState :=
  have found := Array.getElem?_eq_some_iff.mp (s.getElem?_moves place index h)
  have inside := found.elim fun inside _ => inside
  ⟨s.kind, s.kind.moves[Radix.slot s.kind.sizes s.offset place index],
    found.elim fun _ same => same ▸ s.set_lt place index h⟩

theorem offset_moved :
    (s.moved place index h).offset = Radix.set s.kind.sizes s.offset place index :=
  (Array.getElem?_eq_some_iff.mp (s.getElem?_moves place index h)).elim fun _ same => same

end

def index (s : BlockState) (name : String) : Except BlockError Nat := do
  let place ← s.kind.place name
  return s.indexAt place

def withIndex (s : BlockState) (name : String) (index : Nat) : Except BlockError BlockState := do
  let place ← s.kind.place name
  let p := s.kind.properties.get place
  if h : index < p.size then return s.moved place index h
  else .error (.invalidValue (.property (.indexOutOfBounds name index p.size)))

def withText (s : BlockState) (name text : String) : Except BlockError BlockState := do
  let place ← s.kind.place name
  match h : (s.kind.properties.get place).decodeIndex text with
  | .ok index => return s.moved place index (Property.decodeIndex_lt h)
  | .error e => .error e

/-- The place of the property with the name of a given one, which has to be of its sort. -/
def placeOf (s : BlockState) (p : Property) : Except BlockError (Fin s.kind.properties.length) := do
  let place ← s.kind.place p.name
  if (s.kind.properties.get place).sort = p.sort then return place
  else .error (.invalidValue (.property (.otherSort p.name s.kind.name)))

def value (s : BlockState) (p : Property) : Except BlockError Value := do
  let place ← s.placeOf p
  match (s.kind.properties.get place).valueAt? (s.indexAt place) with
  | some v => return v
  | none => .error (.invalidValue (.property (.otherSort p.name s.kind.name)))

def withValue (s : BlockState) (p : Property) (v : Value) : Except BlockError BlockState := do
  let place ← s.placeOf p
  match h : (s.kind.properties.get place).indexOf v with
  | .ok index => return s.moved place index (Property.indexOf_lt h)
  | .error e => .error e

def encoded (s : BlockState) : List (String × String) :=
  (s.kind.properties.zip s.indices).map fun (p, i) => (p.name, (p.encodeIndex? i).getD "")

def text (s : BlockState) : String :=
  match s.encoded with
  | [] => s.name.text
  | es => s.name.text ++ "[" ++ ",".intercalate (es.map fun (k, v) => k ++ "=" ++ v) ++ "]"

end BlockState

/-- The state with the given texts as values and defaults for the rest. -/
def BlockKind.stateOfTexts (k : BlockKind) (texts : List (String × String)) :
    Except BlockError BlockState :=
  texts.foldlM (fun s (name, text) => s.withText name text) k.defaultState

end Voxel
