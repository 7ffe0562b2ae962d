import Voxel.Error.Defect
/-!
What can be wrong with a value that a caller hands in: a text or index outside of a property's
domain, arrays of the wrong length, a state of another registry, a version without description.
-/
namespace Voxel

inductive PropertyMisuse
  | notBoolean (property text : String)
  | notInteger (property text : String)
  | outOfRange (property : String) (value min max : Int32)
  | notAValue (property value : String)
  | undecodable (property text : String)
  | noSuchProperty (kind : Name) (property : String)
  | indexOutOfBounds (property : String) (index size : Nat)
  | otherSort (property : String) (kind : Name)
  deriving DecidableEq, Inhabited, Repr

def PropertyMisuse.message : PropertyMisuse → String
  | notBoolean property text => s!"\"{text}\" is not a boolean value for trait {property}"
  | notInteger property text => s!"\"{text}\" is not an integer value for trait {property}"
  | outOfRange property value min max =>
    s!"{Text.int32 value} is outside of [{Text.int32 min}, {Text.int32 max}] for trait {property}"
  | notAValue property value => s!"{value} is not a value of trait {property}"
  | undecodable property text => s!"\"{text}\" is not a value of trait {property}"
  | noSuchProperty kind property => s!"{kind.text} has no trait named {property}"
  | indexOutOfBounds property index size =>
    s!"Value index {index} is out of bounds for trait {property} with {size} values"
  | otherSort property kind => s!"Trait {property} of {kind.text} is not of the requested type"

inductive StorageMisuse
  | otherRegistry (state : String) (found expected : Nat)
  | otherSectionRegistry (state : String)
  | wordCount (expected bits found : Nat)
  | paletteSize (limit found : Nat)
  | paletteIndex (index size : Nat)
  | brokenWords (bytes : Nat)
  | byteCount (what : String) (expected found : Nat)
  | legacyId (id : UInt16) (limit : Nat)
  | legacyData (data : UInt8)
  | noLegacyPair (state : String)
  | layer (found : Nat)
  | alreadyGlobal
  deriving DecidableEq, Inhabited, Repr

def registryText (registry : Nat) : String := s!"registry#{registry}"

def StorageMisuse.message : StorageMisuse → String
  | otherRegistry state found expected =>
    s!"{state} belongs to {registryText found}, not to {registryText expected}"
  | otherSectionRegistry state => s!"{state} does not belong to this section's registry"
  | wordCount expected bits found =>
    s!"Expected {expected} words for {bits} bits per entry, got {found}"
  | paletteSize limit found => s!"Palettes hold between 1 and {limit} entries, got {found}"
  | paletteIndex index size => s!"Index {index} is outside of a palette with {size} entries"
  | brokenWords bytes => s!"Packed data of {bytes} bytes is not made of whole words"
  | byteCount what expected found => s!"Expected {expected} bytes of {what}, got {found}"
  | legacyId id limit => s!"Legacy id {id} is outside of [0, {limit})"
  | legacyData data => s!"Meta {data} is outside of [0, 16)"
  | noLegacyPair state => s!"{state} has no legacy id and meta"
  | layer found => s!"Sections have layers 0 and 1, got {found}"
  | alreadyGlobal => "Storage already uses the global registry"

/-- Why a value is refused. -/
inductive Misuse
  | badName (text : String)
  | property (misuse : PropertyMisuse)
  | storage (misuse : StorageMisuse)
  | fluid (block added : UInt32)
  | aliasCycle (version : String)
  | noDescription (version : String)
  | stated (text : String)
  deriving DecidableEq, Inhabited, Repr

def Misuse.message : Misuse → String
  | badName text => badNameMessage text
  | property misuse => misuse.message
  | storage misuse => misuse.message
  | fluid block added => s!"State {block} cannot contain fluid {added}"
  | aliasCycle version => s!"Version aliases of {version} form a cycle"
  | noDescription version => s!"No block registry description for version {version}"
  | stated text => text

end Voxel
