import Voxel.Name
import Voxel.Text.Decimal
/-!
What can be wrong with a declaration: a property, a block kind, a version description or a fluid
table that is malformed, and names or numbers that are taken already.
-/
namespace Voxel

/-- A name or number that is registered already. -/
inductive Clash
  | kind (name : Name)
  | property (property : String) (kind : Name)
  | legacyId (id : UInt16) (kind : Name)
  | runtimeId (id : UInt32) (state : String)
  | legacyState (id : UInt16) (data : UInt8) (state : String)
  | stated (text : String)
  deriving DecidableEq, Inhabited, Repr

def Clash.subject : Clash → String
  | .kind name => name.text
  | .property p k => s!"Trait {p} of {k.text}"
  | .legacyId id k => s!"Legacy id {id} of {k.text}"
  | .runtimeId id state => s!"Runtime id {id} of {state}"
  | .legacyState id data state => s!"Legacy state {id}:{data} of {state}"
  | .stated text => text

def Clash.message (c : Clash) : String := s!"{c.subject} is already registered"

inductive PropertyDefect
  | emptyRange (property : String) (min max : Int32)
  | defaultOutOfRange (property : String) (default min max : Int32)
  | noValues (property : String)
  | repeatedValue (property value : String)
  | foreignDefault (property default : String)
  deriving DecidableEq, Inhabited, Repr

def PropertyDefect.message : PropertyDefect → String
  | emptyRange property min max =>
    s!"Integer trait {property} needs min < max, got [{Text.int32 min}, {Text.int32 max}]"
  | defaultOutOfRange property default min max =>
    s!"Default value {Text.int32 default} of integer trait {property} is outside of [{Text.int32 min}, {Text.int32 max}]"
  | noValues property => s!"Enumeration trait {property} has no values"
  | repeatedValue property value => s!"Enumeration trait {property} contains {value} twice"
  | foreignDefault property default =>
    s!"Default value {default} is not a value of enumeration trait {property}"

inductive KindDefect
  | tooManyProperties (kind : Name) (count limit : Nat)
  | unsupportedSize (kind : Name) (property : String)
  | tooManyStates (kind : Name)
  | defaultOutOfBounds (kind : Name) (offset : Nat)
  | idsExhausted
  deriving DecidableEq, Inhabited, Repr

def KindDefect.message : KindDefect → String
  | tooManyProperties kind count limit =>
    s!"{kind.text} declares {count} traits, at most {limit} are supported"
  | unsupportedSize kind property =>
    s!"Trait {property} of {kind.text} has an unsupported number of values"
  | tooManyStates kind => s!"{kind.text} has too many states"
  | defaultOutOfBounds kind offset => s!"Default state {offset} of {kind.text} is out of bounds"
  | idsExhausted => "Global runtime ids exhausted"

inductive FluidDefect
  | noFluid (filled : UInt32)
  | splitTwice (filled : UInt32) (first second : UInt32 × UInt32)
  | combinedTwice (drained fluid first second : UInt32)
  deriving DecidableEq, Inhabited, Repr

def FluidDefect.pair (p : UInt32 × UInt32) : String := s!"({p.1}, {p.2})"

def FluidDefect.message : FluidDefect → String
  | noFluid filled => s!"State {filled} cannot contain fluid 0"
  | splitTwice filled first second =>
    s!"State {filled} splits into both {pair first} and {pair second}"
  | combinedTwice drained fluid first second =>
    s!"State {drained} with fluid {fluid} combines into both {first} and {second}"

inductive DocumentDefect
  | malformed
  | repeatedProperty (property : String)
  | badName (text : String)
  deriving DecidableEq, Inhabited, Repr

def badNameMessage (text : String) : String :=
  s!"Expected two non-empty strings separated by a colon, found \"{text}\""

/-- The part of the wording that says more than that the document is malformed. -/
def DocumentDefect.detail? : DocumentDefect → Option String
  | malformed => none
  | repeatedProperty property => some s!"trait {property} is declared more than once"
  | badName text => some (badNameMessage text)

inductive VersionDefect
  | document (defect : DocumentDefect)
  | clash (version : String) (clash : Clash)
  | noAir (version : String)
  | noValues (kind : Name) (property : String)
  | noLegacyId (kind : Name)
  | legacyIdOutOfRange (kind : Name) (id : UInt16)
  | stateCount (kind : Name) (declared expected : Nat)
  | runtimeIdOutOfRange (kind : Name) (id : UInt32)
  | valueCount (kind : Name) (id : UInt32)
  | unknownProperty (kind : Name) (id : UInt32) (property : String)
  | undecodable (kind : Name) (id : UInt32) (reason : String)
  | repeatedValues (kind : Name) (id : UInt32)
  | repeatedRuntimeId (kind : Name) (id : UInt32)
  | dataOutOfRange (kind : Name) (id : UInt32) (data : UInt8)
  | repeatedData (kind : Name) (data : UInt8)
  | severalDefaults (kind : Name)
  | noDefault (kind : Name)
  | missingState (kind : Name) (offset : Nat)
  | undeclaredLiquid (kind : Name)
  | noFluidFor (property : String)
  | undeclaredFluid (fluid : Name)
  | notBoolean (kind : Name) (property : String)
  deriving DecidableEq, Inhabited, Repr

def VersionDefect.message : VersionDefect → String
  | document defect =>
    match defect.detail? with
    | none => "Invalid version description"
    | some detail => s!"Invalid version description: {detail}"
  | clash version taken => s!"Version {version}: {taken.message}"
  | noAir version => s!"Version {version} does not declare {Name.air.text}"
  | noValues kind property => s!"Trait {property} of {kind.text} has no values"
  | noLegacyId kind => s!"{kind.text} has no legacy id"
  | legacyIdOutOfRange kind id => s!"Legacy id {id} of {kind.text} is out of range"
  | stateCount kind declared expected =>
    s!"{kind.text} declares {declared} states but its traits produce {expected}"
  | runtimeIdOutOfRange kind id => s!"Runtime id {id} of {kind.text} is out of range"
  | valueCount kind id => s!"State {id} of {kind.text} does not give exactly one value per trait"
  | unknownProperty kind id property => s!"State {id} of {kind.text} names unknown trait {property}"
  | undecodable kind id reason => s!"State {id} of {kind.text}: {reason}"
  | repeatedValues kind id => s!"{kind.text} declares the values of state {id} more than once"
  | repeatedRuntimeId kind id => s!"{kind.text} declares runtime id {id} more than once"
  | dataOutOfRange kind id data => s!"Meta {data} of state {id} of {kind.text} is out of range"
  | repeatedData kind data => s!"{kind.text} declares meta {data} more than once"
  | severalDefaults kind => s!"{kind.text} has more than one default state"
  | noDefault kind => s!"{kind.text} has no default state"
  | missingState kind offset => s!"{kind.text} is missing state {offset}"
  | undeclaredLiquid kind => s!"Liquid block {kind.text} is not declared"
  | noFluidFor property => s!"Waterlogging trait {property} is declared without a fluid"
  | undeclaredFluid fluid => s!"Fluid {fluid.text} is not declared"
  | notBoolean kind property => s!"Waterlogging trait {property} of {kind.text} is not a boolean"

/-- Why something cannot be built. -/
inductive Defect
  | property (defect : PropertyDefect)
  | kind (defect : KindDefect)
  | version (defect : VersionDefect)
  | fluid (defect : FluidDefect)
  | stated (text : String)
  deriving DecidableEq, Inhabited, Repr

def Defect.message : Defect → String
  | property defect => defect.message
  | kind defect => defect.message
  | version defect => defect.message
  | fluid defect => defect.message
  | stated text => text

end Voxel
