import Voxel.Error.Defect
import Voxel.Error.Misuse
/-!
The errors of the library, with their wording, and the failures that end an operation: an error,
coordinates outside of a section, or a computation that leaves its range.
-/
namespace Voxel

/-- A failed access to a file, by what went wrong. -/
inductive FileError
  | notFound
  | notADirectory
  | nameTooLong
  | invalidName
  | invalidData
  | stated (text : String)
  deriving DecidableEq, Inhabited, Repr

def FileError.text : FileError → String
  | notFound => "NotFound"
  | notADirectory => "NotADirectory"
  | nameTooLong => "InvalidFilename"
  | invalidName => "InvalidInput"
  | invalidData => "InvalidData"
  | stated text => text

/-- Errors of building or asking block kinds, registries and storages. -/
inductive BlockError
  | construction (defect : Defect)
  | invalidValue (misuse : Misuse)
  | unknownName (name : Name)
  | unknownLegacyId (id : UInt16)
  | unknownLegacyState (id : UInt16) (data : UInt8)
  | unknownRuntimeId (id : UInt32)
  | duplicate (clash : Clash)
  | capacityExceeded (bits : Nat)
  | file (cause : FileError)
  deriving DecidableEq, Inhabited, Repr

namespace BlockError

/-- Whether the error comes from a value outside of its domain, failed look-ups included. -/
def isInvalidValue : BlockError → Bool
  | invalidValue _ | unknownName _ | unknownLegacyId _ | unknownLegacyState .. | unknownRuntimeId _ =>
    true
  | _ => false

def message : BlockError → String
  | construction defect => s!"Construction error: {defect.message}"
  | invalidValue misuse => s!"Invalid value: {misuse.message}"
  | unknownName name => s!"Unknown block identifier {name.text}"
  | unknownLegacyId id => s!"Unknown legacy block id {id}"
  | unknownLegacyState id data => s!"Unknown legacy block state {id}:{data}"
  | unknownRuntimeId id => s!"Unknown runtime id {id}"
  | duplicate clash => clash.message
  | capacityExceeded bits => s!"Palette cannot grow past {bits} bits per block"
  | file cause => cause.text

def cause? : BlockError → Option FileError
  | file cause => some cause
  | _ => none

end BlockError

inductive Failure
  | error (cause : BlockError)
  | outside (x y z : Nat)
  | fault
  deriving DecidableEq, Inhabited, Repr

def Failure.message : Failure → String
  | error cause => cause.message
  | outside x y z => s!"Cell coordinates ({x}, {y}, {z}) are outside of the section"
  | fault => ""

instance : Coe BlockError Failure := ⟨.error⟩

instance : MonadLift (Except BlockError) (Except Failure) := ⟨Except.mapError .error⟩

namespace Failure

@[simp] theorem lift_ok (a : α) :
    (liftM (Except.ok a : Except BlockError α) : Except Failure α) = .ok a := rfl

@[simp] theorem lift_error (e : BlockError) :
    (liftM (Except.error e : Except BlockError α) : Except Failure α) = .error (.error e) := rfl

theorem lift_eq_ok {x : Except BlockError α} {a : α} (h : (liftM x : Except Failure α) = .ok a) :
    x = .ok a := by
  cases x with
  | error e => cases h
  | ok b => rw [Except.ok.inj h]

end Failure

/-- The array with an item replaced; a place outside of it is a fault. -/
def setItem (items : Array α) (place : Nat) (item : α) : Except Failure (Array α) :=
  if h : place < items.size then .ok (items.set place item h) else .error .fault

def Name.read (s : String) : Except BlockError Name :=
  match Name.ofText? s with
  | some name => .ok name
  | none => .error (.invalidValue (.badName s))

end Voxel
