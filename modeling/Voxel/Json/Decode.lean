import Voxel.Json.Basic
import Voxel.OrderedMap
import Voxel.Error.Defect
/-!
Typed reading of JSON trees. A reader goes through its value in the order of the text and ends at
the first defect, so of two defects the earlier one is reported. A record may be written as an
object or as the list of its fields in order.
-/
namespace Voxel.Json

abbrev Read (α : Type) := Except DocumentDefect α

def asText : Json → Read String
  | .string (some s) => .ok s
  | _ => .error .malformed

def asName (j : Json) : Read Name := do
  let s ← asText j
  match Name.ofText? s with
  | some n => .ok n
  | none => .error (.badName s)

def asBool : Json → Read Bool
  | .bool b => .ok b
  | _ => .error .malformed

def asNatBelow (limit : Nat) : Json → Read Nat
  | .number (.whole n) => if 0 ≤ n ∧ n < limit then .ok n.toNat else .error .malformed
  | _ => .error .malformed

def asOption (read : Json → Read α) : Json → Read (Option α)
  | .null => .ok none
  | j => some <$> read j

def asList (read : Json → Read α) : Json → Read (List α)
  | .array items closed => do
    let values ← items.mapM read
    if closed then .ok values else .error .malformed
  | _ => .error .malformed

def foldFields (step : σ → String → Json → Read σ) (start : σ) : Json → Read σ
  | .object fields closed => do
    let result ← fields.foldlM (fun acc (k, j) =>
      match k with
      | some k => step acc k j
      | none => .error .malformed) start
    if closed then .ok result else .error .malformed
  | _ => .error .malformed

/-- Reads an object as a map. Of a repeated key the last value counts, at the first place. -/
def asMap [DecidableEq κ] (key : String → Read κ) (read : Json → Read α) :
    Json → Read (OrderedMap κ α) :=
  foldFields (fun m k j => do
    let k ← key k
    let v ← read j
    .ok (m.insert k v)) .empty

/-- Goes through the fields of a record, each at most once, and gives the numbers of those that
were there. Fields of other names only have to be well formed. -/
def foldRecord (names : List String) (step : σ → Nat → Json → Read σ) (start : σ) :
    Json → Read (σ × List Nat)
  | .object fields closed => do
    let result ← fields.foldlM (fun (acc, seen) (k, j) =>
      match k with
      | none => .error .malformed
      | some k =>
        let i := names.idxOf k
        if i < names.length then
          if i ∈ seen then .error .malformed
          else return (← step acc i j, i :: seen)
        else if j.isIntact then .ok (acc, seen)
        else .error .malformed) (start, [])
    if closed then .ok result else .error .malformed
  | .array items closed => do
    let (result, count) ← items.foldlM (fun (acc, i) j =>
      if i < names.length then return (← step acc i j, i + 1)
      else .error .malformed) (start, 0)
    if closed then .ok (result, List.range count) else .error .malformed
  | _ => .error .malformed

def isListed : Json → Bool
  | .array .. => true
  | _ => false

def Document.read (read : Json → Read α) (d : Document) : Read α := do
  let value ← read d.root
  if d.ended then .ok value else .error .malformed

end Voxel.Json
