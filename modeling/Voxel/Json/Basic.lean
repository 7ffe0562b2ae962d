/-!
JSON documents as trees that keep what a reader meets in order. An object keeps repeated keys. A
document that is not well formed still has a tree: it ends where the text goes wrong, with a
broken value or a list that is never closed, so that a reader which goes through the tree in
order meets the first fault where it stands in the text.
-/
namespace Voxel

/-- A numeral: a whole number, or any other number, minus zero among them. -/
inductive Json.Number
  | whole (value : Int)
  | other
  deriving DecidableEq, Inhabited, Repr

/-- A value with its parts in order. A text is absent if its escapes hold half a character. -/
inductive Json
  | null
  | bool (value : Bool)
  | number (value : Json.Number)
  | string (text : Option String)
  | array (items : List Json) (closed : Bool)
  | object (fields : List (Option String × Json)) (closed : Bool)
  | broken
  deriving Inhabited, Repr

namespace Json

def text (s : String) : Json := .string (some s)

def nat (n : Nat) : Json := .number (.whole n)

def list (items : List Json) : Json := .array items true

def record (fields : List (String × Json)) : Json :=
  .object (fields.map fun (k, v) => (some k, v)) true

mutual

def isIntact : Json → Bool
  | .array items closed => closed && itemsIntact items
  | .object fields closed => closed && fieldsIntact fields
  | .broken => false
  | _ => true

def itemsIntact : List Json → Bool
  | [] => true
  | j :: rest => j.isIntact && itemsIntact rest

def fieldsIntact : List (Option String × Json) → Bool
  | [] => true
  | (_, j) :: rest => j.isIntact && fieldsIntact rest

end

/-- A document: its value, and whether the text ends there but for blanks. -/
structure Document where
  root : Json
  ended : Bool
  deriving Inhabited, Repr

end Json
end Voxel
