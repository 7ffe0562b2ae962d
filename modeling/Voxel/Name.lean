/-!
Names of block kinds: a namespace and a path, written with a colon between them. A text without a
colon is a path in the default namespace. Reading fails only on texts whose namespace or path
would be empty.
-/
namespace Voxel

/-- The name of a block kind, such as `minecraft:stone`. -/
structure Name where
  space : String
  path : String
  deriving DecidableEq, Hashable, Inhabited, Repr

namespace Name

def defaultSpace : String := "minecraft"

def standard (path : String) : Name := ⟨defaultSpace, path⟩

def air : Name := standard "air"

def text (n : Name) : String := n.space ++ ":" ++ n.path

def splitColon : List Char → Option (List Char × List Char)
  | [] => none
  | c :: rest =>
    if c = ':' then some ([], rest) else (splitColon rest).map fun (a, b) => (c :: a, b)

/-- Reads a name; there is none in a text with an empty namespace or path. -/
def ofText? (s : String) : Option Name :=
  match splitColon s.toList with
  | none => if s.isEmpty then none else some (standard s)
  | some (space, path) =>
    if space.isEmpty || path.isEmpty then none
    else some ⟨String.ofList space, String.ofList path⟩

def le (a b : Name) : Bool :=
  match compare a.space b.space with
  | .lt => true
  | .eq => a.path ≤ b.path
  | .gt => false

def sorted (names : List Name) : List Name :=
  (names.mergeSort le).foldr
    (fun n rest => if rest.head? = some n then rest else n :: rest) []

end Name
end Voxel
