import Voxel.Version.Folder
import Voxel.Version.Registry
/-!
Catalogs of version registries. A version is looked up through aliases, and its registry is built
once: from the description inserted for it, or else from its file in a folder. What was built
stays in the cell of its version; what failed leaves an empty cell, and is tried again when it is
asked for again.
-/
namespace Voxel

/-- Where the registries of versions come from, and a cell for each version that was asked for. -/
structure Catalog where
  global : RegistryId
  folder : Option Folder
  aliases : OrderedMap String String
  descriptions : OrderedMap String VersionDescription
  cells : OrderedMap String (Option Registry)

namespace Catalog

def fresh (global : RegistryId) (folder : Option Folder) : Catalog :=
  ⟨global, folder, .empty, .empty, .empty⟩

def link (c : Catalog) (version target : String) : Catalog :=
  { c with aliases := c.aliases.insert version target }

def describe (c : Catalog) (d : VersionDescription) : Catalog :=
  { c with descriptions := c.descriptions.insert d.version d }

def follow (aliases : OrderedMap String String) : Nat → String → Option String
  | 0, _ => none
  | steps + 1, version =>
    match aliases.find? version with
    | none => some version
    | some target => follow aliases steps target

/-- The version that a version stands for. More steps than there are aliases mean a cycle. -/
def resolve (c : Catalog) (version : String) : Except BlockError String :=
  match follow c.aliases (c.aliases.size + 1) version with
  | some found => .ok found
  | none => .error (.invalidValue (.aliasCycle version))

def load (c : Catalog) (id : RegistryId) (global : Registry) (version : String) :
    Report Registry := do
  match c.descriptions.find? version with
  | some d => Version.build id d global
  | none =>
    match c.folder with
    | none => Report.fail (.error (.invalidValue (.noDescription version)))
    | some f =>
      Report.log .info s!"Loading block registry description {f.file version}"
      let text ← (f.open? version).mapError BlockError.file
      Version.buildText id text global

def cell (c : Catalog) (version : String) : Catalog × Option Registry :=
  match c.cells.find? version with
  | some held => (c, held)
  | none => ({ c with cells := c.cells.insert version none }, none)

def fill (c : Catalog) (version : String) (r : Registry) : Catalog :=
  { c with cells := c.cells.insert version (some r) }

/-- The registry of a version, built now with the given handle if it was not built before. -/
def get (c : Catalog) (id : RegistryId) (global : Registry) (version : String) :
    Catalog × Report Registry :=
  match c.resolve version with
  | .error e => (c, Report.fail (.error e))
  | .ok version =>
    match c.cell version with
    | (c, some r) => (c, pure r)
    | (c, none) =>
      let x := c.load id global version
      match x.result with
      | .ok r => (c.fill version r, x)
      | .error _ => (c, x)

def loaded (c : Catalog) : List String :=
  ((c.cells.entries.filter fun e => e.2.isSome).map Prod.fst).mergeSort textLe

end Catalog
end Voxel
