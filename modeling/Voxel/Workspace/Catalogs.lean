import Voxel.Settings
import Voxel.Workspace.Registries
/-!
Requests about catalogs of version registries.
-/
namespace Voxel

/-- The catalog that settings ask for, with the files of versions in its folder unless that is
missing. -/
def Catalog.ofSettings (global : RegistryId) (s : Settings)
    (texts : Option (List (String × String))) : Catalog :=
  let folder :=
    match texts with
    | some ts => Folder.ofVersions s.registryDirectory ts
    | none => ⟨s.registryDirectory, none⟩
  { Catalog.fresh global (some folder) with aliases := s.aliases }

namespace Session

def catalog (name : String) : Session Catalog := do found name ((← get).catalogs.find? name)

def keepCatalog (name : String) (c : Catalog) : Session Unit :=
  modify fun w => { w with catalogs := w.catalogs.insert name c }

def createCatalog (name globalName : String) (folder : Option Folder) : Session Unit := do
  let g ← global globalName
  keepCatalog name (.fresh g.id folder)

def configureCatalog (name globalName : String) (s : Settings)
    (texts : Option (List (String × String))) : Session Unit := do
  let g ← global globalName
  keepCatalog name (.ofSettings g.id s texts)

/-- Starts anew with a global registry of the standard kinds and the catalog that settings ask
for. The shared pools are in use by then, and keep their capacity. -/
def startCatalog (name globalName : String) (s : Settings)
    (texts : Option (List (String × String))) : Session Unit := do
  perform (Report.log .warn
    s!"Storage pools already in use, keeping a capacity of {Settings.usualCapacity}")
  let g ← makeGlobal globalName Vanilla.start
  keepCatalog name (.ofSettings g.id s texts)

def changeCatalog (name : String) (change : Catalog → Catalog) : Session Unit := do
  let c ← catalog name
  keepCatalog name (change c)

def describeVersion (name text : String) : Session Unit := do
  let c ← catalog name
  let d ← VersionDescription.ofText text
  keepCatalog name (c.describe d)

def removeFile (name version : String) : Session Unit :=
  changeCatalog name fun c => { c with folder := c.folder.map fun f => f.remove version }

/-- Looks a version up and names its registry. Tells whether a name stood for it before. -/
def lookUp (name version target : String) : Session (Registry × Bool) := do
  let c ← catalog name
  let id ← nextId
  let (c, found) := c.get id (← registryAt c.global) version
  keepCatalog name c
  let r ← perform found
  -- a registry that was built before has an older handle
  if r.id = id then enrol r
  let known := (← get).versions.entries.any (·.2 = r.id)
  nameVersion target r
  return (r, known)

end Session
end Voxel
