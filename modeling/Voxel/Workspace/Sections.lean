import Voxel.Workspace.Storages
/-!
Requests about sections, whose layers draw from the shared pools.
-/
namespace Voxel.Session

def sectionNamed (name : String) : Session Section := do found name ((← get).sections.find? name)

def sectionWithRegistry (name : String) : Session (Section × Registry) := do
  let s ← sectionNamed name
  return (s, ← registryAt s.registry)

def keepSection (name : String) (s : Section) : Session Unit :=
  modify fun w => { w with sections := w.sections.insert name s }

def createSection (name registryName : String) : Session Section := do
  let r ← registry registryName
  let s := Section.fresh r
  keepSection name s
  return s

def upgradeSection (storageName name : String) : Session Section := do
  let l ← legacy storageName
  let s ← perform (Section.ofLegacy (← registryAt l.registry) l)
  keepSection name s
  return s

def copySection (name target : String) : Session Section := do
  let s ← (← sectionNamed name).clone
  keepSection target s
  return s

/-- Changes a section. It keeps what a failed change did to it. -/
def changeSection (name : String) (change : Registry → Section → Section × Report α) :
    Session α := do
  let (s, r) ← sectionWithRegistry name
  let (s, x) := change r s
  keepSection name s
  perform x

def writeAllToLayer (name : String) (layer : Nat) (cells : List (Position × StateId)) :
    Session (Nat × Option Failure) := do
  let (s, r) ← sectionWithRegistry name
  let change (s : Section) (x : Position × StateId) := s.write r layer x.1 x.2
  let (s, written, failure) ← perform (Report.untilFailure change s 0 cells)
  keepSection name s
  return (written, failure)

end Voxel.Session
