import Voxel.Registry.Vanilla
import Voxel.Workspace.Basic
/-!
Requests about registries and states. A name stands for a global registry before it stands for the
registry of a version.
-/
namespace Voxel.Session

def registryAt (id : RegistryId) : Session Registry := do
  found (registryText id) (← get).registries[id]?

def registry (name : String) : Session Registry := do
  let w ← get
  let id ← found name ((w.globals.find? name).or (w.versions.find? name))
  registryAt id

def global (name : String) : Session Registry := do
  let id ← found name ((← get).globals.find? name)
  registryAt id

def nextId : Session RegistryId := return (← get).registries.size

def enrol (r : Registry) : Session Unit :=
  modify fun w => { w with registries := w.registries.push r }

def refresh (r : Registry) : Session Unit :=
  modify fun w => { w with registries := w.registries.setIfInBounds r.id r }

def nameGlobal (name : String) (r : Registry) : Session Unit :=
  modify fun w => { w with globals := w.globals.insert name r.id }

def nameVersion (name : String) (r : Registry) : Session Unit :=
  modify fun w => { w with versions := w.versions.insert name r.id }

def makeGlobal (name : String) (make : RegistryId → Report Registry) : Session Registry := do
  let r ← perform (make (← nextId))
  enrol r
  nameGlobal name r
  return r

def registerStandard (name : String) : Session Registry := do
  let r ← global name
  let (r, registered) := r.registerAll Vanilla.declarations
  refresh r
  let _ ← perform registered
  return r

def register (name : String) (d : Declaration) : Session BlockKind := do
  let r ← global name
  let (r, kind) ← perform (r.register d)
  refresh r
  return kind

/-- Registers a kind without properties once for each kind that is there. Gives the names of those
kinds, and the last failure. -/
def registerForEach (registry : String) (name : Name) : Session (List Name × Option Failure) := do
  let r ← global registry
  let names := r.index.kinds.toList.map BlockKind.name
  let last ← names.foldlM (fun last _ => do
    -- each registration sees what the one before it did
    let r ← global registry
    let x := r.register ⟨name, [], none, none⟩
    let _ ← perform ⟨x.events, .ok ()⟩
    match x.result with
    | .ok (r, _) => refresh r; return last
    | .error e => return some e) none
  return (names, last)

def buildVersion (name text globalName : String) : Session Registry := do
  let g ← global globalName
  let r ← perform (Version.buildText (← nextId) text g)
  enrol r
  nameVersion name r
  return r

def state (name : String) : Session BlockState := do found name ((← get).states.find? name)

def keepState (name : String) (s : BlockState) : Session Unit :=
  modify fun w => { w with states := w.states.insert name s }

end Voxel.Session
