import Voxel.Storage.Import
import Voxel.Workspace.Registries
/-!
Requests about storages. A storage takes its buffers from its pool when it is made, and gives them
back when it is replaced or dropped.
-/
namespace Voxel.Session

def holding (name : String) : Session Holding := do found name ((← get).storages.find? name)

/-- Applies a change to the pool of a storage for each of its buffers. -/
def forBuffers (change : Depot → PoolRef → Nat → Depot) (h : Holding) : Session Unit :=
  match h.pool with
  | none => return
  | some r =>
    modify fun w => { w with
      depot := h.storage.layout.buffers.foldl (fun d n => change d r n) w.depot }

def discard (h : Holding) : Session Unit := forBuffers Depot.release h

def keep (name : String) (h : Holding) : Session Unit := do
  let old := (← get).storages.find? name
  modify fun w => { w with storages := w.storages.insert name h }
  match old with
  | some h => discard h
  | none => return

def create (name : String) (h : Holding) : Session Unit := do
  forBuffers Depot.acquire h
  keep name h

def update (name : String) (h : Holding) : Session Unit :=
  modify fun w => { w with storages := w.storages.insert name h }

def take (name : String) : Session Holding := do
  let h ← holding name
  modify fun w => { w with storages := w.storages.erase name }
  return h

def drop (name : String) : Session Unit := do
  let h ← take name
  discard h

def frame (s : Storage) : Session Frame := do
  let home ← registryAt s.layout.registry
  match s.viewed with
  | none => return ⟨home, home⟩
  | some id => return ⟨home, ← registryAt id⟩

def poolOf (width : Width) (name : String) : Session PoolRef := do
  let r ← found name ((← get).pools.find? name)
  if r.width = width then return r else throw (.noHandle name)

def createFlat (name registryName : String) (pool : Option String) : Session Flat := do
  let r ← registry registryName
  let pool ← pool.mapM (poolOf .word)
  let s := Flat.fresh r
  create name ⟨.plain (.flat s), pool, .layout⟩
  return s

def importFlat (name registryName : String) (build : Registry → Except Failure Flat) :
    Session Flat := do
  let r ← registry registryName
  let s ← build r
  create name ⟨.plain (.flat s), none, .layout⟩
  return s

def createLegacy (name registryName : String) (pool : Option String) : Session Legacy := do
  let r ← registry registryName
  let pool ← pool.mapM (poolOf .byte)
  let s := Legacy.fresh r.id
  create name ⟨.plain (.legacy s), pool, .layout⟩
  return s

def importLegacy (name registryName : String) (blocks data : Array UInt8)
    (high : Option (Array UInt8)) : Session Legacy := do
  let r ← registry registryName
  let s ← Legacy.ofArrays r.id blocks data high
  create name ⟨.plain (.legacy s), none, .layout⟩
  return s

def read (name : String) (p : Position) : Session StateId := do
  let h ← holding name
  h.storage.read (← frame h.storage) p

def readState (name : String) (p : Position) : Session BlockState := do
  let h ← holding name
  h.storage.readState (← frame h.storage) p

def readInner (name : String) (p : Position) : Session StateId := do
  let h ← holding name
  if h.sight ≠ .view then throw (.noHandle name)
  let s := h.storage.inner
  s.read (← frame s) p

def write (name : String) (p : Position) (id : StateId) : Session Unit := do
  let h ← holding name
  let storage ← performIn h.pool (h.storage.write (← frame h.storage) p id)
  update name { h with storage }

def writeState (name : String) (p : Position) (t : BlockState) : Session Unit := do
  let h ← holding name
  let storage ← performIn h.pool (h.storage.writeState (← frame h.storage) p t)
  update name { h with storage }

/-- Writes states one after the other up to the first failure. Gives the number of states
written, and the failure. -/
def writeAll (name : String) (cells : List (Position × StateId)) :
    Session (Nat × Option Failure) := do
  let h ← holding name
  let f ← frame h.storage
  let change (s : Storage) (x : Position × StateId) := Report.keeping s (s.write f x.1 x.2)
  let (storage, written, failure) ← performIn h.pool (Report.untilFailure change h.storage 0 cells)
  update name { h with storage }
  return (written, failure)

def ids (name : String) : Session (List StateId) := do
  let h ← holding name
  h.storage.ids (← frame h.storage)

/-- Names a copy of a storage. Its layout is in sight if that of the storage is and stays. -/
def copy (name target : String) (stays : Bool) : Session Holding := do
  let h ← holding name
  let storage ← h.storage.clone
  let h : Holding :=
    { h with storage, sight := if stays && h.sight = .layout then .layout else .states }
  create target h
  return h

/-- Turns a storage into a view of itself; one that has no view is dropped. -/
def view (name target : String) : Session Holding := do
  let h ← take name
  let home ← registryAt h.storage.layout.registry
  match h.storage.view home with
  | .error e =>
    discard h
    throw (.failure (.error e))
  | .ok storage =>
    let h : Holding := { h with storage, sight := .view }
    keep target h
    return h

/-- Turns a view into the storage that it is a view of. -/
def unview (name target : String) : Session Holding := do
  let h ← take name
  if h.sight ≠ .view then
    discard h
    throw (.noHandle name)
  let h : Holding := { h with storage := h.storage.inner, sight := .states }
  keep target h
  return h

/-- Turns a storage into one in global numbers. A copy takes nothing of the old one's pool. -/
def toGlobal (name target : String) (preferView : Bool) : Session Holding := do
  let h ← take name
  let home ← registryAt h.storage.layout.registry
  let g ← registryAt home.globalId
  let stays := h.storage.isGlobal home || preferView
  -- a copy shares nothing with its source, whose buffers go back
  if !stays then discard h
  let storage ← perform (h.storage.toGlobal home g preferView)
  let h : Holding := ⟨storage, if stays then h.pool else none, .states⟩
  keep target h
  return h

def flat (name : String) : Session Flat := do
  let h ← holding name
  match h.sight, h.storage.layout with
  | .layout, .flat s => return s
  | _, _ => throw (.noHandle name)

def legacy (name : String) : Session Legacy := do
  let h ← holding name
  match h.sight, h.storage.layout with
  | .layout, .legacy s => return s
  | _, _ => throw (.noHandle name)

def changeLegacy (name : String) (change : Legacy → Report Legacy) : Session Unit := do
  let s ← legacy name
  let h ← holding name
  let s ← performIn h.pool (change s)
  update name { h with storage := .plain (.legacy s) }

def writeAllPairs (name : String) (cells : List (Position × LegacyPair)) :
    Session (Nat × Option Failure) := do
  let s ← legacy name
  let h ← holding name
  let change (s : Legacy) (x : Position × LegacyPair) := Report.keeping s (s.setPair x.1 x.2)
  let (s, written, failure) ← performIn h.pool (Report.untilFailure change s 0 cells)
  update name { h with storage := .plain (.legacy s) }
  return (written, failure)

/-- Upgrades a storage in the old layout. The second layer is named only if there is one. -/
def upgrade (name target fluidTarget : String) : Session (Flat × Option Flat) := do
  let s ← legacy name
  let r ← registryAt s.registry
  let (blocks, fluids) ← perform (s.upgrade r)
  create target ⟨.plain (.flat blocks), none, .layout⟩
  if let some t := fluids then create fluidTarget ⟨.plain (.flat t), none, .layout⟩
  return (blocks, fluids)

end Voxel.Session
