import Voxel.Storage.Flat
import Voxel.Storage.Legacy
/-!
Storages of a section layer in either layout, and views of them. A storage keeps the numbers of its
home registry. A view of it is read and written in the numbers of the global registry, through the
bridge of the home registry; a storage whose home is global has no view.
-/
namespace Voxel

inductive Layout
  | flat (s : Flat)
  | legacy (s : Legacy)

namespace Layout

def registry : Layout → RegistryId
  | flat s => s.registry
  | legacy s => s.registry

def read (home : Registry) (l : Layout) (p : Position) : Except Failure StateId := do
  let c ← p.cell
  match l with
  | flat s => s.read c
  | legacy s => s.read home c

theorem read_flat {home : Registry} {s : Flat} {p : Position} {c : Cell} (inside : p.cell = .ok c) :
    (flat s).read home p = s.read c := by
  rw [read, inside]
  rfl

theorem read_legacy {home : Registry} {s : Legacy} {p : Position} {c : Cell}
    (inside : p.cell = .ok c) : (legacy s).read home p = liftM (s.read home c) := by
  rw [read, inside]
  rfl

theorem read_outside {home : Registry} {l : Layout} {p : Position} {e : Failure}
    (outside : p.cell = .error e) : l.read home p = .error e := by
  rw [read, outside]
  rfl

def write (home : Registry) (l : Layout) (p : Position) (id : StateId) : Report Layout :=
  match l with
  | flat s => do
    let c ← p.cell
    flat <$> s.write home c id
  | legacy s => legacy <$> s.write home p id

def clone : Layout → Except Failure Layout
  | flat s => flat <$> s.clone
  | legacy s => .ok (legacy s)

def buffers : Layout → List Nat
  | flat s => [s.cells.words.size]
  | legacy s => [volume, halfVolume] ++ (if s.hasHigh then [halfVolume] else [])

end Layout

/-- A layer, and the global registry in whose numbers it is seen, if it is a view. -/
structure Storage where
  layout : Layout
  viewed : Option RegistryId

/-- The registries that reading and writing a storage involves: its home, and the one in whose
numbers it is seen. Without a view they are the same. -/
structure Frame where
  home : Registry
  seen : Registry

namespace Storage

def plain (l : Layout) : Storage := ⟨l, none⟩

def registry (s : Storage) : RegistryId := s.viewed.getD s.layout.registry

def read (f : Frame) (s : Storage) (p : Position) : Except Failure StateId := do
  let id ← s.layout.read f.home p
  match s.viewed with
  | none => return id
  | some _ => return f.home.toGlobal id

/-- Writes a state; a view takes any state that is registered globally. -/
def write (f : Frame) (s : Storage) (p : Position) (id : StateId) : Report Storage :=
  match s.viewed with
  | none => do
    let layout ← s.layout.write f.home p id
    return { s with layout }
  | some _ => do
    if !f.seen.index.hasRuntimeId id then Report.fail (.error (.unknownRuntimeId id))
    let layout ← s.layout.write f.home p (f.home.fromGlobal id)
    return { s with layout }

def readState (f : Frame) (s : Storage) (p : Position) : Except Failure BlockState := do
  let id ← s.read f p
  f.seen.index.state id

def writeState (f : Frame) (s : Storage) (p : Position) (t : BlockState) : Report Storage :=
  if t.registry = f.seen.id then s.write f p t.runtimeId
  else Report.fail (.error (.invalidValue (.storage (.otherRegistry t.text t.registry f.seen.id))))

def ids (f : Frame) (s : Storage) : Except Failure (List StateId) :=
  Cell.all.mapM fun c => s.read f c.position

def isGlobal (home : Registry) (s : Storage) : Bool := s.viewed.isSome || home.isGlobal

def view (home : Registry) (s : Storage) : Except BlockError Storage :=
  if s.isGlobal home then .error (.invalidValue (.storage .alreadyGlobal))
  else .ok { s with viewed := some home.globalId }

def inner (s : Storage) : Storage := { s with viewed := none }

def clone (s : Storage) : Except Failure Storage := do return { s with layout := ← s.layout.clone }

/-- A flat storage of the registry that the storage is seen in, with the same states. -/
def copy (f : Frame) (s : Storage) : Report Flat :=
  Cell.all.foldlM (fun t c => do
    let id ← s.read f c.position
    t.write f.seen c id) (Flat.fresh f.seen)

/-- The storage in global numbers: itself if it is there already, or else a view or a copy. -/
def toGlobal (home global : Registry) (preferView : Bool) (s : Storage) : Report Storage :=
  if s.isGlobal home then pure s
  else do
    let v ← s.view home
    if preferView then return v
    let t ← v.copy ⟨home, global⟩
    return plain (.flat t)

end Storage
end Voxel
