import Voxel.Storage.Basic
import Voxel.Storage.Depot
import Voxel.Storage.Section
import Voxel.Version.Catalog
/-!
Workspaces: registries, states, storages, sections, pools, buffers and catalogs that are kept under
names. A request reads and changes a workspace, and may be refused. A refused request keeps what it
did before, messages included, and stores nothing under a name.
-/
namespace Voxel

inductive Refusal
  | noHandle (name : String)
  | failure (cause : Failure)
  deriving DecidableEq, Inhabited, Repr

/-- What of a storage is in sight beside its states: its layout, that it is a view of another
storage, or neither. -/
inductive Sight
  | layout
  | view
  | states
  deriving DecidableEq, Inhabited, Repr

/-- A storage that is kept, with the pool it draws from unless that is a shared one. -/
structure Holding where
  storage : Storage
  pool : Option PoolRef
  sight : Sight

/-- A buffer that is kept, with the pool it was lent from. -/
structure Loan where
  pool : PoolRef
  items : Array pool.width.Item

/-- All that is kept. Registries stay for good, since storages and states refer to them. -/
structure Workspace where
  registries : Array Registry
  globals : OrderedMap String RegistryId
  versions : OrderedMap String RegistryId
  states : OrderedMap String BlockState
  storages : OrderedMap String Holding
  sections : OrderedMap String Section
  depot : Depot
  pools : OrderedMap String PoolRef
  loans : OrderedMap String Loan
  catalogs : OrderedMap String Catalog
  records : Array Log.Record

/-- A request to a workspace. -/
abbrev Session := EStateM Refusal Workspace

namespace Workspace

def empty : Workspace :=
  ⟨#[], .empty, .empty, .empty, .empty, .empty, .empty, .empty, .empty, .empty, #[]⟩

instance : Inhabited Workspace := ⟨empty⟩

/-- The workspace after a request, with the answer and the messages logged on the way. -/
def answer (w : Workspace) (x : Session α) : Workspace × Except Refusal α × Array Log.Record :=
  match x.run { w with records := #[] } with
  | .ok a w => (w, .ok a, w.records)
  | .error e w => (w, .error e, w.records)

end Workspace

namespace Session

instance : MonadLift (Except Failure) Session where
  monadLift
    | .ok a => pure a
    | .error e => throw (.failure e)

instance : MonadLift (Except BlockError) Session where
  monadLift
    | .ok a => pure a
    | .error e => throw (.failure (.error e))

def found (name : String) : Option α → Session α
  | some a => pure a
  | none => throw (.noHandle name)

def performIn (pool : Option PoolRef) (x : Report α) : Session α := do
  modify fun w => { w with
    records := w.records ++ x.records
    depot :=
      match pool with
      | some r => x.events.foldl (Depot.book r) w.depot
      | none => w.depot }
  match x.result with
  | .ok a => return a
  | .error e => throw (.failure e)

def perform (x : Report α) : Session α := performIn none x

end Session
end Voxel
