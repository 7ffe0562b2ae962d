import Voxel.Workspace.Storages
/-!
Requests about pools and the buffers lent from them. A buffer goes back to its pool when it is
replaced or dropped.
-/
namespace Voxel.Session

def createPool (name : String) (width : Width) (capacity : Nat) : Session Unit :=
  modify fun w =>
    let (depot, r) := w.depot.add width capacity
    { w with depot, pools := w.pools.insert name r }

def poolRef (name : String) : Session PoolRef := do found name ((← get).pools.find? name)

def poolNamed (name : String) : Session ((w : Width) × Pool w.Item) := do
  let r ← poolRef name
  return ⟨r.width, (← get).depot.pool r⟩

/-- Takes a pool's name away, and tells whether it had one. What draws from the pool goes on. -/
def dropPool (name : String) : Session Bool := do
  let held := (← get).pools.contains name
  modify fun w => { w with pools := w.pools.erase name }
  return held

def giveBack (l : Loan) : Session Unit :=
  modify fun w => { w with depot := w.depot.modify l.pool fun p => p.release l.items }

def keepLoan (name : String) (l : Loan) : Session Unit := do
  let old := (← get).loans.find? name
  modify fun w => { w with loans := w.loans.insert name l }
  match old with
  | some l => giveBack l
  | none => return

def borrow (r : PoolRef) (lend : Pool r.width.Item → Pool r.width.Item × Array r.width.Item)
    (name : String) : Session Unit := do
  let (pool, items) := lend ((← get).depot.pool r)
  modify fun w => { w with depot := w.depot.modify r fun _ => pool }
  keepLoan name ⟨r, items⟩

/-- Borrows a cleared buffer. A length that no buffer can have is a fault, and lends nothing. -/
def acquire (poolName : String) (length : Nat) (name : String) : Session Unit := do
  let r ← poolRef poolName
  if length ≤ r.width.maxLength then borrow r (fun p => p.acquire length) name
  else throw (.failure .fault)

def acquireCopy (poolName : String) (numbers : List Nat) (name : String) : Session Unit := do
  let r ← poolRef poolName
  borrow r (fun p => p.acquireCopy (numbers.map r.width.item).toArray) name

def loan (name : String) : Session Loan := do found name ((← get).loans.find? name)

def copyLoan (source name : String) : Session Unit := do
  let l ← loan source
  borrow l.pool (fun p => p.acquireCopy l.items) name

/-- Writes a number into a buffer. A place outside of the buffer is a fault. -/
def writeLoan (name : String) (place number : Nat) : Session Unit := do
  let l ← loan name
  if place < l.items.size then
    let items := l.items.setIfInBounds place (l.pool.width.item number)
    modify fun w => { w with loans := w.loans.insert name { l with items } }
  else throw (.failure .fault)

def readLoan (name : String) : Session (List Nat) := do
  let l ← loan name
  return l.items.toList.map l.pool.width.number

def dropLoan (name : String) : Session Bool := do
  match (← get).loans.find? name with
  | none => return false
  | some l =>
    modify fun w => { w with loans := w.loans.erase name }
    giveBack l
    return true

end Voxel.Session
