import Voxel.Error
import Voxel.Log.Level
/-!
The outcome of an operation together with what it did on the way: the messages it logged and the
buffers it took from its pool or gave back. A failure ends the operation and keeps what was done
before it. The outcome of a sequence depends on the outcomes of its parts alone (`result_bind`).
-/
namespace Voxel

inductive Event
  | logged (record : Log.Record)
  | acquired (length : Nat)
  | released (length : Nat)
  deriving DecidableEq, Inhabited, Repr

/-- An outcome and the events before it, in order. -/
structure Report (α : Type) where
  events : Array Event
  result : Except Failure α

namespace Report

protected def pure (a : α) : Report α := ⟨#[], .ok a⟩

protected def bind (x : Report α) (f : α → Report β) : Report β :=
  match x.result with
  | .error e => ⟨x.events, .error e⟩
  | .ok a =>
    let y := f a
    ⟨x.events ++ y.events, y.result⟩

instance : Monad Report where
  pure := Report.pure
  bind := Report.bind

instance : MonadLift (Except Failure) Report := ⟨fun r => ⟨#[], r⟩⟩

instance : MonadLift (Except BlockError) Report := ⟨fun r => ⟨#[], r.mapError .error⟩⟩

def fail (e : Failure) : Report α := ⟨#[], .error e⟩

def event (e : Event) : Report Unit := ⟨#[e], .ok ()⟩

def log (level : Log.Level) (text : String) : Report Unit := event (.logged ⟨level, text⟩)

/-- What is there after an operation that replaces it on success, beside the operation. -/
def keeping (old : σ) (x : Report σ) : σ × Report Unit :=
  match x.result with
  | .ok new => (new, ⟨x.events, .ok ()⟩)
  | .error e => (old, ⟨x.events, .error e⟩)

/-- Applies a change for each item, up to the first that fails. Gives what is there then, the
number of changes made, and the failure if there is one. -/
def untilFailure (change : σ → α → σ × Report Unit) (s : σ) (done : Nat) :
    List α → Report (σ × Nat × Option Failure)
  | [] => pure (s, done, none)
  | a :: rest =>
    let (s, x) := change s a
    match x.result with
    | .error e => ⟨x.events, .ok (s, done, some e)⟩
    | .ok () =>
      let y := untilFailure change s (done + 1) rest
      ⟨x.events ++ y.events, y.result⟩

def records (x : Report α) : Array Log.Record :=
  x.events.filterMap fun
    | .logged r => some r
    | _ => none

@[simp] theorem result_pure (a : α) : (pure a : Report α).result = .ok a := rfl

@[simp] theorem result_fail (e : Failure) : (fail e : Report α).result = .error e := rfl

@[simp] theorem result_event (e : Event) : (event e).result = .ok () := rfl

@[simp] theorem result_log (level : Log.Level) (text : String) : (log level text).result = .ok () :=
  rfl

@[simp] theorem result_bind (x : Report α) (f : α → Report β) :
    (x >>= f).result = x.result >>= fun a => (f a).result := by
  rcases x with ⟨events, _ | a⟩ <;> rfl

@[simp] theorem result_map (g : α → β) (x : Report α) : (g <$> x).result = g <$> x.result := by
  rcases x with ⟨events, _ | a⟩ <;> rfl

@[simp] theorem result_lift (x : Except Failure α) : (liftM x : Report α).result = x := rfl

@[simp] theorem result_liftError (x : Except BlockError α) :
    (liftM x : Report α).result = liftM x := rfl

end Report
end Voxel
