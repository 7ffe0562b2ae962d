import Voxel.Workspace.Basic

/-!
# How requests end

`Ends` says of a request what holds when it is answered and what holds when it is refused. One lemma for
each way to put requests together takes a request apart, until only its changes to the workspace are left.
-/

namespace Voxel.Session

variable {α β : Type}

/-- How a request ends: `ok` of its answer and what it leaves, `refused` of what a refusal leaves. -/
def Ends (x : Session α) (w : Workspace) (ok : α → Workspace → Prop) (refused : Workspace → Prop) : Prop :=
  match x.run w with
  | .ok a v => ok a v
  | .error _ v => refused v

section

variable {w : Workspace} {ok : α → Workspace → Prop} {refused : Workspace → Prop}

@[simp] theorem ends_pure (a : α) : Ends (pure a) w ok refused ↔ ok a w := Iff.rfl

@[simp] theorem ends_throw (e : Refusal) : Ends (throw e) w ok refused ↔ refused w := Iff.rfl

@[simp] theorem ends_bind (x : Session β) (f : β → Session α) : Ends (x >>= f) w ok refused ↔
    Ends x w (fun b v => Ends (f b) v ok refused) refused := by
  unfold Ends
  rw [EStateM.run_bind]
  cases x.run w <;> rfl

@[simp] theorem ends_get {ok : Workspace → Workspace → Prop} : Ends get w ok refused ↔ ok w w := Iff.rfl

@[simp] theorem ends_modify (f : Workspace → Workspace) {ok : Unit → Workspace → Prop} :
    Ends (modify f) w ok refused ↔ ok () (f w) := Iff.rfl

@[simp] theorem ends_found (name : String) (here : Option α) : Ends (found name here) w ok refused ↔
    (∀ a, here = some a → ok a w) ∧ (here = none → refused w) := by
  cases here <;> simp [found]

@[simp] theorem ends_lift (x : Except Failure α) : Ends (liftM x) w ok refused ↔
    (∀ a, x = .ok a → ok a w) ∧ (∀ e, x = .error e → refused w) := by
  cases x <;> simp [liftM, monadLift, MonadLift.monadLift]

def booked (w : Workspace) (pool : Option PoolRef) (x : Report α) : Workspace :=
  { w with
    records := w.records ++ x.records
    depot :=
      match pool with
      | some r => x.events.foldl (Depot.book r) w.depot
      | none => w.depot }

@[simp] theorem ends_performIn (pool : Option PoolRef) (x : Report α) :
    Ends (performIn pool x) w ok refused ↔
      (∀ a, x.result = .ok a → ok a (booked w pool x)) ∧
      (∀ e, x.result = .error e → refused (booked w pool x)) := by
  rw [performIn, ends_bind, ends_modify]
  exact ends_lift x.result

@[simp] theorem ends_perform (x : Report α) : Ends (perform x) w ok refused ↔
    (∀ a, x.result = .ok a → ok a { w with records := w.records ++ x.records }) ∧
    (∀ e, x.result = .error e → refused { w with records := w.records ++ x.records }) :=
  ends_performIn none x

theorem Ends.mono {ok' : α → Workspace → Prop} {refused' : Workspace → Prop} {x : Session α}
    (ends : Ends x w ok refused) (answered : ∀ a v, ok a v → ok' a v)
    (denied : ∀ v, refused v → refused' v) : Ends x w ok' refused' := by
  unfold Ends at ends ⊢
  cases ran : x.run w with
  | ok a v =>
    rw [ran] at ends
    exact answered a v ends
  | error e v =>
    rw [ran] at ends
    exact denied v ends

theorem ends_foldlM {motive : Workspace → Prop} {f : β → α → Session β}
    (step : ∀ b a v, motive v → Ends (f b a) v (fun _ => motive) motive) (start : motive w)
    (items : List α) (b : β) : Ends (items.foldlM f b) w (fun _ => motive) motive := by
  induction items generalizing b w with
  | nil => exact start
  | cons a rest ih =>
    rw [List.foldlM_cons, ends_bind]
    exact (step b a w start).mono (fun b v kept => ih kept b) fun _ kept => kept

end

end Voxel.Session

namespace Voxel.Workspace

theorem answer_of_ends {α : Type} {w : Workspace} {x : Session α} {motive : Workspace → Prop}
    (ends : x.Ends { w with records := #[] } (fun _ => motive) motive) : motive (w.answer x).1 := by
  unfold Session.Ends at ends
  unfold answer
  cases ran : x.run { w with records := #[] } with
  | ok a v =>
    rw [ran] at ends
    exact ends
  | error e v =>
    rw [ran] at ends
    exact ends

theorem answer_of_refused {α : Type} {w : Workspace} {x : Session α} {ok : α → Workspace → Prop}
    {motive : Workspace → Prop} (ends : x.Ends { w with records := #[] } ok motive) {e : Refusal}
    (refused : (w.answer x).2.1 = .error e) : motive (w.answer x).1 := by
  unfold Session.Ends at ends
  unfold answer at refused ⊢
  cases ran : x.run { w with records := #[] } with
  | ok a v =>
    rw [ran] at refused
    cases refused
  | error e v =>
    rw [ran] at ends
    exact ends

end Voxel.Workspace
