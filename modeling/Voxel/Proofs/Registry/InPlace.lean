import Voxel.Proofs.Registry.Global

/-!
# Registries changed in place

`Index.Changes` are changes to the tables of a registry one after the other, and `Registry.Changes` those
to a registry. What is changed before a failure stays changed there. `perform_insertion` and
`perform_registration` find that nothing is: all that can fail comes before the first change.
-/

namespace Voxel

open InPlace (perform perform_bind require)

namespace Index

/-! ### Tables -/

abbrev Changes := InPlace BlockError Index

namespace Changes

def refuseIf (taken : Index → Bool) (c : Clash) : Changes Unit := do
  if taken (← get) then throw (.duplicate c)

def checkState (s : BlockState) : Changes Unit := do
  refuseIf (·.hasRuntimeId s.runtimeId) (.runtimeId s.runtimeId s.text)
  match s.legacy with
  | some p => refuseIf (·.byLegacyPair.contains p.combined) (.legacyState p.id p.data s.text)
  | none => pure ()

def check (k : BlockKind) : Changes Unit := do
  refuseIf (·.hasName k.name) (.kind k.name)
  match k.legacyId with
  | some id => refuseIf (·.hasLegacyId id) (.legacyId id k.name)
  | none => pure ()
  k.states.forM checkState

def enterState (s : BlockState) : Changes Unit := do
  modify fun x => { x with byRuntimeId := place x.byRuntimeId s }
  modify fun x => { x with byLegacyPair := placeLegacy x.byLegacyPair s }

def enter (k : BlockKind) : Changes Unit := do
  k.states.forM enterState
  match k.legacyId with
  | some id => modify fun x => { x with byLegacyId := x.byLegacyId.insert id k }
  | none => pure ()
  modify fun x => { x with byName := x.byName.insert k.name k }
  modify fun x => { x with stateCount := x.stateCount + k.stateCount }
  modify fun x => { x with kinds := x.kinds.push k }

def insertion (k : BlockKind) : Changes Unit := do
  check k
  enter k

theorem perform_refuseIf (x : Index) (taken : Index → Bool) (c : Clash) :
    perform x (refuseIf taken c) = (if taken x then .error (.duplicate c) else .ok (), x) := by
  show perform x (if taken x then throw (.duplicate c) else pure () : Changes Unit) = _
  split <;> rfl

def verdict : Option Clash → Except BlockError Unit
  | some c => .error (.duplicate c)
  | none => .ok ()

theorem perform_checkState (x : Index) (s : BlockState) :
    perform x (checkState s) = (verdict (x.stateClash? s), x) := by
  rw [checkState, perform_bind, perform_refuseIf, stateClash?]
  cases x.hasRuntimeId s.runtimeId with
  | true => rfl
  | false =>
    cases s.legacy with
    | none => rfl
    | some p =>
      simp only [Bool.false_eq_true, if_false, perform_refuseIf]
      split <;> rfl

theorem perform_checkStates (x : Index) (states : List BlockState) :
    perform x (states.forM checkState) = (verdict (states.findSome? x.stateClash?), x) := by
  induction states with
  | nil => rfl
  | cons s rest ih =>
    rw [List.forM, perform_bind, perform_checkState, List.findSome?_cons]
    cases x.stateClash? s with
    | none => exact ih
    | some c => rfl

theorem perform_check (x : Index) (k : BlockKind) :
    perform x (check k) = (verdict (x.clash? k), x) := by
  rw [check, perform_bind, perform_refuseIf, clash?]
  cases x.hasName k.name with
  | true => rfl
  | false =>
    cases k.legacyId with
    | none => exact perform_checkStates x k.states
    | some id =>
      simp only [Bool.false_eq_true, if_false, perform_bind, perform_refuseIf]
      cases taken : x.hasLegacyId id with
      | true =>
        simp only [Option.filter_some, taken, if_true]
        rfl
      | false =>
        simp only [Option.filter_some, taken, Bool.false_eq_true, if_false]
        exact perform_checkStates x k.states

theorem perform_enterStates (x : Index) (states : List BlockState) :
    perform x (states.forM enterState) = (.ok (), { x with
      byRuntimeId := states.foldl place x.byRuntimeId,
      byLegacyPair := states.foldl placeLegacy x.byLegacyPair }) := by
  induction states generalizing x with
  | nil => rfl
  | cons s rest ih =>
    rw [List.forM, perform_bind]
    exact ih _

theorem perform_enter (x : Index) (k : BlockKind) : perform x (enter k) = (.ok (), x.add k) := by
  rw [enter, perform_bind, perform_enterStates, add]
  cases k.legacyId <;> rfl

/-- An insertion in place leaves no trace when it fails, so it is the same as one of the whole kind. -/
theorem perform_insertion (x : Index) (k : BlockKind) :
    perform x (insertion k) = match x.insert k with
      | .ok y => (.ok (), y)
      | .error c => (.error (.duplicate c), x) := by
  rw [insertion, perform_bind, perform_check, insert]
  cases x.clash? k with
  | none => exact perform_enter x k
  | some c => rfl

end Changes

end Index

namespace Registry

/-! ### Registrations -/

abbrev Changes := InPlace Failure Registry

namespace Changes

def insertion (k : BlockKind) : Changes Unit := ExceptT.mk fun r =>
  let (outcome, index) := InPlace.perform r.index (Index.Changes.insertion k)
  (outcome.mapError Failure.error, { r with index })

def registration (d : Declaration) : Changes BlockKind := do
  let r ← get
  if r.index.hasName d.name then throw (.error (.duplicate (.kind d.name)))
  let k ← require (d.states r.id (freeId (UInt32.ofNat r.index.limit)))
  insertion k
  return k

theorem perform_insertion (r : Registry) (k : BlockKind) :
    perform r (insertion k) = match r.index.insert k with
      | .ok index => (.ok (), { r with index })
      | .error c => (.error (.error (.duplicate c)), r) := by
  show (let (outcome, index) := InPlace.perform r.index (Index.Changes.insertion k)
    (outcome.mapError Failure.error, { r with index })) = _
  rw [Index.Changes.perform_insertion]
  cases r.index.insert k <;> rfl

/-- The tables are the last thing that a registration changes, and they are changed as a whole. -/
theorem perform_registration (r : Registry) (d : Declaration) :
    perform r (registration d) = match (r.register d).result with
      | .ok (s, k) => (.ok k, s)
      | .error f => (.error f, r) := by
  cases named : r.index.hasName d.name with
  | true =>
    have refused : (r.register d).result = .error (.error (.duplicate (.kind d.name))) := by
      simp only [register, named, if_true]
      rfl
    rw [refused]
    show perform r (if r.index.hasName d.name then _ else _) = _
    rw [named]
    rfl
  | false =>
    have asked : perform r (registration d) = perform r (do
        let k ← require (d.states r.id (freeId (UInt32.ofNat r.index.limit)))
        insertion k
        return k) := by
      show perform r (if r.index.hasName d.name then _ else _) = _
      rw [named]
      rfl
    simp only [register, named, Bool.false_eq_true, if_false, Report.result_bind,
      Declaration.result_build]
    rw [asked, perform_bind]
    cases d.states r.id (freeId (UInt32.ofNat r.index.limit)) with
    | error f => rfl
    | ok k =>
      show perform r (insertion k >>= fun _ => pure k) = _
      rw [perform_bind, perform_insertion, Outcome.ok_bind]
      cases r.index.insert k <;> rfl

end Changes

end Registry

end Voxel
