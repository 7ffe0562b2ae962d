import Voxel.Proofs.Registry.Coherent
import Voxel.Proofs.Storage.Import
import Voxel.Storage.Basic

/-!
# Runs of a flat storage

A flat storage is a plain map from cells to states, whatever is written to it, however often it is
copied, and even while its registry grows. `Sound.step` is one step of a run, and `Sound.run` the
whole of it.
-/

namespace Voxel

inductive Act
  | write (p : Position) (id : StateId)
  | clone
  | register (d : Declaration)

/-- A storage with its registry, and what was last written to each cell. -/
structure Scene where
  registry : Registry
  storage : Storage
  written : Cell → StateId

namespace Scene

def start (r : Registry) (s : Flat) (content : Cell → StateId) : Scene := ⟨r, .plain (.flat s), content⟩

def read (x : Scene) (p : Position) : Except Failure StateId :=
  x.storage.read ⟨x.registry, x.registry⟩ p

def recorded (written : Cell → StateId) (p : Position) (id : StateId) :
    Except Failure Unit → Cell → StateId
  | .ok () =>
    match p.cell with
    | .ok c => Function.update written c id
    | .error _ => written
  | .error _ => written

/-- The scene after something was done, with its outcome. What fails leaves everything as it was,
and the registry of a version stays as it is anyhow. -/
def step (x : Scene) : Act → Scene × Except Failure Unit
  | .write p id =>
    let (storage, outcome) :=
      Report.keeping x.storage (x.storage.write ⟨x.registry, x.registry⟩ p id)
    (⟨x.registry, storage, recorded x.written p id outcome.result⟩, outcome.result)
  | .clone =>
    match x.storage.clone with
    | .ok storage => ({ x with storage }, .ok ())
    | .error e => (x, .error e)
  | .register d =>
    if x.registry.isGlobal then
      match (x.registry.register d).result with
      | .ok (registry, _) => ({ x with registry }, .ok ())
      | .error e => (x, .error e)
    else (x, .ok ())

def run (x : Scene) (acts : List Act) : Scene := acts.foldl (fun y a => (y.step a).1) x

/-- The storage shows what was last written, and all of that is registered. -/
structure Sound (x : Scene) : Prop where
  registry : x.registry.Sound
  storage : ∃ s : Flat, x.storage = .plain (.flat s) ∧ s.Shows x.written
  registered : ∀ c, x.registry.index.hasRuntimeId (x.written c) = true

/-- What is seen of a storage that is a plain map. -/
structure Refines (x : Scene) : Prop where
  read : ∀ p c, p.cell = .ok c → x.read p = .ok (x.written c)
  write_ok : ∀ p c id, p.cell = .ok c →
    ((x.step (.write p id)).2 = .ok () ↔ x.registry.index.hasRuntimeId id = true)
  write_unknown : ∀ p c id, p.cell = .ok c → x.registry.index.hasRuntimeId id = false →
    x.step (.write p id) = (x, .error (.error (.unknownRuntimeId id)))
  clone_ok : (x.step .clone).2 = .ok ()

/-! ### One step -/

theorem step_of_ok {x : Scene} {p : Position} {id : StateId} {storage : Storage}
    (wrote : (x.storage.write ⟨x.registry, x.registry⟩ p id).result = .ok storage) :
    x.step (.write p id) =
      (⟨x.registry, storage, recorded x.written p id (.ok ())⟩, .ok ()) := by
  simp only [step, Report.keeping, wrote]

theorem step_of_error {x : Scene} {p : Position} {id : StateId} {e : Failure}
    (failed : (x.storage.write ⟨x.registry, x.registry⟩ p id).result = .error e) :
    x.step (.write p id) = (x, .error e) := by
  simp only [step, Report.keeping, failed, recorded]

theorem result_write_flat {r : Registry} (s : Flat) {p : Position} {c : Cell} (inside : p.cell = .ok c)
    (id : StateId) : ((Storage.plain (.flat s)).write ⟨r, r⟩ p id).result =
      (fun t => Storage.plain (.flat t)) <$> (s.write r c id).result := by
  simp only [Storage.write, Storage.plain, Layout.write, inside, Report.result_bind,
    Report.result_lift, Outcome.ok_bind, Report.result_map, Report.result_pure]
  cases (s.write r c id).result <;> rfl

theorem result_write_outside {r : Registry} (s : Flat) {p : Position} {e : Failure}
    (outside : p.cell = .error e) (id : StateId) :
    ((Storage.plain (.flat s)).write ⟨r, r⟩ p id).result = .error e := by
  simp only [Storage.write, Storage.plain, Layout.write, outside, Report.result_bind,
    Report.result_lift, Outcome.error_bind]

variable {x : Scene}

theorem step_write_flat {s t : Flat} (flat : x.storage = .plain (.flat s)) {p : Position} {c : Cell}
    (inside : p.cell = .ok c) {id : StateId} (wrote : (s.write x.registry c id).result = .ok t) :
    x.step (.write p id) =
      (⟨x.registry, .plain (.flat t), Function.update x.written c id⟩, .ok ()) := by
  have run : (x.storage.write ⟨x.registry, x.registry⟩ p id).result = .ok (.plain (.flat t)) := by
    rw [flat, result_write_flat s inside, wrote]
    rfl
  rw [step_of_ok run, recorded, inside]

theorem step_clone_flat {s t : Flat} (flat : x.storage = .plain (.flat s)) (copied : s.clone = .ok t) :
    x.step .clone = ({ x with storage := .plain (.flat t) }, .ok ()) := by
  have cloned : x.storage.clone = .ok (.plain (.flat t)) := by
    rw [flat, Storage.clone]
    dsimp only [Storage.plain]
    rw [Layout.clone, copied]
    rfl
  rw [step, cloned]

theorem Sound.write_known (sound : x.Sound) {p : Position} {c : Cell} (inside : p.cell = .ok c)
    {id : StateId} (known : x.registry.index.hasRuntimeId id = true) :
    ∃ s : Flat, x.step (.write p id) =
      (⟨x.registry, .plain (.flat s), Function.update x.written c id⟩, .ok ()) ∧
      s.Shows (Function.update x.written c id) := by
  obtain ⟨s, flat, shows⟩ := sound.storage
  obtain ⟨t, wrote, _, after⟩ := (Flat.write_spec sound.registry.index.limit_le shows
    sound.registered c id).1 known
  exact ⟨t, step_write_flat flat inside wrote, after⟩

theorem Sound.write_unknown (sound : x.Sound) {p : Position} {c : Cell} (inside : p.cell = .ok c)
    {id : StateId} (unknown : x.registry.index.hasRuntimeId id = false) :
    x.step (.write p id) = (x, .error (.error (.unknownRuntimeId id))) := by
  obtain ⟨s, flat, shows⟩ := sound.storage
  have refused := (Flat.write_spec sound.registry.index.limit_le shows sound.registered c id).2 unknown
  refine step_of_error ?_
  rw [flat, result_write_flat s inside, refused]
  rfl

theorem Sound.clone_ok (sound : x.Sound) : ∃ s : Flat,
    x.step .clone = ({ x with storage := .plain (.flat s) }, .ok ()) ∧ s.Shows x.written := by
  obtain ⟨s, flat, shows⟩ := sound.storage
  obtain ⟨t, copied, _, same⟩ := Flat.clone_spec shows
  exact ⟨t, step_clone_flat flat copied, same⟩

theorem Sound.refines (sound : x.Sound) : x.Refines where
  read p c inside := by
    obtain ⟨s, flat, shows⟩ := sound.storage
    rw [read, Storage.read, flat, Storage.plain, Layout.read_flat inside, shows.read]
    rfl
  write_ok p c id inside := by
    constructor
    · intro wrote
      by_contra unknown
      rw [sound.write_unknown inside (Bool.eq_false_iff.mpr unknown)] at wrote
      cases wrote
    · intro known
      obtain ⟨s, wrote, _⟩ := sound.write_known inside known
      rw [wrote]
  write_unknown p c id inside unknown := sound.write_unknown inside unknown
  clone_ok := by
    obtain ⟨s, cloned, _⟩ := sound.clone_ok
    rw [cloned]

theorem Sound.registers (sound : x.Sound) (d : Declaration) :
    ∃ r, (x.step (.register d)).1 = { x with registry := r } ∧ r.Sound ∧
      ∀ id, x.registry.index.hasRuntimeId id = true → r.index.hasRuntimeId id = true := by
  unfold Scene.step
  dsimp only
  split
  · split
    · rename_i r k registered
      exact ⟨r, rfl, Registry.register_sound sound.registry registered,
        fun _ known => Registry.register_grows sound.registry registered known⟩
    · exact ⟨x.registry, rfl, sound.registry, fun _ => id⟩
  · exact ⟨x.registry, rfl, sound.registry, fun _ => id⟩

/-- Whatever is done keeps the storage in line with what was last written. -/
theorem Sound.step (sound : x.Sound) (a : Act) : (x.step a).1.Sound := by
  cases a with
  | write p id =>
    cases inside : p.cell with
    | error e =>
      obtain ⟨s, flat, _⟩ := sound.storage
      rw [step_of_error (flat ▸ result_write_outside s inside id)]
      exact sound
    | ok c =>
      cases known : x.registry.index.hasRuntimeId id with
      | false =>
        rw [sound.write_unknown inside known]
        exact sound
      | true =>
        obtain ⟨s, wrote, shows⟩ := sound.write_known inside known
        rw [wrote]
        refine ⟨sound.registry, ⟨s, rfl, shows⟩, fun d => ?_⟩
        dsimp only
        by_cases same : d = c
        · rw [same, Function.update_self]
          exact known
        · rw [Function.update_of_ne same]
          exact sound.registered d
  | clone =>
    obtain ⟨s, cloned, shows⟩ := sound.clone_ok
    rw [cloned]
    exact ⟨sound.registry, ⟨s, rfl, shows⟩, sound.registered⟩
  | register d =>
    obtain ⟨r, registered, sound', knows⟩ := sound.registers d
    rw [registered]
    exact ⟨sound', sound.storage, fun c => knows _ (sound.registered c)⟩

/-! ### A whole run -/

theorem Sound.run (sound : x.Sound) (acts : List Act) : (x.run acts).Sound := by
  induction acts generalizing x with
  | nil => exact sound
  | cons a rest ih => exact ih (sound.step a)

def imported (r : Registry) (entries : List PaletteEntry) (words : Array UInt64) (c : Cell) : StateId :=
  match entries[Flat.indexIn words (Flat.indexBits entries) c]?.map (PaletteEntry.resolve r) with
  | some (.ok id) => id
  | _ => 0

inductive Origin (r : Registry) : Flat → (Cell → StateId) → Prop
  | fresh : Origin r (Flat.fresh r) fun _ => r.air.runtimeId
  | packed {entries : List PaletteEntry} {words : Array UInt64} {s : Flat}
      (h : Flat.ofPacked r entries words = .ok s) : Origin r s (imported r entries words)

theorem start_sound {r : Registry} (sound : r.Sound) {s : Flat} {content : Cell → StateId}
    (origin : Origin r s content) : (start r s content).Sound := by
  cases origin with
  | fresh => exact ⟨sound, ⟨_, rfl, Flat.fresh_shows r⟩, fun _ => sound.knows_air⟩
  | @packed entries words s h =>
    rcases Flat.ofPacked_cases r entries words with
      ⟨_, t, content, run, shows, _, _, _, meant⟩ | ⟨_, e, refused, _⟩
    · obtain rfl := Except.ok.inj (run.symm.trans h)
      have same : imported r entries words = content := by
        funext c
        obtain ⟨e, u, here, known, value⟩ := meant c
        rw [imported, here, Option.map_some, PaletteEntry.resolve_eq_ok_iff.mpr ⟨u, known, rfl⟩, value]
      refine ⟨sound, ⟨t, rfl, same ▸ shows⟩, fun c => ?_⟩
      obtain ⟨e, u, _, known, value⟩ := meant c
      show r.index.hasRuntimeId (imported r entries words c) = true
      rw [same, value]
      exact sound.knows_ofTexts known
    · rw [h] at refused
      cases refused

/-- A flat storage is a plain map throughout every run. -/
theorem run_refines {r : Registry} (built : r.Built) {s : Flat} {content : Cell → StateId}
    (origin : Origin r s content) (acts : List Act) : ((start r s content).run acts).Refines :=
  ((start_sound built.sound origin).run acts).refines

theorem run_refines_lamp : ∃ r, Registry.Global r ∧
    ((start r (Flat.fresh r) fun _ => r.air.runtimeId).run [.write ⟨0, 0, 0⟩ 1,
      .register ⟨.standard "lamp", [.bool "lit" false], none, none⟩, .clone,
      .write ⟨15, 7, 3⟩ 1]).Refines := by
  obtain ⟨r, made⟩ := Registry.newGlobal_ok 0
  exact ⟨r, .start made, run_refines (.isGlobal (.start made)) .fresh _⟩

end Scene

end Voxel
