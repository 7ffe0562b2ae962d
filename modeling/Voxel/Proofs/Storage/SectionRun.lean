import Voxel.Proofs.Storage.Upgrade
import Voxel.Storage.Section

/-!
# Runs of a section

A section is a map from layers and cells to states. Its second layer reads as air while it is missing,
so `Section.flat` has a layer of air in its place. `write_ends` says how a write can end, `run_maps` what
is seen of a section throughout a run, and `run_withstands` what is left when a write fails.
-/

namespace Voxel

namespace Section

def flat (r : Registry) (s : Section) : Nat → Flat
  | 0 => s.blocks
  | _ + 1 => s.fluids.getD (.fresh r)

def replace (s : Section) (t : Flat) : Nat → Section
  | 0 => { s with blocks := t }
  | _ + 1 => { s with fluids := some t }

/-- The second layer is missing, so that a write to it has to make it. -/
def Lacks (s : Section) (layer : Nat) : Prop := layer = 1 ∧ s.fluids = none

instance (s : Section) (layer : Nat) : Decidable (s.Lacks layer) :=
  inferInstanceAs (Decidable (layer = 1 ∧ s.fluids = none))

section

variable {r : Registry} {s : Section} {layer : Nat} {p : Position} {c : Cell} {id : StateId}

theorem flat_replace (t : Flat) (low : layer < 2) {other : Nat} (lowToo : other < 2) :
    (s.replace t layer).flat r other = if other = layer then t else s.flat r other := by
  match layer, other with
  | 0, 0 => rfl
  | 0, 1 => rfl
  | 1, 0 => rfl
  | 1, 1 => rfl

theorem registry_replace {t : Flat} (owner : layer = 0 → t.registry = s.registry) :
    (s.replace t layer).registry = s.registry := by
  match layer with
  | 0 => exact owner rfl
  | n + 1 => rfl

theorem replace_flat (low : layer < 2) : s.replace (s.flat r layer) layer =
    if s.Lacks layer then { s with fluids := some (.fresh r) } else s := by
  obtain ⟨blocks, fluids⟩ := s
  match layer with
  | 0 => exact (if_neg fun lacks => absurd lacks.1 (by decide)).symm
  | 1 =>
    cases fluids with
    | none => rfl
    | some t => exact (if_neg fun lacks => Option.some_ne_none t lacks.2).symm

theorem read_flat (low : layer < 2) (inside : p.cell = .ok c) :
    s.read r layer p = liftM ((s.flat r layer).read c) := by
  obtain ⟨blocks, fluids⟩ := s
  match layer with
  | 0 => simp only [read, Section.layer, flat, inside, Failure.lift_ok, Outcome.ok_bind]
  | 1 =>
    cases fluids with
    | none =>
      have air := (Flat.fresh_shows r).read c
      simp only [read, Section.layer, flat, Option.getD_none, air, Failure.lift_ok, Outcome.ok_bind]
      rfl
    | some t =>
      simp only [read, Section.layer, flat, Option.getD_some, inside, Failure.lift_ok,
        Outcome.ok_bind]

theorem readState_flat {u : BlockState} (low : layer < 2) (inside : p.cell = .ok c)
    (air : r.index.state r.air.runtimeId = .ok r.air) (holds : (s.flat r layer).read c = .ok id)
    (state : r.index.state id = .ok u) : s.readState r layer p = .ok u := by
  obtain ⟨blocks, fluids⟩ := s
  match layer with
  | 0 =>
    rw [flat] at holds
    simp only [readState, Section.layer, inside, holds, state, Failure.lift_ok, Outcome.ok_bind]
  | 1 =>
    rw [flat] at holds
    cases fluids with
    | none =>
      rw [Option.getD_none, (Flat.fresh_shows r).read] at holds
      obtain rfl := Except.ok.inj holds
      obtain rfl := Except.ok.inj (air.symm.trans state)
      rfl
    | some t =>
      rw [Option.getD_some] at holds
      simp only [readState, Section.layer, inside, holds, state, Failure.lift_ok, Outcome.ok_bind]

/-! ### Writes -/

theorem write_flat (low : layer < 2) (lasting : s.Lacks layer → id ≠ r.air.runtimeId) :
    s.write r layer p id =
      (s.replace (writeLayer r (s.flat r layer) p id).1 layer,
        (writeLayer r (s.flat r layer) p id).2) := by
  obtain ⟨blocks, fluids⟩ := s
  match layer with
  | 0 => rfl
  | 1 =>
    have wet : ¬ (fluids.isNone && id = r.air.runtimeId) = true := by
      intro dry
      rw [Bool.and_eq_true, Option.isNone_iff_eq_none, decide_eq_true_eq] at dry
      exact lasting ⟨rfl, dry.1⟩ dry.2
    rw [write, if_neg wet]
    rfl

theorem write_dry (lacks : s.Lacks layer) : s.write r layer p r.air.runtimeId = (s, pure ()) := by
  obtain ⟨rfl, missing⟩ := lacks
  rw [write, missing]
  exact if_pos (decide_eq_true rfl)

theorem writeLayer_ok {t u : Flat} (wrote : (p.cell >>= fun c => (t.write r c id).result) = .ok u) :
    (writeLayer r t p id).1 = u ∧ (writeLayer r t p id).2.result = .ok () := by
  unfold writeLayer Report.keeping
  rw [Report.result_bind, Report.result_lift, wrote]
  exact ⟨rfl, rfl⟩

theorem writeLayer_error {t : Flat} {e : Failure}
    (failed : (p.cell >>= fun c => (t.write r c id).result) = .error e) :
    (writeLayer r t p id).1 = t ∧ (writeLayer r t p id).2.result = .error e := by
  unfold writeLayer Report.keeping
  rw [Report.result_bind, Report.result_lift, failed]
  exact ⟨rfl, rfl⟩

end

/-! ### Steps -/

inductive Act
  | write (layer : Nat) (p : Position) (id : StateId)
  | writeState (layer : Nat) (p : Position) (t : BlockState)
  | clone
  | register (d : Declaration)

end Section

/-- A section with its registry, and what was last written to each cell of its layers. -/
structure Layered where
  registry : Registry
  place : Section
  written : Nat → Cell → StateId

namespace Layered

def read (x : Layered) (layer : Nat) (p : Position) : Except Failure StateId :=
  x.place.read x.registry layer p

def readState (x : Layered) (layer : Nat) (p : Position) : Except Failure BlockState :=
  x.place.readState x.registry layer p

def after (x : Layered) (layer : Nat) (p : Position) (id : StateId) (y : Section × Report Unit) :
    Layered × Except Failure Unit :=
  let recorded := Scene.recorded (x.written layer) p id y.2.result
  (⟨x.registry, y.1, Function.update x.written layer recorded⟩, y.2.result)

def step (x : Layered) : Section.Act → Layered × Except Failure Unit
  | .write layer p id => x.after layer p id (x.place.write x.registry layer p id)
  | .writeState layer p t =>
    x.after layer p t.runtimeId (x.place.writeState x.registry layer p t)
  | .clone =>
    match x.place.clone with
    | .ok place => ({ x with place }, .ok ())
    | .error e => (x, .error e)
  | .register d =>
    if x.registry.isGlobal then
      match (x.registry.register d).result with
      | .ok (registry, _) => ({ x with registry }, .ok ())
      | .error e => (x, .error e)
    else (x, .ok ())

def run (x : Layered) (acts : List Section.Act) : Layered := acts.foldl (fun y a => (y.step a).1) x

/-- The layers show what was last written, and all of that is registered. -/
structure Sound (x : Layered) : Prop where
  registry : x.registry.Sound
  own : x.place.registry = x.registry.id
  shows : ∀ layer < 2, (x.place.flat x.registry layer).Shows (x.written layer)
  registered : ∀ layer < 2, ∀ c, x.registry.index.hasRuntimeId (x.written layer c) = true

variable {x : Layered} {layer : Nat} {p : Position} {id : StateId}

theorem after_error {y : Section × Report Unit} {e : Failure} (failed : y.2.result = .error e) :
    x.after layer p id y = ({ x with place := y.1 }, .error e) := by
  rw [after, failed, Scene.recorded, Function.update_eq_self]

theorem Sound.replace (sound : x.Sound) (low : layer < 2) {t : Flat} {content : Cell → StateId}
    (owner : t.registry = (x.place.flat x.registry layer).registry) (shows : t.Shows content)
    (known : ∀ c, x.registry.index.hasRuntimeId (content c) = true) :
    Sound ⟨x.registry, x.place.replace t layer, Function.update x.written layer content⟩ where
  registry := sound.registry
  own := by
    refine (Section.registry_replace fun first => ?_).trans sound.own
    rw [owner, first]
    rfl
  shows other lowToo := by
    dsimp only
    rw [Section.flat_replace t low lowToo, Function.update_apply]
    split
    · exact shows
    · exact sound.shows other lowToo
  registered other lowToo c := by
    dsimp only
    rw [Function.update_apply]
    split
    · exact known c
    · exact sound.registered other lowToo c

/-- How a write to one of the two layers can end. -/
inductive Ends (x : Layered) (layer : Nat) (p : Position) (id : StateId) :
    Layered × Except Failure Unit → Prop
  | dry (lacks : x.place.Lacks layer) (air : id = x.registry.air.runtimeId) :
      Ends x layer p id (x, .ok ())
  | wet {c : Cell} {t : Flat} (inside : p.cell = .ok c)
      (known : x.registry.index.hasRuntimeId id = true)
      (owner : t.registry = (x.place.flat x.registry layer).registry)
      (shows : t.Shows (Function.update (x.written layer) c id)) :
      Ends x layer p id (⟨x.registry, x.place.replace t layer,
        Function.update x.written layer (Function.update (x.written layer) c id)⟩, .ok ())
  | unknown {c : Cell} (inside : p.cell = .ok c)
      (unknown : x.registry.index.hasRuntimeId id = false) :
      Ends x layer p id ({ x with place := x.place.replace (x.place.flat x.registry layer) layer },
        .error (.error (.unknownRuntimeId id)))
  | outside {e : Failure} (outside : p.cell = .error e) :
      Ends x layer p id ({ x with place := x.place.replace (x.place.flat x.registry layer) layer },
        .error e)

theorem Sound.write_dry (sound : x.Sound) (lacks : x.place.Lacks layer) (p : Position) :
    x.step (.write layer p x.registry.air.runtimeId) = (x, .ok ()) := by
  have air : Scene.recorded (x.written layer) p x.registry.air.runtimeId (.ok ()) = x.written layer := by
    obtain ⟨rfl, missing⟩ := lacks
    have shows := sound.shows 1 (by decide)
    rw [Section.flat, missing] at shows
    unfold Scene.recorded
    cases p.cell with
    | error e => rfl
    | ok c =>
      have same := Except.ok.inj (((Flat.fresh_shows x.registry).read c).symm.trans (shows.read c))
      dsimp only
      rw [same, Function.update_eq_self]
  rw [step, Section.write_dry lacks, after, Report.result_pure, air, Function.update_eq_self]

theorem Sound.write_ends (sound : x.Sound) (low : layer < 2) (p : Position) (id : StateId) :
    x.Ends layer p id (x.step (.write layer p id)) := by
  have shows := sound.shows layer low
  by_cases dry : x.place.Lacks layer ∧ id = x.registry.air.runtimeId
  · obtain ⟨lacks, rfl⟩ := dry
    rw [sound.write_dry lacks]
    exact .dry lacks rfl
  · -- the layer that `flat` has is there from now on, even if the write fails
    rw [step, Section.write_flat low fun lacks air => dry ⟨lacks, air⟩]
    cases inside : p.cell with
    | error e =>
      have stopped : (p.cell >>= fun c =>
          ((x.place.flat x.registry layer).write x.registry c id).result) = .error e := by
        rw [inside]
        rfl
      obtain ⟨left, failed⟩ := Section.writeLayer_error stopped
      rw [after_error failed, left]
      exact .outside inside
    | ok c =>
      obtain ⟨granted, refused⟩ := Flat.write_spec sound.registry.index.limit_le shows
        (sound.registered layer low) c id
      have reached : (p.cell >>= fun c =>
          ((x.place.flat x.registry layer).write x.registry c id).result) =
            ((x.place.flat x.registry layer).write x.registry c id).result := by
        rw [inside, Outcome.ok_bind]
      cases known : x.registry.index.hasRuntimeId id with
      | true =>
        obtain ⟨t, wrote, owner, new⟩ := granted known
        obtain ⟨made, done⟩ := Section.writeLayer_ok (reached.trans wrote)
        rw [after]
        dsimp only
        rw [done, made, Scene.recorded, inside]
        exact .wet inside known owner new
      | false =>
        obtain ⟨left, failed⟩ := Section.writeLayer_error (reached.trans (refused known))
        rw [after_error failed, left]
        exact .unknown inside known

theorem writeState_own (sound : x.Sound) {t : BlockState} (own : t.registry = x.registry.id) :
    x.step (.writeState layer p t) = x.step (.write layer p t.runtimeId) := by
  rw [step, step, Section.writeState, if_pos (own.trans sound.own.symm)]

theorem writeState_foreign (sound : x.Sound) {t : BlockState} (foreign : t.registry ≠ x.registry.id) :
    x.step (.writeState layer p t) =
      (x, .error (.error (.invalidValue (.storage (.otherSectionRegistry t.text))))) := by
  have other : t.registry ≠ x.place.registry := fun same => foreign (same.trans sound.own)
  rw [step, Section.writeState, if_neg other, after_error (Report.result_fail _)]

theorem write_beyond (high : 2 ≤ layer) (p : Position) (id : StateId) :
    x.step (.write layer p id) = (x, .error (.error (.invalidValue (.storage (.layer layer))))) := by
  match layer with
  | n + 2 =>
    have refused : x.place.write x.registry (n + 2) p id =
      (x.place, Report.fail (.error (.invalidValue (.storage (.layer (n + 2)))))) := rfl
    rw [step, refused, after_error (Report.result_fail _)]

theorem Sound.clone (sound : x.Sound) :
    ∃ t, x.step .clone = ({ x with place := t }, .ok ()) ∧ Sound { x with place := t } := by
  obtain ⟨registry, ⟨blocks, fluids⟩, written⟩ := x
  obtain ⟨copy, copied, owner, same⟩ := Flat.clone_spec (sound.shows 0 (by decide))
  have poured := sound.shows 1 (by decide)
  have first : blocks.clone = .ok copy := copied
  have own : copy.registry = registry.id := owner.trans sound.own
  cases fluids with
  | none =>
    refine ⟨⟨copy, none⟩, ?_, sound.registry, own, fun layer low => ?_, sound.registered⟩
    · rw [step, Section.clone, first]
      rfl
    · match layer with
      | 0 => exact same
      | 1 => exact poured
  | some l =>
    obtain ⟨other, copiedToo, _, sameToo⟩ := Flat.clone_spec poured
    have second : l.clone = .ok other := copiedToo
    refine ⟨⟨copy, some other⟩, ?_, sound.registry, own, fun layer low => ?_, sound.registered⟩
    · rw [step, Section.clone, first, Outcome.ok_bind, Option.mapM_some, second]
      rfl
    · match layer with
      | 0 => exact same
      | 1 => exact sameToo

theorem Sound.register (sound : x.Sound) (d : Declaration) : (x.step (.register d)).1.Sound := by
  unfold Layered.step
  dsimp only
  split
  · split
    · rename_i r k registered
      have grown := Registry.register_sound sound.registry registered
      have grows : ∀ {id}, x.registry.index.hasRuntimeId id = true → r.index.hasRuntimeId id = true :=
        Registry.register_grows sound.registry registered
      obtain ⟨_, index, _, rfl, _⟩ := Registry.register_ok registered
      exact ⟨grown, sound.own, sound.shows, fun layer low c => grows (sound.registered layer low c)⟩
    · exact sound
  · exact sound

theorem Ends.sound (sound : x.Sound) (low : layer < 2) {y : Layered × Except Failure Unit}
    (ends : x.Ends layer p id y) : y.1.Sound := by
  have left : Sound { x with place := x.place.replace (x.place.flat x.registry layer) layer } := by
    have same := sound.replace low rfl (sound.shows layer low) (sound.registered layer low)
    rw [Function.update_eq_self] at same
    exact same
  cases ends with
  | dry => exact sound
  | wet _ known owner shows =>
    refine sound.replace low owner shows fun c => ?_
    rw [Function.update_apply]
    split
    · exact known
    · exact sound.registered layer low c
  | unknown => exact left
  | outside => exact left

theorem Sound.write (sound : x.Sound) (layer : Nat) (p : Position) (id : StateId) :
    (x.step (.write layer p id)).1.Sound := by
  by_cases low : layer < 2
  · exact (sound.write_ends low p id).sound sound low
  · rw [write_beyond (Nat.not_lt.mp low)]
    exact sound

/-- Whatever is done keeps the layers in line with what was last written. -/
theorem Sound.step (sound : x.Sound) (a : Section.Act) : (x.step a).1.Sound := by
  cases a with
  | write layer p id => exact sound.write layer p id
  | writeState layer p t =>
    by_cases own : t.registry = x.registry.id
    · rw [writeState_own sound own]
      exact sound.write layer p t.runtimeId
    · rw [writeState_foreign sound own]
      exact sound
  | clone =>
    obtain ⟨t, copied, same⟩ := sound.clone
    rw [copied]
    exact same
  | register d => exact sound.register d

theorem Sound.run (sound : x.Sound) (acts : List Section.Act) : (x.run acts).Sound := by
  induction acts generalizing x with
  | nil => exact sound
  | cons a rest ih => exact ih (sound.step a)

/-! ### What is seen of a section -/

/-- What is seen of a section that is a map from layers and cells to states. -/
structure Maps (x : Layered) : Prop where
  read : ∀ layer < 2, ∀ p c, p.cell = .ok c → x.read layer p = .ok (x.written layer c)
  readState : ∀ layer < 2, ∀ p c, p.cell = .ok c → ∃ t, x.readState layer p = .ok t ∧
    x.registry.index.state (x.written layer c) = .ok t
  missing : x.place.fluids = none → ∀ p, x.read 1 p = .ok x.registry.air.runtimeId
  write : ∀ layer < 2, ∀ p c, p.cell = .ok c → ∀ id, (x.step (.write layer p id)).2 =
    if x.registry.index.hasRuntimeId id = true then .ok () else .error (.error (.unknownRuntimeId id))
  own : ∀ t : BlockState, t.registry = x.registry.id →
    ∀ layer p, x.step (.writeState layer p t) = x.step (.write layer p t.runtimeId)
  foreign : ∀ layer < 2, ∀ p c, p.cell = .ok c → ∀ t : BlockState, t.registry ≠ x.registry.id ↔
    ∃ misuse, (x.step (.writeState layer p t)).2 = .error (.error (.invalidValue misuse))
  beyond : ∀ layer ≥ 2, ∀ p, ∃ misuse, x.read layer p = .error (.error (.invalidValue misuse)) ∧
    x.readState layer p = .error (.error (.invalidValue misuse)) ∧
    ∀ id, x.step (.write layer p id) = (x, .error (.error (.invalidValue misuse)))
  beyondState : ∀ layer ≥ 2, ∀ p t, ∃ misuse,
    x.step (.writeState layer p t) = (x, .error (.error (.invalidValue misuse)))
  dry : x.place.fluids = none → ∀ p, x.step (.write 1 p x.registry.air.runtimeId) = (x, .ok ())
  wet : ∀ p id, id ≠ x.registry.air.runtimeId → (x.step (.write 1 p id)).2 = .ok () →
    (x.step (.write 1 p id)).1.place.fluids.isSome = true
  clone : (x.step .clone).2 = .ok ()

theorem Sound.read (sound : x.Sound) (low : layer < 2) {c : Cell} (inside : p.cell = .ok c) :
    x.read layer p = .ok (x.written layer c) := by
  rw [Layered.read, Section.read_flat low inside, (sound.shows layer low).read]
  rfl

theorem Sound.readState (sound : x.Sound) (low : layer < 2) {c : Cell} (inside : p.cell = .ok c) :
    ∃ t, x.readState layer p = .ok t ∧ x.registry.index.state (x.written layer c) = .ok t := by
  have faithful := sound.registry.index
  have air := (Index.state_eq_ok_iff faithful).mpr ⟨sound.registry.air, rfl⟩
  have known := sound.registered layer low c
  obtain ⟨_, t, _, state, _⟩ | ⟨unknown, _⟩ := Registry.state_cases faithful (x.written layer c)
  · exact ⟨t, Section.readState_flat low inside air ((sound.shows layer low).read c) state, state⟩
  · rw [known] at unknown
    cases unknown

theorem Sound.write_result (sound : x.Sound) (low : layer < 2) {c : Cell} (inside : p.cell = .ok c)
    (id : StateId) : (x.step (.write layer p id)).2 =
      if x.registry.index.hasRuntimeId id = true then .ok ()
      else .error (.error (.unknownRuntimeId id)) := by
  have ends := sound.write_ends low p id
  generalize x.step (.write layer p id) = y at ends ⊢
  cases ends with
  | dry _ air =>
    rw [air]
    exact (if_pos sound.registry.knows_air).symm
  | wet _ known => exact (if_pos known).symm
  | unknown _ unknown =>
    rw [unknown]
    exact (if_neg Bool.false_ne_true).symm
  | outside outside =>
    rw [inside] at outside
    cases outside

theorem Sound.write_wet (sound : x.Sound) (p : Position) (other : id ≠ x.registry.air.runtimeId)
    (done : (x.step (.write 1 p id)).2 = .ok ()) :
    (x.step (.write 1 p id)).1.place.fluids.isSome = true := by
  have ends := sound.write_ends Nat.one_lt_two p id
  generalize x.step (.write 1 p id) = y at ends done ⊢
  cases ends with
  | dry _ air => exact absurd air other
  | wet => rfl
  | unknown => cases done
  | outside => cases done

theorem Sound.maps (sound : x.Sound) : x.Maps where
  read _ low _ _ inside := sound.read low inside
  readState _ low _ _ inside := sound.readState low inside
  missing none p := by
    rw [Layered.read, Section.read, Section.layer, none]
    rfl
  write _ low _ _ inside id := sound.write_result low inside id
  own _ own _ _ := writeState_own sound own
  foreign layer low p c inside t := by
    constructor
    · intro foreign
      rw [writeState_foreign sound foreign]
      exact ⟨_, rfl⟩
    · intro refused own
      obtain ⟨misuse, refused⟩ := refused
      rw [writeState_own sound own, sound.write_result low inside] at refused
      split at refused
      · cases refused
      · cases refused
  beyond layer high p := by
    match layer with
    | n + 2 => exact ⟨_, rfl, rfl, write_beyond high p⟩
  beyondState layer high p t := by
    by_cases own : t.registry = x.registry.id
    · rw [writeState_own sound own, write_beyond high]
      exact ⟨_, rfl⟩
    · rw [writeState_foreign sound own]
      exact ⟨_, rfl⟩
  dry none p := sound.write_dry ⟨rfl, none⟩ p
  wet p _ other done := sound.write_wet p other done
  clone := by
    obtain ⟨_, copied, _⟩ := sound.clone
    rw [copied]

inductive Origin (r : Registry) : Section → (Nat → Cell → StateId) → Prop
  | fresh : Origin r (.fresh r) fun _ _ => r.air.runtimeId
  | upgraded {s : Legacy} {t : Section} (h : (Section.ofLegacy r s).result = .ok t) :
      Origin r t fun layer c =>
        if layer = 0 then r.fluids.strip (s.stateAt r c) else r.fluidOrAir (s.stateAt r c)

theorem start_sound {r : Registry} (splits : r.Splits) {s : Section} {content : Nat → Cell → StateId}
    (origin : Origin r s content) : Sound ⟨r, s, content⟩ := by
  cases origin with
  | fresh =>
    refine ⟨splits.sound, rfl, fun layer low => ?_, fun _ _ _ => splits.sound.knows_air⟩
    match layer with
    | 0 => exact Flat.fresh_shows r
    | 1 => exact Flat.fresh_shows r
  | @upgraded s t h =>
    rw [Section.ofLegacy, Report.result_bind] at h
    obtain ⟨⟨blocks, fluids⟩, run, h⟩ := Outcome.bind_ok h
    cases h
    obtain ⟨owner, drained, poured, known⟩ := Legacy.upgrade_shows splits run
    refine ⟨splits.sound, owner, fun layer low => ?_, fun layer low c => ?_⟩
    · match layer with
      | 0 => exact drained
      | 1 => exact poured
    · match layer with
      | 0 => exact splits.strip _ (known c)
      | 1 => exact splits.fluidOrAir_known _

/-- A section is a map throughout every run. -/
theorem run_maps {r : Registry} (built : r.Built) {s : Section} {content : Nat → Cell → StateId}
    (origin : Origin r s content) (acts : List Section.Act) :
    (run ⟨r, s, content⟩ acts).Maps :=
  ((start_sound built.splits origin).run acts).maps

theorem run_maps_lamp : ∃ r, Registry.Global r ∧
    (run ⟨r, .fresh r, fun _ _ => r.air.runtimeId⟩ [.write 1 ⟨0, 0, 0⟩ 0,
      .register ⟨.standard "lamp", [], none, none⟩, .write 1 ⟨0, 0, 0⟩ 1, .clone,
      .write 0 ⟨15, 7, 3⟩ 1]).Maps := by
  obtain ⟨r, made⟩ := Registry.newGlobal_ok 0
  exact ⟨r, .start made, run_maps (.isGlobal (.start made)) .fresh _⟩

/-! ### Writes that fail -/

/-- What a write that fails leaves of a section. A layer that was made for it stays. -/
structure Withstands (x : Layered) : Prop where
  fails : ∀ layer p c id, p.cell = .ok c → ((∃ e, (x.step (.write layer p id)).2 = .error e) ↔
    2 ≤ layer ∨ x.registry.index.hasRuntimeId id = false)
  write : ∀ layer p c id e, p.cell = .ok c → (x.step (.write layer p id)).2 = .error e →
    (x.step (.write layer p id)).1 =
      if x.place.Lacks layer then
        { x with place := { x.place with fluids := some (.fresh x.registry) } }
      else x
  writeState : ∀ layer p c (t : BlockState) e, p.cell = .ok c →
    (t.registry = x.registry.id → x.registry.index.hasRuntimeId t.runtimeId = true) →
    (x.step (.writeState layer p t)).2 = .error e → (x.step (.writeState layer p t)).1 = x
  read : ∀ layer p c id e, p.cell = .ok c → (x.step (.write layer p id)).2 = .error e →
    ∀ other q d, q.cell = .ok d →
      (x.step (.write layer p id)).1.read other q = x.read other q

theorem Sound.write_failed (sound : x.Sound) {c : Cell} (inside : p.cell = .ok c) {e : Failure}
    (failed : (x.step (.write layer p id)).2 = .error e) : (x.step (.write layer p id)).1 =
      if x.place.Lacks layer then
        { x with place := { x.place with fluids := some (.fresh x.registry) } }
      else x := by
  by_cases low : layer < 2
  · have ends := sound.write_ends low p id
    generalize x.step (.write layer p id) = y at ends failed ⊢
    cases ends with
    | dry => cases failed
    | wet => cases failed
    | unknown =>
      rw [Section.replace_flat low]
      split <;> rfl
    | outside outside =>
      rw [inside] at outside
      cases outside
  · have there : ¬ x.place.Lacks layer := fun lacks => low (lacks.1 ▸ Nat.lt_succ_self 1)
    rw [write_beyond (Nat.not_lt.mp low), if_neg there]

theorem Sound.fails_iff (sound : x.Sound) {c : Cell} (inside : p.cell = .ok c) (layer : Nat)
    (id : StateId) : (∃ e, (x.step (.write layer p id)).2 = .error e) ↔
      2 ≤ layer ∨ x.registry.index.hasRuntimeId id = false := by
  by_cases low : layer < 2
  · rw [sound.write_result low inside]
    cases x.registry.index.hasRuntimeId id with
    | true => simp [low]
    | false => simp
  · rw [write_beyond (Nat.not_lt.mp low)]
    exact iff_of_true ⟨_, rfl⟩ (Or.inl (Nat.not_lt.mp low))

theorem Sound.withstands (sound : x.Sound) : x.Withstands where
  fails layer _ _ id inside := sound.fails_iff inside layer id
  write _ _ _ _ _ inside failed := sound.write_failed inside failed
  writeState layer p c t e inside known failed := by
    by_cases own : t.registry = x.registry.id
    · rw [writeState_own sound own] at failed ⊢
      by_cases low : layer < 2
      · rw [sound.write_result low inside, if_pos (known own)] at failed
        cases failed
      · rw [write_beyond (Nat.not_lt.mp low)]
    · rw [writeState_foreign sound own]
  read layer p c id e inside failed other q d there := by
    have left := sound.write_failed inside failed
    have next := sound.write layer p id
    rw [left] at next ⊢
    split at next
    · rename_i lacks
      rw [if_pos lacks]
      by_cases low : other < 2
      · rw [next.read low there, sound.read low there]
      · match other with
        | n + 2 => rfl
    · rename_i there
      rw [if_neg there]

/-- A write that fails leaves all that can be read, and the section as well unless it made a layer. -/
theorem run_withstands {r : Registry} (built : r.Built) {s : Section} {content : Nat → Cell → StateId}
    (origin : Origin r s content) (acts : List Section.Act) :
    (run ⟨r, s, content⟩ acts).Withstands :=
  ((start_sound built.splits origin).run acts).withstands

theorem run_withstands_lamp : ∃ r, Registry.Global r ∧
    (run ⟨r, .fresh r, fun _ _ => r.air.runtimeId⟩
      [.register ⟨.standard "lamp", [], none, none⟩, .write 0 ⟨15, 7, 3⟩ 1]).Withstands := by
  obtain ⟨r, made⟩ := Registry.newGlobal_ok 0
  exact ⟨r, .start made, run_withstands (.isGlobal (.start made)) .fresh _⟩

/-- A write that fails can leave a layer that was not there. -/
theorem not_missing_after_failure : ¬ ∀ (r : Registry) (s : Section) (content : Nat → Cell → StateId)
    (acts : List Section.Act), r.Built → Origin r s content → ∀ layer p c id e, p.cell = .ok c →
    ((run ⟨r, s, content⟩ acts).step (.write layer p id)).2 = .error e →
    (run ⟨r, s, content⟩ acts).place.fluids = none →
    ((run ⟨r, s, content⟩ acts).step (.write layer p id)).1.place.fluids = none := by
  intro keeps
  obtain ⟨r, made⟩ := Registry.newGlobal_ok 0
  have built : r.Built := .isGlobal (.start made)
  have sound := start_sound built.splits .fresh
  have unknown : r.index.hasRuntimeId 1 = false := by
    cases made
    decide
  have failed := sound.write_result Nat.one_lt_two (Cell.cell_position 0) 1
  rw [unknown, if_neg Bool.false_ne_true] at failed
  have left := sound.write_failed (Cell.cell_position 0) failed
  have missing := keeps r _ _ [] built .fresh 1 _ 0 1 _ (Cell.cell_position 0) failed rfl
  rw [run, List.foldl_nil, left, if_pos ⟨rfl, rfl⟩] at missing
  cases missing

end Layered

end Voxel
