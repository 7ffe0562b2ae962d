import Voxel.Proofs.Storage.Upgrade
import Voxel.Proofs.Storage.View

/-!
# Writes through views

A write through a view lands in the layer behind it, as the state of the version that its number comes
back as. `Layout.write_cases` says what a write of a registered state does to either layout, `step_write`
what a write through a view does, and `run_lands` what is seen of a view throughout a run in which the
global registry grows.
-/

namespace Voxel

namespace Version

variable {id : RegistryId} {d : VersionDescription} {global r : Registry}

theorem fromGlobal_known (registered : Registry.Global global)
    (built : (build id d global).result = .ok r) (g : StateId) :
    r.index.hasRuntimeId (r.fromGlobal g) = true := by
  have sound := (Registry.Built.ofVersion built).sound
  rw [fromGlobal_eq registered built]
  cases chosen : preferred (d.sources global r g) with
  | none => exact sound.knows_air
  | some s =>
    obtain ⟨linked, _⟩ := mem_sources.mp (mem_of_preferred chosen)
    obtain ⟨member, _⟩ := (mem_linked (build_ok built).2).mp linked
    exact (Index.hasRuntimeId_eq_true sound.index).mpr ⟨s, member, rfl⟩

theorem exists_returned (registered : Registry.Global global)
    (built : (build id d global).result = .ok r) (g : StateId) :
    ∃ u, r.index.state (r.fromGlobal g) = .ok u := by
  have known := fromGlobal_known registered built g
  obtain ⟨_, u, _, state, _⟩ | ⟨unknown, _⟩ :=
    Registry.state_cases (Registry.Built.ofVersion built).sound.index (r.fromGlobal g)
  · exact ⟨u, state⟩
  · rw [known] at unknown
    cases unknown

theorem legacy_fits (built : (build id d global).result = .ok r) {u : BlockState}
    (member : u ∈ r.index.states) {x : LegacyPair} (legacy : u.legacy = some x) :
    (Legacy.Entry.pair x).Fits := by
  obtain ⟨wellFormed, represents⟩ := build_ok built
  obtain ⟨e, inside, s, declared, _, matches_⟩ := represents.tables.declared member
  have block := wellFormed.blocks e inside
  obtain ⟨old, given, low⟩ := block.legacyId
  rw [matches_.legacy, given] at legacy
  obtain ⟨m, data, rfl⟩ := Option.map_eq_some_iff.mp legacy
  constructor
  · intro n same
    obtain rfl := Option.some.inj same
    exact low
  · intro bits same
    obtain rfl := Option.some.inj same
    exact block.data_lt declared data

end Version

/-! ### Layers -/

namespace Layout

/-- The states of a flat layer are registered. Those of the old layout are looked up when read. -/
def Sound (r : Registry) : Layout → Prop
  | flat s => s.Sound r
  | legacy _ => True

/-- Whether a layer has room for a state. The old layout has none without an old number and data. -/
def Takes (u : BlockState) : Layout → Prop
  | flat _ => True
  | legacy _ => u.legacy ≠ none

structure Written (r : Registry) (l : Layout) (p : Position) (id : StateId) (m : Layout) : Prop where
  sound : m.Sound r
  here : m.read r p = .ok id
  others : ∀ q, q ≠ p → m.read r q = l.read r q

theorem read_of_cells {r : Registry} {l m : Layout} {c : Cell}
    (same : ∀ e, e ≠ c → m.read r e.position = l.read r e.position) (q : Position)
    (other : q ≠ c.position) : m.read r q = l.read r q := by
  cases inside : q.cell with
  | error f => rw [read_outside inside, read_outside inside]
  | ok e =>
    obtain rfl := Cell.eq_position inside
    exact same e fun equal => other (congrArg Cell.position equal)

section

variable {r : Registry} (sound : r.Sound) {p : Position} {c : Cell} (inside : p.cell = .ok c)
  {id : StateId} {u : BlockState} (state : r.index.state id = .ok u)
include sound inside state

theorem write_flat {s : Flat} (shown : s.Sound r) :
    ∃ m, ((flat s).write r p id).result = .ok m ∧ Written r (flat s) p id m := by
  obtain rfl := Cell.eq_position inside
  have known : r.index.hasRuntimeId id = true :=
    (Index.hasRuntimeId_eq_true sound.index).mpr ⟨u, (Index.state_eq_ok_iff sound.index).mp state⟩
  obtain ⟨_, t, wrote, shown, here, others⟩ | ⟨unknown, _⟩ :=
    shown.write sound.index.limit_le c id
  swap
  · rw [known] at unknown
    cases unknown
  have run : ((flat s).write r c.position id).result = .ok (flat t) := by
    rw [Layout.write, Report.result_bind, Report.result_lift, inside, Outcome.ok_bind,
      Report.result_map, wrote]
    rfl
  refine ⟨flat t, run, shown, ?_, read_of_cells fun e other => ?_⟩
  · rw [read_flat inside, here]
    rfl
  · have there := e.cell_position
    rw [read_flat there, read_flat there, others e other]

theorem written_placed {s : Legacy} {x : LegacyPair} (legacy : u.legacy = some x)
    (fits : (Legacy.Entry.pair x).Fits) :
    Written r (Layout.legacy s) p id (Layout.legacy (s.placed c (.pair x))) := by
  obtain rfl := Cell.eq_position inside
  obtain ⟨member, own⟩ := (Index.state_eq_ok_iff sound.index).mp state
  have found := (Index.legacyRuntimeId_eq_ok_iff sound.index).mpr ⟨u, member, legacy, own⟩
  have pair := fun e => s.pairAt_placed c e fits
  refine ⟨trivial, ?_, read_of_cells fun e other => ?_⟩
  · rw [read_legacy inside, Legacy.read, pair, if_pos rfl]
    exact congrArg liftM found
  · have there := e.cell_position
    rw [read_legacy there, read_legacy there, Legacy.read, pair, if_neg other]
    rfl

end

theorem result_write_legacy {r : Registry} (s : Legacy) (p : Position) {id : StateId} {u : BlockState}
    (state : r.index.state id = .ok u) : ((legacy s).write r p id).result =
      match u.legacy with
      | some x => legacy <$> (s.put p (.pair x)).result
      | none => .error (.error (.invalidValue (.storage (.noLegacyPair u.text)))) := by
  rw [Layout.write, Report.result_map, Legacy.write, Report.result_bind, Report.result_liftError,
    state, Failure.lift_ok, Outcome.ok_bind]
  cases u.legacy <;> rfl

/-- What a write of a registered state does. It is refused if the layer does not take the state. -/
theorem write_cases {r : Registry} (sound : r.Sound) {l : Layout} (shown : l.Sound r) (p : Position)
    {id : StateId} {u : BlockState} (state : r.index.state id = .ok u)
    (fits : ∀ x, u.legacy = some x → (Legacy.Entry.pair x).Fits) :
    (l.Takes u ∧ (∃ c, p.cell = .ok c) ∧ ∃ m, (l.write r p id).result = .ok m ∧ Written r l p id m) ∨
    (l.Takes u ∧ ∃ e, p.cell = .error e ∧ (l.write r p id).result = .error e) ∨
    (¬ l.Takes u ∧ ∃ misuse, (l.write r p id).result = .error (.error (.invalidValue misuse))) := by
  cases l with
  | flat s =>
    cases inside : p.cell with
    | ok c => exact Or.inl ⟨trivial, ⟨c, rfl⟩, write_flat sound inside state shown⟩
    | error e =>
      refine Or.inr (Or.inl ⟨trivial, e, rfl, ?_⟩)
      rw [Layout.write, Report.result_bind, Report.result_lift, inside]
      rfl
  | legacy s =>
    rw [result_write_legacy s p state]
    cases pair : u.legacy with
    | some x =>
      have takes : (legacy s).Takes u := fun none => Option.some_ne_none x (pair.symm.trans none)
      obtain ⟨_, put⟩ | ⟨tight, _⟩ := s.put_cases p (.pair x)
      swap
      · exact absurd (fits x pair) tight
      dsimp only
      rw [put]
      cases inside : p.cell with
      | ok c =>
        exact Or.inl ⟨takes, ⟨c, rfl⟩, _, rfl, written_placed sound inside state pair (fits x pair)⟩
      | error e => exact Or.inr (Or.inl ⟨takes, e, rfl, rfl⟩)
    | none => exact Or.inr (Or.inr ⟨fun takes => takes pair, _, rfl⟩)

/-! ### Layers of a version -/

/-- The layers there are in a program, and what becomes of them. -/
inductive Reached (r : Registry) : Layout → Prop
  | start {s : Flat} {content : Cell → StateId} (origin : Scene.Origin r s content) : Reached r (flat s)
  | legacy (s : Legacy) : Reached r (legacy s)
  | blocks {s : Legacy} {blocks : Flat} {fluids : Option Flat}
      (upgraded : (s.upgrade r).result = .ok (blocks, fluids)) : Reached r (flat blocks)
  | fluids {s : Legacy} {blocks fluids : Flat}
      (upgraded : (s.upgrade r).result = .ok (blocks, some fluids)) : Reached r (flat fluids)
  | write {l m : Layout} {p : Position} {id : StateId} (before : Reached r l)
      (wrote : (l.write r p id).result = .ok m) : Reached r m
  | clone {l m : Layout} (before : Reached r l) (copied : l.clone = .ok m) : Reached r m

theorem clone_sound {r : Registry} {l : Layout} (shown : l.Sound r) :
    ∃ m, l.clone = .ok m ∧ m.Sound r ∧ ∀ p, m.read r p = l.read r p := by
  cases l with
  | flat s =>
    obtain ⟨content, shows, registered⟩ := shown
    obtain ⟨t, copied, _, same⟩ := Flat.clone_spec shows
    refine ⟨flat t, by rw [clone, copied]; rfl, ⟨content, same, registered⟩, fun p => ?_⟩
    cases inside : p.cell with
    | ok c => rw [read_flat inside, read_flat inside, same.read, shows.read]
    | error e => rw [read_outside inside, read_outside inside]
  | legacy s => exact ⟨legacy s, rfl, trivial, fun p => rfl⟩

theorem write_sound {r : Registry} (sound : r.Sound) {l m : Layout} (shown : l.Sound r) {p : Position}
    {id : StateId} (wrote : (l.write r p id).result = .ok m) : m.Sound r := by
  cases l with
  | flat s =>
    rw [Layout.write, Report.result_bind, Report.result_lift] at wrote
    obtain ⟨c, _, wrote⟩ := Outcome.bind_ok wrote
    rw [Report.result_map] at wrote
    obtain ⟨t, flat, rfl⟩ := Outcome.map_ok wrote
    obtain ⟨_, u, same, shown, _⟩ | ⟨_, refused⟩ := shown.write sound.index.limit_le c id
    · obtain rfl := Except.ok.inj (flat.symm.trans same)
      exact shown
    · cases flat.symm.trans refused
  | legacy s =>
    rw [Layout.write, Report.result_map] at wrote
    obtain ⟨t, _, rfl⟩ := Outcome.map_ok wrote
    trivial

theorem Reached.sound {r : Registry} (splits : r.Splits) {l : Layout} (reached : Reached r l) :
    l.Sound r := by
  induction reached with
  | start origin =>
    obtain ⟨_, ⟨s, same, shows⟩, registered⟩ := Scene.start_sound splits.sound origin
    cases same
    exact ⟨_, shows, registered⟩
  | legacy s => trivial
  | blocks upgraded => exact (Legacy.upgrade_sound splits upgraded).1
  | fluids upgraded => exact (Legacy.upgrade_sound splits upgraded).2 _ rfl
  | write before wrote ih => exact write_sound splits.sound ih wrote
  | clone before copied ih =>
    obtain ⟨n, same, sound, _⟩ := clone_sound ih
    obtain rfl := Except.ok.inj (copied.symm.trans same)
    exact sound

end Layout

/-! ### Views -/

/-- A view of a layer, and the global registry as it is now. -/
structure Viewing where
  seen : Registry
  storage : Storage

namespace Viewing

def read (r : Registry) (x : Viewing) (p : Position) : Except Failure StateId :=
  x.storage.read ⟨r, x.seen⟩ p

def inner (r : Registry) (x : Viewing) (p : Position) : Except Failure StateId :=
  x.storage.inner.read ⟨r, r⟩ p

def step (r : Registry) (x : Viewing) : Act → Viewing × Except Failure Unit
  | .write p g =>
    let (storage, outcome) := Report.keeping x.storage (x.storage.write ⟨r, x.seen⟩ p g)
    (⟨x.seen, storage⟩, outcome.result)
  | .clone =>
    match x.storage.clone with
    | .ok storage => (⟨x.seen, storage⟩, .ok ())
    | .error e => (x, .error e)
  | .register d => (⟨x.seen.attempt d, x.storage⟩, (fun _ => ()) <$> (x.seen.register d).result)

def run (r : Registry) (x : Viewing) (acts : List Act) : Viewing :=
  acts.foldl (fun y a => (y.step r a).1) x

/-- The view is one of a layer of registered states, and the global registry has grown from what it
was when the version was built. -/
structure Sound (global r : Registry) (x : Viewing) : Prop where
  seen : ∃ added, x.seen = global.attempts added
  storage : ∃ l, x.storage = Storage.viewOf r l ∧ l.Sound r

theorem result_write_viewOf (r : Registry) (l : Layout) (seen : Registry) (p : Position)
    (g : StateId) : ((Storage.viewOf r l).write ⟨r, seen⟩ p g).result =
      if seen.index.hasRuntimeId g = true then
        Storage.viewOf r <$> (l.write r p (r.fromGlobal g)).result
      else .error (.error (.unknownRuntimeId g)) := by
  unfold Storage.write Storage.viewOf
  dsimp only
  cases seen.index.hasRuntimeId g with
  | true =>
    rw [if_pos rfl]
    simp only [Bool.not_true, Bool.false_eq_true, if_false, Report.result_bind]
    cases (l.write r p (r.fromGlobal g)).result <;> rfl
  | false => rfl

theorem inner_viewOf (r : Registry) (l : Layout) (seen : Registry) (p : Position) :
    inner r ⟨seen, Storage.viewOf r l⟩ p = l.read r p := by
  show (l.read r p >>= fun id => pure id) = _
  cases l.read r p <;> rfl

theorem step_write_eq (r : Registry) (x : Viewing) (p : Position) (g : StateId) :
    x.step r (.write p g) = match (x.storage.write ⟨r, x.seen⟩ p g).result with
      | .ok storage => (⟨x.seen, storage⟩, .ok ())
      | .error e => (x, .error e) := by
  rw [step, Report.keeping]
  cases (x.storage.write ⟨r, x.seen⟩ p g).result <;> rfl

/-- How a write through a view of a layer can end, if its number comes back as a given state. -/
inductive Ends (r seen : Registry) (l : Layout) (p : Position) (g : StateId) (u : BlockState) :
    Viewing × Except Failure Unit → Prop
  | unregistered (absent : seen.index.hasRuntimeId g = false) :
      Ends r seen l p g u (⟨seen, Storage.viewOf r l⟩, .error (.error (.unknownRuntimeId g)))
  | written {c : Cell} {m : Layout} (known : seen.index.hasRuntimeId g = true) (takes : l.Takes u)
      (inside : p.cell = .ok c) (written : l.Written r p (r.fromGlobal g) m) :
      Ends r seen l p g u (⟨seen, Storage.viewOf r m⟩, .ok ())
  | outside {e : Failure} (known : seen.index.hasRuntimeId g = true) (takes : l.Takes u)
      (outside : p.cell = .error e) : Ends r seen l p g u (⟨seen, Storage.viewOf r l⟩, .error e)
  | refused {misuse : Misuse} (known : seen.index.hasRuntimeId g = true) (other : ¬ l.Takes u) :
      Ends r seen l p g u (⟨seen, Storage.viewOf r l⟩, .error (.error (.invalidValue misuse)))

section

variable {id : RegistryId} {d : VersionDescription} {global r : Registry}
  (registered : Registry.Global global) (built : (Version.build id d global).result = .ok r)
include registered built

omit registered in
theorem step_ends {l : Layout} (shown : l.Sound r) (seen : Registry) (p : Position) {g : StateId}
    {u : BlockState} (state : r.index.state (r.fromGlobal g) = .ok u) :
    Ends r seen l p g u (step r ⟨seen, Storage.viewOf r l⟩ (.write p g)) := by
  have sound := (Registry.Built.ofVersion built).sound
  have member := ((Index.state_eq_ok_iff sound.index).mp state).1
  rw [step_write_eq, result_write_viewOf]
  cases known : seen.index.hasRuntimeId g with
  | false => exact .unregistered known
  | true =>
    rw [if_pos rfl]
    obtain ⟨takes, ⟨c, inside⟩, m, wrote, written⟩ | ⟨takes, e, outside, failed⟩ |
        ⟨other, misuse, failed⟩ :=
      Layout.write_cases sound shown p state fun x => Version.legacy_fits built member
    · rw [wrote]
      exact .written known takes inside written
    · rw [failed]
      exact .outside known takes outside
    · rw [failed]
      exact .refused known other

theorem Sound.step {x : Viewing} (sound : x.Sound global r) (a : Act) :
    (x.step r a).1.Sound global r := by
  obtain ⟨seen, storage⟩ := x
  obtain ⟨grown, l, same, shown⟩ := sound
  obtain rfl : storage = Storage.viewOf r l := same
  cases a with
  | write p g =>
    obtain ⟨u, state⟩ := Version.exists_returned registered built g
    generalize ended : Viewing.step r ⟨seen, Storage.viewOf r l⟩ (.write p g) = y
    have ends := step_ends built shown seen p state
    rw [ended] at ends
    cases ends with
    | written known takes inside written => exact ⟨grown, _, rfl, written.sound⟩
    | unregistered | outside | refused => exact ⟨grown, _, rfl, shown⟩
  | clone =>
    obtain ⟨m, copied, after, _⟩ := Layout.clone_sound shown
    have run : (Storage.viewOf r l).clone = .ok (Storage.viewOf r m) := by
      rw [Storage.clone, Storage.viewOf, copied]
      rfl
    rw [Viewing.step, run]
    exact ⟨grown, m, rfl, after⟩
  | register d =>
    obtain ⟨added, rfl⟩ := grown
    exact ⟨⟨added ++ [d], (Registry.attempts_append global added [d]).symm⟩, l, rfl, shown⟩

theorem Sound.run {x : Viewing} (sound : x.Sound global r) (acts : List Act) :
    (x.run r acts).Sound global r := by
  induction acts generalizing x with
  | nil => exact sound
  | cons a rest ih => exact ih (sound.step registered built a)

end

/-- What is seen of a write through a view, of what is there after it and of its outcome. -/
structure Lands (d : VersionDescription) (global r : Registry) (x : Viewing) (p : Position) (g : StateId)
    (y : Viewing × Except Failure Unit) : Prop where
  unregistered_iff : y.2 = .error (.error (.unknownRuntimeId g)) ↔ x.seen.index.hasRuntimeId g = false
  unregistered : ∀ h, y.2 = .error (.error (.unknownRuntimeId h)) → h = g
  returned : ∃ u, r.index.state (r.fromGlobal g) = .ok u ∧ ∀ c, p.cell = .ok c →
    x.seen.index.hasRuntimeId g = true → (y.2 = .ok () ↔ x.storage.layout.Takes u)
  failed : ∀ f, y.2 = .error f → y.1 = x
  here : y.2 = .ok () → y.1.inner r p = .ok (r.fromGlobal g) ∧
    y.1.read r p = .ok (r.toGlobal (r.fromGlobal g)) ∧
    ((∃ s ∈ d.linked global r, r.toGlobal s.runtimeId = g) → y.1.read r p = .ok g)
  others : y.2 = .ok () → ∀ q, q ≠ p → y.1.inner r q = x.inner r q ∧ y.1.read r q = x.read r q

section

variable {id : RegistryId} {d : VersionDescription} {global r : Registry}
  (registered : Registry.Global global) (built : (Version.build id d global).result = .ok r)
include registered built

theorem lands_of_written {l m : Layout} (seen : Registry) {p : Position} {g : StateId}
    {u : BlockState} (state : r.index.state (r.fromGlobal g) = .ok u)
    (known : seen.index.hasRuntimeId g = true) (takes : l.Takes u)
    (written : l.Written r p (r.fromGlobal g) m) :
    Lands d global r ⟨seen, Storage.viewOf r l⟩ p g (⟨seen, Storage.viewOf r m⟩, .ok ()) where
  unregistered_iff := iff_of_false (by simp) (by simp [known])
  unregistered h same := by cases same
  returned := ⟨u, state, fun _ _ _ => iff_of_true rfl takes⟩
  failed f same := by cases same
  here _ := by
    have read : read r ⟨seen, Storage.viewOf r m⟩ p = .ok (r.toGlobal (r.fromGlobal g)) := by
      rw [read, Storage.read_viewOf, written.here]
      rfl
    refine ⟨(inner_viewOf r m seen p).trans written.here, read, fun reached => ?_⟩
    obtain ⟨s, linked, same⟩ := reached
    have source : d.sources global r g ≠ [] :=
      List.ne_nil_of_mem (Version.mem_sources.mpr ⟨linked, same⟩)
    rw [read, Version.toGlobal_fromGlobal registered built source]
  others _ q other := by
    have same := written.others q other
    constructor
    · rw [inner_viewOf, inner_viewOf, same]
    · rw [read, read, Storage.read_viewOf, Storage.read_viewOf, same]

theorem Sound.lands {x : Viewing} (sound : x.Sound global r) (p : Position) (g : StateId) :
    x.Lands d global r p g (x.step r (.write p g)) := by
  obtain ⟨seen, storage⟩ := x
  obtain ⟨_, l, same, shown⟩ := sound
  obtain rfl : storage = Storage.viewOf r l := same
  obtain ⟨u, state⟩ := Version.exists_returned registered built g
  have ends := step_ends built shown seen p state
  generalize Viewing.step r ⟨seen, Storage.viewOf r l⟩ (.write p g) = y at ends ⊢
  cases ends with
  | unregistered absent =>
    refine ⟨iff_of_true rfl absent, fun h same => ?_, ⟨u, state, fun c _ known => ?_⟩, fun _ _ => rfl,
      nofun, nofun⟩
    · cases same
      rfl
    · rw [absent] at known
      cases known
  | written known takes inside written =>
    exact lands_of_written registered built seen state known takes written
  | outside known takes outside =>
    obtain rfl := Position.cell_error outside
    refine ⟨iff_of_false nofun fun absent => ?_, nofun, ⟨u, state, fun c inside _ => ?_⟩,
      fun _ _ => rfl, nofun, nofun⟩
    · cases known.symm.trans absent
    · cases outside.symm.trans inside
  | refused known other =>
    refine ⟨iff_of_false nofun fun absent => ?_, nofun,
      ⟨u, state, fun c _ _ => iff_of_false nofun other⟩, fun _ _ => rfl, nofun, nofun⟩
    cases known.symm.trans absent

/-- Writes through a view of any layer of a version land in it, whatever is registered meanwhile. -/
theorem run_lands {l : Layout} (reached : l.Reached r) :
    ∃ view, (Storage.plain l).view r = .ok view ∧ ∀ acts p g,
      (run r ⟨global, view⟩ acts).Lands d global r p g
        ((run r ⟨global, view⟩ acts).step r (.write p g)) := by
  refine ⟨Storage.viewOf r l, Storage.view_eq (Version.build_isGlobal built) l, fun acts => ?_⟩
  have start : Sound global r ⟨global, Storage.viewOf r l⟩ :=
    ⟨⟨[], rfl⟩, l, rfl, reached.sound (Version.build_splits built)⟩
  exact (start.run registered built acts).lands registered built

end

theorem lamps_land : ∃ global r, Registry.Global global ∧
    (Version.build 1 Version.lamps global).result = .ok r ∧
    ∃ view, (Storage.plain (.legacy (.fresh r.id))).view r = .ok view ∧
      let x := run r ⟨global, view⟩ [.write ⟨0, 0, 0⟩ 1,
        .register ⟨.standard "torch", [.bool "lit" false], none, none⟩, .clone]
      x.Lands Version.lamps global r ⟨15, 7, 3⟩ 1 (x.step r (.write ⟨15, 7, 3⟩ 1)) := by
  obtain ⟨global, r, _, _, _, lit⟩ := Version.exists_lit
  obtain ⟨view, seen, lands⟩ := run_lands lit.registered lit.built (.legacy (.fresh r.id))
  exact ⟨global, r, lit.registered, lit.built, view, seen, lands _ _ _⟩

end Viewing
end Voxel
