import Voxel.Proofs.Storage.ViewRun

/-!
# States read back from the old layout

A state that is written to an old layer is taken apart into a block number and data, and found again
from them when it is read. `Legacy.reads_back` says that what was written is what is read, and that an
old and a flat layer of one version cannot be told apart by the states that both can hold.
-/

namespace Voxel

/-- A registered state that has an old number and data. -/
def Registry.isPaired (r : Registry) (id : StateId) : Bool :=
  match r.index.state id with
  | .ok u => u.legacy.isSome
  | .error _ => false

namespace Legacy

/-- The layer after a state was written to it, with the outcome. What fails leaves it as it was. -/
def store (r : Registry) (s : Legacy) (p : Position) (id : StateId) : Legacy × Except Failure Unit :=
  let (t, outcome) := Report.keeping s (s.write r p id)
  (t, outcome.result)

theorem store_result (r : Registry) (s : Legacy) (p : Position) (id : StateId) :
    s.store r p id = match (s.write r p id).result with
      | .ok t => (t, .ok ())
      | .error f => (s, .error f) := by
  unfold store Report.keeping
  cases (s.write r p id).result <;> rfl

section

variable {r : Registry} {s : Legacy} {p : Position} {id : StateId}

theorem store_unknown {e : BlockError} (unknown : r.index.state id = .error e) :
    s.store r p id = (s, .error (.error e)) := by
  rw [store_result, write, Report.result_bind, Report.result_liftError, unknown]
  rfl

variable {u : BlockState} (state : r.index.state id = .ok u)
include state

theorem store_unpaired (unpaired : u.legacy = none) : s.store r p id =
    (s, .error (.error (.invalidValue (.storage (.noLegacyPair u.text))))) := by
  rw [store_result, write, Report.result_bind, Report.result_liftError, state, Failure.lift_ok,
    Outcome.ok_bind, unpaired]
  rfl

theorem store_paired {x : LegacyPair} (pair : u.legacy = some x) :
    s.store r p id = s.step (.write p (.pair x)) := by
  have wrote : (s.write r p id).result = (s.put p (.pair x)).result := by
    rw [write, Report.result_bind, Report.result_liftError, state, Failure.lift_ok, Outcome.ok_bind,
      pair]
    rfl
  cases put : (s.put p (.pair x)).result <;> simp only [store_result, step_eq, wrote, put]

end

namespace Changes

def write (r : Registry) (p : Position) (id : StateId) : Changes Unit := do
  let u ← require (liftM (r.index.state id))
  match u.legacy with
  | some x => put p (.pair x)
  | none => require (.error (.error (.invalidValue (.storage (.noLegacyPair u.text)))))

/-- The state is looked up before anything is changed, so a write in place leaves no trace when it
fails. -/
theorem perform_write (r : Registry) (s : Legacy) (p : Position) (id : StateId) :
    perform s (write r p id) = s.store r p id := by
  cases state : r.index.state id with
  | error e =>
    rw [store_unknown state, write, state]
    rfl
  | ok u =>
    have found : perform s (write r p id) = perform s (match u.legacy with
        | some x => put p (.pair x)
        | none => require (.error (.error (.invalidValue (.storage (.noLegacyPair u.text)))))) := by
      rw [write, state]
      rfl
    rw [found]
    cases pair : u.legacy with
    | none =>
      rw [store_unpaired state pair]
      rfl
    | some x =>
      rw [store_paired state pair]
      exact perform_put s p (.pair x)

end Changes

/-- What is seen of a write of a state to a cell, of the layer after it and of its outcome. -/
structure ReadsBack (r : Registry) (s : Legacy) (p : Position) (c : Cell) (id : StateId)
    (y : Legacy × Except Failure Unit) : Prop where
  succeeds_iff : y.2 = .ok () ↔ ∃ u x, r.index.state id = .ok u ∧ u.legacy = some x
  unregistered : r.index.hasRuntimeId id = false → y.2 = .error (.error (.unknownRuntimeId id))
  unpaired : ∀ u, r.index.state id = .ok u → u.legacy = none →
    ∃ misuse, y.2 = .error (.error (.invalidValue misuse))
  failed : ∀ f, y.2 = .error f → y.1 = s
  here : ∀ u x, r.index.state id = .ok u → u.legacy = some x →
    y.1.read r c = .ok id ∧ y.1.idAt c = x.id ∧ y.1.dataAt c = x.data
  others : ∀ e, e ≠ c → y.1.pairAt e = s.pairAt e ∧ y.1.read r e = s.read r e
  inPlace : Changes.perform s (Changes.write r p id) = y

theorem ReadsBack.of_refused {r : Registry} {s : Legacy} {p : Position} {c : Cell} {id : StateId}
    {f : Failure} (refused : s.store r p id = (s, .error f))
    (unregistered : r.index.hasRuntimeId id = false → f = .error (.unknownRuntimeId id))
    (unpaired : ∀ u, r.index.state id = .ok u →
      u.legacy = none ∧ ∃ misuse, f = .error (.invalidValue misuse)) :
    s.ReadsBack r p c id (s.store r p id) := by
  have inPlace := Changes.perform_write r s p id
  rw [refused] at inPlace ⊢
  have unable : ∀ u x, r.index.state id = .ok u → u.legacy ≠ some x := by
    intro u x state pair
    cases (unpaired u state).1.symm.trans pair
  refine ⟨iff_of_false (fun done => by cases done) ?_,
    fun absent => congrArg Except.error (unregistered absent), fun u state _ => ?_, fun _ _ => rfl,
    fun u x state pair => absurd pair (unable u x state), fun e _ => ⟨rfl, rfl⟩, inPlace⟩
  · rintro ⟨u, x, state, pair⟩
    exact unable u x state pair
  · obtain ⟨-, misuse, rfl⟩ := unpaired u state
    exact ⟨misuse, rfl⟩

theorem ReadsBack.of_placed {r : Registry} {s : Legacy} {p : Position} {c : Cell} {id : StateId}
    {u : BlockState} {x : LegacyPair} (known : r.index.hasRuntimeId id = true)
    (state : r.index.state id = .ok u) (pair : u.legacy = some x)
    (own : r.index.legacyRuntimeId x = .ok id) (fits : (Entry.pair x).Fits)
    (wrote : s.store r p id = (s.placed c (.pair x), .ok ())) :
    s.ReadsBack r p c id (s.store r p id) := by
  have inPlace := Changes.perform_write r s p id
  rw [wrote] at inPlace ⊢
  have pairs := fun e => s.pairAt_placed c e fits
  refine ⟨iff_of_true rfl ⟨u, x, state, pair⟩, fun absent => ?_, fun v same unpaired => ?_,
    fun f failed => ?_, fun v y same old => ?_, fun e other => ?_, inPlace⟩
  · cases known.symm.trans absent
  · obtain rfl := Except.ok.inj (state.symm.trans same)
    cases pair.symm.trans unpaired
  · cases failed
  · obtain rfl := Except.ok.inj (state.symm.trans same)
    obtain rfl := Option.some.inj (pair.symm.trans old)
    have here : (s.placed c (.pair x)).pairAt c = x := (pairs c).trans (if_pos rfl)
    refine ⟨?_, congrArg LegacyPair.id here, congrArg LegacyPair.data here⟩
    rw [read, here, own]
  · have there := (pairs e).trans (if_neg other)
    exact ⟨there, by rw [read, read, there]⟩

theorem store_readsBack {id : RegistryId} {d : VersionDescription} {global r : Registry}
    (built : (Version.build id d global).result = .ok r) (s : Legacy) {p : Position} {c : Cell}
    (inside : p.cell = .ok c) (a : StateId) : s.ReadsBack r p c a (s.store r p a) := by
  have faithful := (Registry.Built.ofVersion built).sound.index
  obtain ⟨known, u, member, state, own⟩ | ⟨unknown, missing⟩ := Registry.state_cases faithful a
  · cases pair : u.legacy with
    | some x =>
      obtain ⟨e, there, fits, wrote⟩ | ⟨f, outside, _⟩ | ⟨tight, _⟩ := s.step_write p (.pair x)
      · obtain rfl := Except.ok.inj (inside.symm.trans there)
        have found := (Index.legacyRuntimeId_eq_ok_iff faithful).mpr ⟨u, member, pair, own⟩
        exact .of_placed known state pair found fits ((store_paired state pair).trans wrote)
      · cases inside.symm.trans outside
      · exact absurd (Version.legacy_fits built member pair) tight
    | none =>
      refine .of_refused (store_unpaired state pair) (fun absent => ?_) fun v same => ?_
      · cases known.symm.trans absent
      · obtain rfl := Except.ok.inj (state.symm.trans same)
        exact ⟨pair, _, rfl⟩
  · refine .of_refused (store_unknown missing) (fun _ => rfl) fun v same => ?_
    cases missing.symm.trans same

end Legacy

/-! ### Runs of writes -/

namespace Layout

/-- The layer after a state was written to it, with the outcome. What fails leaves it as it was. -/
def store (r : Registry) (l : Layout) (p : Position) (id : StateId) : Layout × Except Failure Unit :=
  let (m, outcome) := Report.keeping l (l.write r p id)
  (m, outcome.result)

def stores (r : Registry) (l : Layout) (writes : List (Position × StateId)) : Layout :=
  writes.foldl (fun m w => (m.store r w.1 w.2).1) l

/-- Whether a write can be made: there is such a cell, and the layer has room for the state. -/
def Grants (r : Registry) (l : Layout) (p : Position) (id : StateId) : Prop :=
  (∃ c, p.cell = .ok c) ∧ ∃ u, r.index.state id = .ok u ∧ l.Takes u

theorem store_result (r : Registry) (l : Layout) (p : Position) (id : StateId) :
    l.store r p id = match (l.write r p id).result with
      | .ok m => (m, .ok ())
      | .error f => (l, .error f) := by
  unfold store Report.keeping
  cases (l.write r p id).result <;> rfl

theorem store_legacy (r : Registry) (s : Legacy) (p : Position) (id : StateId) :
    (legacy s).store r p id = (legacy (s.store r p id).1, (s.store r p id).2) := by
  rw [store_result, Legacy.store_result, Layout.write, Report.result_map]
  cases (s.write r p id).result <;> rfl

theorem write_unregistered {r : Registry} (sound : r.Sound) {l : Layout} (shown : l.Sound r)
    (p : Position) {id : StateId} {e : BlockError} (unknown : r.index.state id = .error e) :
    ∃ f, (l.write r p id).result = .error f := by
  cases l with
  | flat s =>
    rw [Layout.write, Report.result_bind, Report.result_lift]
    cases p.cell with
    | error f => exact ⟨f, rfl⟩
    | ok c =>
      obtain ⟨known, _⟩ | ⟨_, refused⟩ := shown.write sound.index.limit_le c id
      · obtain ⟨_, u, _, state, _⟩ | ⟨absent, _⟩ := Registry.state_cases sound.index id
        · cases unknown.symm.trans state
        · cases known.symm.trans absent
      · rw [Outcome.ok_bind, Report.result_map, refused]
        exact ⟨_, rfl⟩
  | legacy s =>
    rw [Layout.write, Report.result_map, Legacy.write, Report.result_bind, Report.result_liftError,
      unknown]
    exact ⟨_, rfl⟩

section

variable {id : RegistryId} {d : VersionDescription} {global r : Registry}
  (built : (Version.build id d global).result = .ok r)
include built

theorem store_cases {l : Layout} (shown : l.Sound r) (p : Position) (a : StateId) :
    (l.Grants r p a ∧ Written r l p a (l.store r p a).1) ∨
    (¬ l.Grants r p a ∧ (l.store r p a).1 = l) := by
  have sound := (Registry.Built.ofVersion built).sound
  rw [store_result]
  obtain ⟨_, u, member, state, _⟩ | ⟨_, unknown⟩ := Registry.state_cases sound.index a
  · obtain ⟨takes, inside, m, wrote, written⟩ | ⟨_, e, outside, failed⟩ | ⟨other, misuse, failed⟩ :=
      write_cases sound shown p state fun x => Version.legacy_fits built member
    · rw [wrote]
      exact Or.inl ⟨⟨inside, u, state, takes⟩, written⟩
    · rw [failed]
      refine Or.inr ⟨?_, rfl⟩
      rintro ⟨⟨c, inside⟩, _⟩
      cases inside.symm.trans outside
    · rw [failed]
      refine Or.inr ⟨?_, rfl⟩
      rintro ⟨_, v, same, takes⟩
      obtain rfl := Except.ok.inj (state.symm.trans same)
      exact other takes
  · obtain ⟨f, failed⟩ := write_unregistered sound shown p unknown
    rw [failed]
    refine Or.inr ⟨?_, rfl⟩
    rintro ⟨_, u, state, _⟩
    cases unknown.symm.trans state

theorem store_alike {l m : Layout} (left : l.Sound r) (right : m.Sound r) {p : Position} {a : StateId}
    (grants : l.Grants r p a ↔ m.Grants r p a) {q : Position} (same : l.read r q = m.read r q) :
    (l.store r p a).1.read r q = (m.store r p a).1.read r q := by
  obtain ⟨made, written⟩ | ⟨refused, kept⟩ := store_cases built left p a
  · obtain ⟨_, writtenToo⟩ | ⟨refused, _⟩ := store_cases built right p a
    · by_cases here : q = p
      · rw [here, written.here, writtenToo.here]
      · rw [written.others q here, writtenToo.others q here, same]
    · exact absurd (grants.mp made) refused
  · obtain ⟨made, _⟩ | ⟨_, keptToo⟩ := store_cases built right p a
    · exact absurd (grants.mpr made) refused
    · rw [kept, keptToo, same]

theorem store_sound {l : Layout} (shown : l.Sound r) (p : Position) (a : StateId) :
    (l.store r p a).1.Sound r := by
  obtain ⟨_, written⟩ | ⟨_, kept⟩ := store_cases built shown p a
  · exact written.sound
  · rw [kept]
    exact shown

theorem stores_alike {l m : Layout} (left : l.Sound r) (right : m.Sound r)
    {writes : List (Position × StateId)}
    (paired : ∀ w ∈ writes, ∀ u, r.index.state w.2 = .ok u → u.legacy ≠ none) {q : Position}
    (same : l.read r q = m.read r q) : (l.stores r writes).read r q = (m.stores r writes).read r q := by
  induction writes generalizing l m with
  | nil => exact same
  | cons w rest ih =>
    have takes : ∀ (n : Layout) u, r.index.state w.2 = .ok u → n.Takes u := by
      intro n u state
      cases n with
      | flat => trivial
      | legacy => exact paired w List.mem_cons_self u state
    have grants : l.Grants r w.1 w.2 ↔ m.Grants r w.1 w.2 := by
      refine and_congr_right fun _ => exists_congr fun u => and_congr_right fun state => ?_
      exact iff_of_true (takes l u state) (takes m u state)
    exact ih (store_sound built left w.1 w.2) (store_sound built right w.1 w.2)
      (fun v member => paired v (List.mem_cons_of_mem _ member))
      (store_alike built left right grants same)

end

/-- Writes of states without an old number and data change nothing in an old layer. -/
theorem stores_paired (r : Registry) (s : Legacy) (writes : List (Position × StateId)) :
    (legacy s).stores r writes = (legacy s).stores r (writes.filter fun w => r.isPaired w.2) := by
  induction writes generalizing s with
  | nil => rfl
  | cons w rest ih =>
    have first : (legacy s).stores r (w :: rest) = (legacy (s.store r w.1 w.2).1).stores r rest :=
      congrArg (fun x : Layout × Except Failure Unit => x.1.stores r rest) (store_legacy r s w.1 w.2)
    rw [first, ih]
    cases pair : r.isPaired w.2 with
    | true =>
      simp only [List.filter_cons, pair, if_true]
      exact (congrArg (fun x : Layout × Except Failure Unit => x.1.stores r _)
        (store_legacy r s w.1 w.2)).symm
    | false =>
      have kept : (s.store r w.1 w.2).1 = s := by
        unfold Registry.isPaired at pair
        cases state : r.index.state w.2 with
        | error e => rw [Legacy.store_unknown state]
        | ok u =>
          rw [state] at pair
          rw [Legacy.store_unpaired state (Option.not_isSome_iff_eq_none.mp (by simp [pair]))]
      simp only [List.filter_cons, pair, Bool.false_eq_true, if_false, kept]

end Layout

/-- What an old layer of a version takes it shows, and a flat layer that takes the same writes shows the
same. -/
theorem Legacy.reads_back {id : RegistryId} {d : VersionDescription} {global r : Registry}
    (built : (Version.build id d global).result = .ok r) :
    (∀ (s : Legacy) p c a, p.cell = .ok c → s.ReadsBack r p c a (s.store r p a)) ∧
    ∀ (s : Legacy) (f : Flat), (Layout.flat f).Reached r → ∀ writes q,
      (Layout.legacy s).read r q = (Layout.flat f).read r q →
        ((Layout.legacy s).stores r writes).read r q =
          ((Layout.flat f).stores r (writes.filter fun w => r.isPaired w.2)).read r q ∧
        ((∀ w ∈ writes, ∀ u, r.index.state w.2 = .ok u → u.legacy ≠ none) →
          ((Layout.legacy s).stores r writes).read r q =
            ((Layout.flat f).stores r writes).read r q) := by
  refine ⟨fun s p c a inside => store_readsBack built s inside a, fun s f reached writes q same => ?_⟩
  have shown := reached.sound (Version.build_splits built)
  have old : (Layout.legacy s).Sound r := trivial
  refine ⟨?_, fun paired => Layout.stores_alike built old shown paired same⟩
  rw [Layout.stores_paired]
  refine Layout.stores_alike built old shown (fun w member u state unpaired => ?_) same
  have pair := (List.mem_filter.mp member).2
  rw [Registry.isPaired, state] at pair
  simp [unpaired] at pair

/-! ### Lamps in layers of air -/

section

open Version

variable {r : Registry} (represents : Represents lamps r)
include represents

theorem paired_lamps {a : StateId} {u : BlockState} (state : r.index.state a = .ok u) :
    u.legacy ≠ none := by
  have member := ((Index.state_eq_ok_iff represents.tables.faithful).mp state).1
  obtain ⟨e, inside, s, declared, _, matches_⟩ := represents.tables.declared member
  rw [matches_.legacy]
  obtain rfl | rfl := List.mem_pair.mp inside
  · obtain rfl := List.mem_singleton.mp declared
    decide
  · obtain rfl | rfl := List.mem_pair.mp declared
    all_goals decide

theorem read_fresh_lamps (q : Position) :
    (Layout.legacy (.fresh r.id)).read r q = (Layout.flat (.fresh r)).read r q := by
  cases inside : q.cell with
  | error f => rw [Layout.read_outside inside, Layout.read_outside inside]
  | ok c =>
    have faithful := represents.tables.faithful
    obtain ⟨air, member, named, same⟩ := represents.air
    have zero : r.air.runtimeId = 0 := by
      rw [same]
      refine ((represents.tables.isDefault_iff member).mp ?_).symm
      rw [named]
      exact ⟨airBlock, List.mem_cons_self, _, List.mem_singleton_self _, rfl, rfl⟩
    obtain ⟨t, there, _, matches_⟩ := represents.tables.state
      (e := (.air, airBlock)) List.mem_cons_self (List.mem_singleton_self _)
    have old : t.legacy = some ⟨0, 0⟩ := matches_.legacy.trans (by decide)
    have pair := (Legacy.holds_fresh r.id).pair c
    rw [Layout.read_legacy inside, Layout.read_flat inside, (Flat.fresh_shows r).read c, zero,
      Legacy.read, pair,
      (Index.legacyRuntimeId_eq_ok_iff faithful).mpr ⟨t, there, old, matches_.runtimeId⟩]

end

def lampWrites : List (Position × StateId) := [(⟨15, 7, 3⟩, 5), (⟨0, 0, 0⟩, 9), (⟨0, 1, 0⟩, 4)]

theorem reads_back_lamps : ∃ global r,
    (Version.build 1 Version.lamps global).result = .ok r ∧
    (∃ t, (Legacy.fresh r.id).store r (Cell.position 0) 5 = (t, .ok ()) ∧ t.read r 0 = .ok 5 ∧
      t.idAt 0 = 7 ∧ t.dataAt 0 = 1) ∧
    ∀ q, ((Layout.legacy (.fresh r.id)).stores r lampWrites).read r q =
      ((Layout.flat (.fresh r)).stores r lampWrites).read r q := by
  obtain ⟨global, r, _, on, _, lit⟩ := Version.exists_lit
  have represents := (Version.build_ok lit.built).2
  obtain ⟨writes, runs⟩ := Legacy.reads_back lit.built
  have back := writes (.fresh r.id) (Cell.position 0) 0 5 (Cell.cell_position 0)
  obtain ⟨old, same, legacy⟩ := lit.on.legacy
  obtain rfl := Option.some.inj same
  have pair : on.legacy = some ⟨7, 1⟩ := legacy
  refine ⟨global, r, lit.built, ?_, fun q => ?_⟩
  · exact ⟨_, Prod.ext rfl (back.succeeds_iff.mpr ⟨on, _, lit.on.state, pair⟩),
      back.here on _ lit.on.state pair⟩
  · exact (runs (.fresh r.id) (.fresh r) (.start .fresh) lampWrites q
      (read_fresh_lamps represents q)).2 fun _ _ _ state => paired_lamps represents state

end Voxel
