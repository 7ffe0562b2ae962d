import Voxel.Proofs.Block.Space
import Voxel.Proofs.Registry.InPlace

/-!
# Growth of the global registry

A global registry numbers its states without holes, and air first, whatever is registered and whatever
is refused. `Consecutive` is what every registration keeps, `register_fails_iff` says which attempts fail,
and `attempts_grow` what a whole run of attempts makes of a new registry.
-/

namespace Voxel

namespace Registry

/-- The registry after an attempt to register a kind. -/
def attempt (r : Registry) (d : Declaration) : Registry :=
  match (r.register d).result with
  | .ok (s, _) => s
  | .error _ => r

def attempts (r : Registry) (run : List Declaration) : Registry := run.foldl attempt r

theorem attempt_of_ok {r s : Registry} {d : Declaration} {k : BlockKind}
    (h : (r.register d).result = .ok (s, k)) : r.attempt d = s := by
  rw [attempt, h]

theorem attempt_of_error {r : Registry} {d : Declaration} {f : Failure}
    (h : (r.register d).result = .error f) : r.attempt d = r := by
  rw [attempt, h]

theorem perform_attempt (r : Registry) (d : Declaration) :
    (InPlace.perform r (Changes.registration d)).2 = r.attempt d := by
  rw [Changes.perform_registration, attempt]
  cases (r.register d).result <;> rfl

theorem attempts_keep {motive : Registry → Prop}
    (step : ∀ r s d k, motive r → (r.register d).result = .ok (s, k) → motive s) {r : Registry}
    (start : motive r) (run : List Declaration) : motive (r.attempts run) := by
  induction run generalizing r with
  | nil => exact start
  | cons d rest ih =>
    have next : motive (r.attempt d) := by
      cases h : (r.register d).result with
      | ok x =>
        rw [attempt_of_ok h]
        exact step r x.1 d x.2 start h
      | error f =>
        rw [attempt_of_error h]
        exact start
    exact ih next

theorem Global.attempts {r : Registry} (h : Global r) (run : List Declaration) :
    Global (r.attempts run) :=
  attempts_keep (fun _ _ _ _ before added => .register before added) h run

theorem attempts_append (r : Registry) (run later : List Declaration) :
    r.attempts (run ++ later) = (r.attempts run).attempts later := List.foldl_append

theorem id_attempts (r : Registry) (run : List Declaration) : (r.attempts run).id = r.id := by
  exact attempts_keep (motive := fun s => s.id = r.id)
    (fun s t d k same h => (id_register h).trans same) rfl run

/-! ### Consecutive numbers -/

/-- The states have the numbers from 0 on, in the order of the kinds, and air comes first. -/
structure Consecutive (r : Registry) : Prop where
  sound : r.Sound
  numbers : r.index.states.map (fun s => s.runtimeId.toNat) = List.range r.index.stateCount
  first : r.air.runtimeId = 0
  air : r.air.name = .air

namespace Consecutive

variable {r : Registry} (consecutive : r.Consecutive)
include consecutive

theorem hasRuntimeId_iff (id : StateId) :
    r.index.hasRuntimeId id = true ↔ id.toNat < r.index.stateCount := by
  rw [Index.hasRuntimeId_eq_true consecutive.sound.index, ← List.mem_range, ← consecutive.numbers,
    List.mem_map]
  exact exists_congr fun s => and_congr_right fun _ => UInt32.toNat_inj.symm

theorem stateCount_pos : 0 < r.index.stateCount := by
  have known := (Index.hasRuntimeId_eq_true consecutive.sound.index).mpr
    ⟨r.air, consecutive.sound.air, consecutive.first⟩
  exact Nat.zero_lt_of_lt ((consecutive.hasRuntimeId_iff 0).mp known)

theorem limit_eq : r.index.limit = r.index.stateCount := by
  have faithful := consecutive.sound.index
  have positive := consecutive.stateCount_pos
  have used := lt_limit_of_mem faithful consecutive.sound.air
  obtain ⟨s, member, last⟩ := faithful.limit_used (by omega)
  have below := (consecutive.hasRuntimeId_iff s.runtimeId).mp
    ((Index.hasRuntimeId_eq_true faithful).mpr ⟨s, member, rfl⟩)
  have highest : r.index.stateCount - 1 ∈ List.range r.index.stateCount :=
    List.mem_range.mpr (by omega)
  rw [← consecutive.numbers] at highest
  obtain ⟨t, inside, same⟩ := List.mem_map.mp highest
  have covered := lt_limit_of_mem faithful inside
  omega

end Consecutive

theorem newGlobal_consecutive {id : RegistryId} {r : Registry}
    (h : (newGlobal id).result = .ok r) : r.Consecutive := by
  have sound := newGlobal_sound h
  obtain ⟨air, built, rfl⟩ := newGlobal_eq h
  have zero : ∀ s : BlockState, s.kind = air → s.runtimeId = 0 := by
    intro s kind
    obtain ⟨_, assigned, _⟩ := built.assigns kind
    exact (congrArg Prod.fst (Except.ok.inj assigned)).symm
  have one : air.stateCount = 1 := by
    rw [BlockKind.stateCount, air.size_entries, built.properties]
    rfl
  refine ⟨sound, ?_, zero _ rfl, built.name⟩
  have states : (Index.empty.add air).states = air.states := Index.states_add _ _
  have count : (Index.empty.add air).stateCount = 1 := (Nat.zero_add _).trans one
  show ((Index.empty.add air).states.map fun s => s.runtimeId.toNat) =
    List.range (Index.empty.add air).stateCount
  rw [states, count, ← one, ← air.map_offset_states]
  refine List.map_congr_left fun s member => ?_
  have offset : s.offset < 1 := by
    have inside := s.offset_lt
    rw [BlockKind.mem_states.mp member] at inside
    exact one ▸ inside
  rw [zero s (BlockKind.mem_states.mp member)]
  exact (Nat.lt_one_iff.mp offset).symm

section

variable {r s : Registry} {d : Declaration} {k : BlockKind} (consecutive : r.Consecutive)
include consecutive

theorem register_room (h : (r.register d).result = .ok (s, k)) :
    r.index.stateCount + k.stateCount ≤ UInt32.size ∧ ∀ t : BlockState, t.kind = k →
      t.runtimeId.toNat = r.index.stateCount + t.offset := by
  obtain ⟨free, _, _, built⟩ := register_adds consecutive.sound h
  have value : ∀ t : BlockState, t.kind = k →
      t.runtimeId.toNat = (UInt32.ofNat r.index.limit).toNat + t.offset := by
    intro t kind
    obtain ⟨_, assigned, _⟩ := built.assigns kind
    exact (freeId_ok assigned).1
  have below : r.index.limit < UInt32.size := by
    refine Nat.lt_of_le_of_ne consecutive.sound.index.limit_le fun all => ?_
    -- the first number would be 0 again, which is air's
    let head : BlockState := ⟨k, 0, Nat.zero_lt_of_lt k.default_lt⟩
    have first := value head rfl
    rw [all] at first
    have apart := free.states head (BlockKind.mem_states.mpr rfl)
    refine apart.runtimeId r.air consecutive.sound.air ?_
    rw [consecutive.first]
    exact UInt32.toNat_inj.mp first.symm
  rw [UInt32.toNat_ofNat_of_lt' below, consecutive.limit_eq] at value
  refine ⟨?_, value⟩
  have positive : 0 < k.stateCount := Nat.zero_lt_of_lt k.default_lt
  let tail : BlockState := ⟨k, k.stateCount - 1, Nat.sub_lt positive Nat.one_pos⟩
  have last : tail.runtimeId.toNat = r.index.stateCount + (k.stateCount - 1) := value tail rfl
  have word := tail.runtimeId.toNat_lt
  have size : UInt32.size = 2 ^ 32 := rfl
  omega

theorem register_numbers (h : (r.register d).result = .ok (s, k)) :
    k.states.map (fun t => t.runtimeId.toNat) = List.range' r.index.stateCount k.stateCount := by
  obtain ⟨_, value⟩ := register_room consecutive h
  rw [List.range'_eq_map_range, ← k.map_offset_states, List.map_map]
  exact List.map_congr_left fun t member => value t (BlockKind.mem_states.mp member)

theorem register_consecutive (h : (r.register d).result = .ok (s, k)) : s.Consecutive := by
  have numbers := register_numbers consecutive h
  have sound := register_sound consecutive.sound h
  obtain ⟨_, rfl, _⟩ := register_adds consecutive.sound h
  refine ⟨sound, ?_, consecutive.first, consecutive.air⟩
  show (r.index.add k).states.map (fun t => t.runtimeId.toNat) =
    List.range (r.index.stateCount + k.stateCount)
  rw [Index.states_add, List.map_append, consecutive.numbers, numbers, List.range_eq_range',
    List.range_eq_range', ← List.range'_append_1, Nat.zero_add]

/-- An attempt fails if the name or the old number is taken, if the declaration is refused, or if too
few numbers are left, and only then. -/
theorem register_fails_iff : (∃ f, (r.register d).result = .error f) ↔
    r.index.hasName d.name = true ∨ (∃ e, d.Refusal e) ∨
      (∃ id, d.legacyId = some id ∧ r.index.hasLegacyId id = true) ∨
      UInt32.size < r.index.stateCount + (d.properties.map Property.size).prod := by
  cases h : (r.register d).result with
  | ok x =>
    obtain ⟨s, k⟩ := x
    obtain ⟨unnamed, _⟩ := register_ok h
    obtain ⟨free, _, valid, built⟩ := register_adds consecutive.sound h
    obtain ⟨room, _⟩ := register_room consecutive h
    refine iff_of_false (fun failed => ?_) ?_
    · obtain ⟨f, failed⟩ := failed
      cases failed
    · rintro (named | ⟨e, refusal⟩ | ⟨id, given, taken⟩ | exhausted)
      · rw [named] at unnamed
        cases unnamed
      · exact refusal.not_valid valid
      · obtain ⟨j, member, same⟩ := (Index.hasLegacyId_eq_true consecutive.sound.index).mp taken
        exact free.legacyId j member id (built.legacyId.trans given) same
      · rw [← Radix.total_eq_prod, ← built.properties] at exhausted
        rw [BlockKind.stateCount, k.size_entries] at room
        exact Nat.not_lt.mpr room exhausted
  | error f =>
    refine iff_of_true ⟨f, rfl⟩ ?_
    by_contra fine
    simp only [not_or, not_exists, not_and, Bool.not_eq_true, Nat.not_lt] at fine
    obtain ⟨name, sound, legacyId, room⟩ := fine
    have valid : d.Valid := Declaration.valid_of_not_refusal (not_exists.mpr sound)
    rw [← consecutive.limit_eq, ← Radix.total_eq_prod] at room
    obtain ⟨k, registered⟩ := register_total consecutive.sound valid name legacyId room
    cases h.symm.trans registered

end

theorem Global.consecutive {r : Registry} (h : Global r) : r.Consecutive := by
  induction h with
  | start h => exact newGlobal_consecutive h
  | register _ h ih => exact register_consecutive ih h

/-! ### Look-ups -/

inductive Query : Type → Type
  | kind (name : Name) : Query BlockKind
  | defaultState (name : Name) : Query BlockState
  | stateOfTexts (name : Name) (texts : List (String × String)) : Query BlockState
  | state (id : StateId) : Query BlockState
  | legacyId (name : Name) : Query UInt16
  | nameOfLegacy (id : UInt16) : Query Name
  | legacyKind (id : UInt16) : Query BlockKind
  | legacyDefaultState (id : UInt16) : Query BlockState
  | stateOfLegacy (p : LegacyPair) : Query BlockState
  | legacyRuntimeId (p : LegacyPair) : Query StateId

def Query.answer {α : Type} (r : Registry) : Query α → Except BlockError α
  | kind name => r.index.kind name
  | defaultState name => BlockKind.defaultState <$> r.index.kind name
  | stateOfTexts name texts => r.stateOfTexts name texts
  | state id => r.index.state id
  | legacyId name => r.legacyId name
  | nameOfLegacy id => r.nameOfLegacy id
  | legacyKind id => r.index.legacyKind id
  | legacyDefaultState id => BlockKind.defaultState <$> r.index.legacyKind id
  | stateOfLegacy p => r.stateOfLegacy p
  | legacyRuntimeId p => r.index.legacyRuntimeId p

/-- A later registry gives every answer of an earlier one, and has its kinds before any others. -/
structure Remembers (r s : Registry) : Prop where
  kinds : r.index.kinds.toList <+: s.index.kinds.toList
  answers : ∀ {α : Type} (q : Query α) (a : α), q.answer r = .ok a → q.answer s = .ok a
  names : ∀ name, r.index.hasName name = true → s.index.hasName name = true
  legacyIds : ∀ id, r.index.hasLegacyId id = true → s.index.hasLegacyId id = true
  runtimeIds : ∀ id, r.index.hasRuntimeId id = true → s.index.hasRuntimeId id = true
  legacyPairs : ∀ p, r.index.hasLegacyPair p = true → s.index.hasLegacyPair p = true

/-- A registry that has the kinds of another gives all of its answers. -/
theorem remembers_of_kinds {r s : Registry} (left : r.Sound) (right : s.Sound)
    (kinds : r.index.kinds.toList <+: s.index.kinds.toList) : r.Remembers s := by
  have states : ∀ t ∈ r.index.states, t ∈ s.index.states := fun t member =>
    Index.mem_states.mpr (kinds.subset (Index.mem_states.mp member))
  have kind : ∀ {name k}, r.index.kind name = .ok k → s.index.kind name = .ok k := by
    intro name k found
    obtain ⟨member, named⟩ := (Index.kind_eq_ok_iff left.index).mp found
    exact (Index.kind_eq_ok_iff right.index).mpr ⟨kinds.subset member, named⟩
  have legacyKind : ∀ {id k}, r.index.legacyKind id = .ok k → s.index.legacyKind id = .ok k := by
    intro id k found
    obtain ⟨member, old⟩ := (Index.legacyKind_eq_ok_iff left.index).mp found
    exact (Index.legacyKind_eq_ok_iff right.index).mpr ⟨kinds.subset member, old⟩
  have state : ∀ {id t}, r.index.state id = .ok t → s.index.state id = .ok t := by
    intro id t found
    obtain ⟨member, same⟩ := (Index.state_eq_ok_iff left.index).mp found
    exact (Index.state_eq_ok_iff right.index).mpr ⟨states t member, same⟩
  have legacyRuntimeId : ∀ {p id}, r.index.legacyRuntimeId p = .ok id →
      s.index.legacyRuntimeId p = .ok id := by
    intro p id found
    obtain ⟨t, member, legacy⟩ := (Index.legacyRuntimeId_eq_ok_iff left.index).mp found
    exact (Index.legacyRuntimeId_eq_ok_iff right.index).mpr ⟨t, states t member, legacy⟩
  refine ⟨kinds, fun q a found => ?_, fun name known => ?_, fun id known => ?_, fun id known => ?_,
    fun p known => ?_⟩
  · cases q with
    | kind name => exact kind found
    | state id => exact state found
    | legacyKind id => exact legacyKind found
    | legacyRuntimeId p => exact legacyRuntimeId found
    | defaultState name =>
      obtain ⟨k, there, rfl⟩ := Outcome.map_ok found
      exact congrArg (BlockKind.defaultState <$> ·) (kind there)
    | legacyDefaultState id =>
      obtain ⟨k, there, rfl⟩ := Outcome.map_ok found
      exact congrArg (BlockKind.defaultState <$> ·) (legacyKind there)
    | nameOfLegacy id =>
      obtain ⟨k, there, rfl⟩ := Outcome.map_ok found
      exact congrArg (BlockKind.name <$> ·) (legacyKind there)
    | stateOfTexts name texts =>
      obtain ⟨k, there, rest⟩ := Outcome.bind_ok found
      rw [Query.answer, stateOfTexts, kind there]
      exact rest
    | legacyId name =>
      obtain ⟨k, there, rest⟩ := Outcome.bind_ok found
      rw [Query.answer, Registry.legacyId, kind there]
      exact rest
    | stateOfLegacy p =>
      obtain ⟨id, there, rest⟩ := Outcome.bind_ok found
      rw [Query.answer, Registry.stateOfLegacy, legacyRuntimeId there]
      exact state rest
  · obtain ⟨k, member, named⟩ := (Index.hasName_eq_true left.index).mp known
    exact (Index.hasName_eq_true right.index).mpr ⟨k, kinds.subset member, named⟩
  · obtain ⟨k, member, old⟩ := (Index.hasLegacyId_eq_true left.index).mp known
    exact (Index.hasLegacyId_eq_true right.index).mpr ⟨k, kinds.subset member, old⟩
  · obtain ⟨t, member, same⟩ := (Index.hasRuntimeId_eq_true left.index).mp known
    exact (Index.hasRuntimeId_eq_true right.index).mpr ⟨t, states t member, same⟩
  · obtain ⟨t, member, legacy⟩ := (Index.hasLegacyPair_eq_true left.index).mp known
    exact (Index.hasLegacyPair_eq_true right.index).mpr ⟨t, states t member, legacy⟩

theorem attempts_remember {r : Registry} (sound : r.Sound) (run : List Declaration) :
    r.Remembers (r.attempts run) := by
  have grown : (r.attempts run).Sound ∧
      r.index.kinds.toList <+: (r.attempts run).index.kinds.toList := by
    refine attempts_keep (motive := fun s => s.Sound ∧ r.index.kinds.toList <+: s.index.kinds.toList)
      (fun s t d k before h => ?_) ⟨sound, List.prefix_rfl⟩ run
    refine ⟨register_sound before.1 h, ?_⟩
    obtain ⟨_, rfl, _⟩ := register_adds before.1 h
    rw [Index.kinds_add]
    exact before.2.trans (List.prefix_append _ _)
  exact remembers_of_kinds sound grown.1 grown.2

/-! ### Runs -/

/-- The numbers in use are those below the count of states, and 0 is that of air. -/
structure Dense (r : Registry) : Prop where
  air : r.index.state 0 = .ok r.air ∧ r.air.name = .air
  runtimeIds : ∀ id, r.index.hasRuntimeId id = true ↔ id.toNat < r.index.stateCount
  maxRuntimeId : r.index.maxRuntimeId.toNat + 1 = r.index.stateCount

theorem Consecutive.dense {r : Registry} (consecutive : r.Consecutive) : r.Dense := by
  have faithful := consecutive.sound.index
  refine ⟨⟨?_, consecutive.air⟩, consecutive.hasRuntimeId_iff, ?_⟩
  · exact (Index.state_eq_ok_iff faithful).mpr ⟨consecutive.sound.air, consecutive.first⟩
  · have positive := consecutive.stateCount_pos
    have word := faithful.limit_le
    have value : r.index.maxRuntimeId.toNat = r.index.limit - 1 :=
      UInt32.toNat_ofNat_of_lt' (by rw [consecutive.limit_eq] at word ⊢; omega)
    rw [value, consecutive.limit_eq]
    omega

/-- What an attempt does: it gives a new kind the next numbers, or fails for one of four reasons and
leaves the registry as it is. -/
structure Attempt (r : Registry) (d : Declaration) : Prop where
  registers : ∀ s k, (r.register d).result = .ok (s, k) → r.attempt d = s ∧
    s.index.kind d.name = .ok k ∧ s.index.stateCount = r.index.stateCount + k.stateCount ∧
    k.states.map (fun t => t.runtimeId.toNat) = List.range' r.index.stateCount k.stateCount
  fails : (∃ f, (r.register d).result = .error f) ↔
    r.index.hasName d.name = true ∨ (∃ e, d.Refusal e) ∨
      (∃ id, d.legacyId = some id ∧ r.index.hasLegacyId id = true) ∨
      UInt32.size < r.index.stateCount + (d.properties.map Property.size).prod
  leaves : ∀ f, (r.register d).result = .error f → r.attempt d = r

theorem Consecutive.attempt {r : Registry} (consecutive : r.Consecutive) (d : Declaration) :
    r.Attempt d := by
  refine ⟨fun s k h => ?_, register_fails_iff consecutive, fun f => attempt_of_error⟩
  have sound := register_sound consecutive.sound h
  obtain ⟨_, same, _, built⟩ := register_adds consecutive.sound h
  refine ⟨attempt_of_ok h, ?_, ?_, register_numbers consecutive h⟩
  · refine (Index.kind_eq_ok_iff sound.index).mpr ⟨?_, built.name⟩
    rw [same, Index.kinds_add]
    exact List.mem_append_right _ (List.mem_singleton_self k)
  · rw [same]
    rfl

/-- A global registry stays dense and keeps its answers, whatever is attempted. -/
theorem attempts_grow (id : RegistryId) : ∃ start, (newGlobal id).result = .ok start ∧
    ∀ run : List Declaration, (start.attempts run).Dense ∧
      (∀ d, (start.attempts run).Attempt d) ∧
      ∀ later, (start.attempts run).Remembers (start.attempts (run ++ later)) := by
  obtain ⟨start, made⟩ := newGlobal_ok id
  refine ⟨start, made, fun run => ?_⟩
  have consecutive := ((Global.start made).attempts run).consecutive
  refine ⟨consecutive.dense, consecutive.attempt, fun later => ?_⟩
  rw [attempts_append]
  exact attempts_remember consecutive.sound later

end Registry

end Voxel
