import Voxel.Proofs.Block.Transition
import Voxel.Proofs.Registry.Coherent
import Voxel.Proofs.Registry.Growth
import Voxel.Registry.Vanilla

/-!
# One state of each kind and values

A state is a kind and an offset, but it is compared by its number. `Distinguishes` is what makes the two
agree: every kind belongs to the registry, no number and no name comes twice, and no kind has two properties
of one name. Whatever a registry is asked for, it answers with states of its kinds (`Yields.member`), and
moving from state to state stays among those of one kind.
-/

namespace Voxel

namespace BlockState

variable {s t : BlockState}

theorem kind_of_withIndex {name : String} {j : Nat} (h : s.withIndex name j = .ok t) :
    t.kind = s.kind := by
  obtain ⟨place, _, h⟩ := Outcome.bind_ok h
  dsimp only at h
  split at h
  · cases h
    rfl
  · cases h

theorem kind_of_withValue {p : Property} {v : Value} (h : s.withValue p v = .ok t) :
    t.kind = s.kind := by
  obtain ⟨place, _, h⟩ := Outcome.bind_ok h
  split at h
  · cases h
    rfl
  · cases h

end BlockState

namespace Registry

/-- A registry in which the number of a state stands for its kind and its values. -/
structure Distinguishes (r : Registry) : Prop where
  sound : r.Sound
  own : ∀ k ∈ r.index.kinds.toList, k.registry = r.id
  names : ∀ k ∈ r.index.kinds.toList, (k.properties.map Property.name).Nodup

theorem Global.own {r : Registry} (h : Global r) : ∀ k ∈ r.index.kinds.toList, k.registry = r.id := by
  induction h with
  | start h =>
    obtain ⟨air, built, rfl⟩ := newGlobal_eq h
    intro k member
    rw [Index.kinds_add] at member
    have same : k = air := by simpa [Index.empty] using member
    rw [same, built.registry]
  | register before h ih =>
    obtain ⟨_, rfl, _, built⟩ := register_adds before.sound h
    intro k member
    rw [Index.kinds_add, List.mem_append, List.mem_singleton] at member
    cases member with
    | inl old => exact ih k old
    | inr new => rw [new, built.registry]

theorem Global.distinguishes {r : Registry} (h : Global r) : r.Distinguishes :=
  ⟨h.sound, h.own, h.names⟩

theorem distinguishes_of_build {id : RegistryId} {d : VersionDescription} {global r : Registry}
    (h : (Version.build id d global).result = .ok r) : r.Distinguishes := by
  obtain ⟨_, s, same, _, represents⟩ | ⟨_, _, refused⟩ := Version.build_cases id d global
  · obtain rfl := Except.ok.inj (same.symm.trans h)
    refine ⟨(Built.ofVersion h).sound, fun k member => ?_, fun k member => ?_⟩
    · obtain ⟨_, _, describes⟩ := represents.tables.block member
      exact describes.registry
    · obtain ⟨_, _, describes⟩ := represents.tables.block member
      exact describes.inferred.names
  · cases h.symm.trans refused

/-! ### What a registry answers with -/

/-- The states that an answer gives: itself, or those of a kind. -/
def Query.states : {α : Type} → Query α → α → List BlockState
  | _, .kind _, k | _, .legacyKind _, k => k.states
  | _, .state _, s | _, .defaultState _, s | _, .legacyDefaultState _, s => [s]
  | _, .stateOfTexts _ _, s | _, .stateOfLegacy _, s => [s]
  | _, .legacyId _, _ | _, .nameOfLegacy _, _ | _, .legacyRuntimeId _, _ => []

/-- The states that come from a registry: air, those of its answers, those met in going through all of it or
through the kind of a state, and what a state becomes by texts or by another value of a property. -/
inductive Yields (r : Registry) : BlockState → Prop
  | air : Yields r r.air
  | answer {α : Type} (q : Query α) {a : α} {t : BlockState} (h : q.answer r = .ok a)
      (given : t ∈ q.states a) : Yields r t
  | visit {t : BlockState} (h : t ∈ r.index.states) : Yields r t
  | sibling {s t : BlockState} (before : Yields r s) (h : t ∈ s.kind.states) : Yields r t
  | ofTexts {s t : BlockState} {texts : List (String × String)} (before : Yields r s)
      (h : s.kind.stateOfTexts texts = .ok t) : Yields r t
  | withIndex {s t : BlockState} {name : String} {j : Nat} (before : Yields r s)
      (h : s.withIndex name j = .ok t) : Yields r t
  | withText {s t : BlockState} {name text : String} (before : Yields r s)
      (h : s.withText name text = .ok t) : Yields r t
  | withValue {s t : BlockState} {p : Property} {v : Value} (before : Yields r s)
      (h : s.withValue p v = .ok t) : Yields r t

section

variable {r : Registry}

theorem Sound.kind_of_answer (sound : r.Sound) {α : Type} {q : Query α} {a : α} (h : q.answer r = .ok a)
    {t : BlockState} (given : t ∈ q.states a) : t.kind ∈ r.index.kinds.toList := by
  cases q with
  | kind name =>
    rw [BlockKind.mem_states.mp given]
    exact ((Index.kind_eq_ok_iff sound.index).mp h).1
  | legacyKind id =>
    rw [BlockKind.mem_states.mp given]
    exact ((Index.legacyKind_eq_ok_iff sound.index).mp h).1
  | state id =>
    obtain rfl := List.mem_singleton.mp given
    exact Index.mem_states.mp ((Index.state_eq_ok_iff sound.index).mp h).1
  | stateOfLegacy p =>
    obtain rfl := List.mem_singleton.mp given
    exact Index.mem_states.mp ((stateOfLegacy_eq_ok_iff sound.index).mp h).1
  | defaultState name =>
    obtain rfl := List.mem_singleton.mp given
    obtain ⟨k, there, rfl⟩ := Outcome.map_ok h
    exact ((Index.kind_eq_ok_iff sound.index).mp there).1
  | legacyDefaultState id =>
    obtain rfl := List.mem_singleton.mp given
    obtain ⟨k, there, rfl⟩ := Outcome.map_ok h
    exact ((Index.legacyKind_eq_ok_iff sound.index).mp there).1
  | stateOfTexts name texts =>
    obtain rfl := List.mem_singleton.mp given
    obtain ⟨k, there, built⟩ := Outcome.bind_ok h
    rw [BlockKind.kind_of_stateOfTexts built]
    exact ((Index.kind_eq_ok_iff sound.index).mp there).1
  | legacyId name => cases given
  | nameOfLegacy id => cases given
  | legacyRuntimeId p => cases given

/-- Nothing comes from a registry but states of its kinds. -/
theorem Yields.member (sound : r.Sound) {t : BlockState} (yields : r.Yields t) : t ∈ r.index.states := by
  rw [Index.mem_states]
  induction yields with
  | air => exact Index.mem_states.mp sound.air
  | answer q h given => exact sound.kind_of_answer h given
  | visit h => exact Index.mem_states.mp h
  | sibling _ h ih => exact BlockKind.mem_states.mp h ▸ ih
  | ofTexts _ h ih => exact BlockKind.kind_of_stateOfTexts h ▸ ih
  | withIndex _ h ih => exact BlockState.kind_of_withIndex h ▸ ih
  | withText _ h ih => exact BlockState.kind_of_withText h ▸ ih
  | withValue _ h ih => exact BlockState.kind_of_withValue h ▸ ih

end

/-! ### States of one registry -/

section

variable {r : Registry} (distinguishes : r.Distinguishes) {s t : BlockState}
include distinguishes

theorem Distinguishes.registry (member : s ∈ r.index.states) : s.registry = r.id :=
  distinguishes.own s.kind (Index.mem_states.mp member)

theorem Distinguishes.eq_of_index (left : s ∈ r.index.states) (right : t ∈ r.index.states)
    (name : s.name = t.name) (values : ∀ p ∈ s.kind.properties, s.index p.name = t.index p.name) :
    s = t := by
  have inside := Index.mem_states.mp left
  have kind := distinguishes.sound.index.eq_of_name inside (Index.mem_states.mp right) name
  exact BlockState.eq_of_index (distinguishes.names s.kind inside) rfl kind.symm values

end

/-! ### Runs of registrations -/

theorem registerAll_attempts (r : Registry) (ds : List Declaration) :
    ∃ run, (r.registerAll ds).1 = r.attempts run := by
  induction ds generalizing r with
  | nil => exact ⟨[], rfl⟩
  | cons d rest ih =>
    cases h : (r.register d).result with
    | error e =>
      refine ⟨[], ?_⟩
      simp only [registerAll, h]
      rfl
    | ok x =>
      obtain ⟨run, same⟩ := ih x.1
      refine ⟨d :: run, ?_⟩
      simp only [registerAll, h]
      rw [same, ← attempt_of_ok h]
      rfl

theorem id_newGlobal {id : RegistryId} {r : Registry} (h : (newGlobal id).result = .ok r) :
    r.id = id := by
  obtain ⟨_, _, rfl⟩ := newGlobal_eq h
  rfl

end Registry

theorem Vanilla.start_attempts {id : RegistryId} {r : Registry} (h : (start id).result = .ok r) :
    ∃ s run, (Registry.newGlobal id).result = .ok s ∧ r = s.attempts run := by
  rw [start, Report.result_bind] at h
  obtain ⟨s, made, h⟩ := Outcome.bind_ok h
  obtain ⟨run, same⟩ := s.registerAll_attempts declarations
  refine ⟨s, run, made, ?_⟩
  rw [← same]
  dsimp only at h
  rw [Report.result_bind] at h
  obtain ⟨_, _, h⟩ := Outcome.bind_ok h
  rw [Report.result_bind, Report.result_log] at h
  exact (Except.ok.inj h).symm

end Voxel
