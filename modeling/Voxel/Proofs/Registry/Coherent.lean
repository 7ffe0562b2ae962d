import Voxel.Proofs.Version.Lookup

/-!
# Registries and their look-ups

`Built` collects the registries there are in a program, and `Built.coherent` shows that all the ways
to look something up in one of them tell the same of it.
-/

namespace Voxel

/-- A registry there is in a program: a global one, or that of a version. -/
inductive Registry.Built (r : Registry) : Prop
  | isGlobal (h : Global r)
  | ofVersion {id : RegistryId} {d : VersionDescription} {global : Registry}
      (h : (Version.build id d global).result = .ok r)

namespace Registry

theorem Built.sound {r : Registry} (built : r.Built) : r.Sound := by
  cases built with
  | isGlobal h => exact h.sound
  | @ofVersion id d global h =>
    rcases Version.build_cases id d global with ⟨_, s, same, _, represents⟩ | ⟨_, _, refused⟩
    · obtain rfl := Except.ok.inj (same.symm.trans h)
      obtain ⟨k, member, _, air⟩ := represents.air
      exact ⟨represents.tables.faithful, Index.mem_states.mpr (air ▸ member)⟩
    · rw [h] at refused
      cases refused

theorem Sound.knows_air {r : Registry} (sound : r.Sound) :
    r.index.hasRuntimeId r.air.runtimeId = true :=
  (Index.hasRuntimeId_eq_true sound.index).mpr ⟨r.air, sound.air, rfl⟩

theorem Sound.knows_ofTexts {r : Registry} (sound : r.Sound) {name : Name}
    {texts : List (String × String)} {t : BlockState} (h : r.stateOfTexts name texts = .ok t) :
    r.index.hasRuntimeId t.runtimeId = true := by
  obtain ⟨k, found, h⟩ := Outcome.bind_ok h
  have kind := BlockKind.kind_of_stateOfTexts h
  have member := ((Index.kind_eq_ok_iff sound.index).mp found).1
  exact (Index.hasRuntimeId_eq_true sound.index).mpr ⟨t, Index.mem_states.mpr (kind ▸ member), rfl⟩

section

variable {r : Registry} (faithful : r.index.Faithful)
include faithful

theorem state_cases (id : StateId) :
    (r.index.hasRuntimeId id = true ∧ ∃ s ∈ r.index.states, r.index.state id = .ok s ∧
      s.runtimeId = id) ∨
    (r.index.hasRuntimeId id = false ∧ r.index.state id = .error (.unknownRuntimeId id)) := by
  unfold Index.hasRuntimeId Index.state
  cases found : r.index.state? id with
  | some s =>
    obtain ⟨member, same⟩ := (faithful.byRuntimeId id s).mp found
    exact Or.inl ⟨rfl, s, member, rfl, same⟩
  | none => exact Or.inr ⟨rfl, rfl⟩

theorem stateOfLegacy_eq_ok_iff {p : LegacyPair} {s : BlockState} :
    r.stateOfLegacy p = .ok s ↔ s ∈ r.index.states ∧ s.legacy = some p := by
  unfold stateOfLegacy
  constructor
  · intro found
    obtain ⟨id, pair, there⟩ := Outcome.bind_ok found
    obtain ⟨member, same⟩ := (Index.state_eq_ok_iff faithful).mp there
    obtain ⟨t, inside, legacy, sameToo⟩ := (Index.legacyRuntimeId_eq_ok_iff faithful).mp pair
    rw [faithful.eq_of_runtimeId member inside (same.trans sameToo.symm)]
    exact ⟨inside, legacy⟩
  · rintro ⟨member, legacy⟩
    rw [(Index.legacyRuntimeId_eq_ok_iff faithful).mpr ⟨s, member, legacy, rfl⟩, Outcome.ok_bind]
    exact (Index.state_eq_ok_iff faithful).mpr ⟨member, rfl⟩

theorem legacyPair_cases (p : LegacyPair) :
    (r.index.hasLegacyPair p = true ∧ ∃ s ∈ r.index.states, r.stateOfLegacy p = .ok s ∧
      r.index.legacyRuntimeId p = .ok s.runtimeId ∧ s.legacy = some p) ∨
    (r.index.hasLegacyPair p = false ∧
      r.stateOfLegacy p = .error (.unknownLegacyState p.id p.data) ∧
      r.index.legacyRuntimeId p = .error (.unknownLegacyState p.id p.data)) := by
  obtain ⟨known, id, found, _⟩ | ⟨unknown, missing⟩ := Index.legacyRuntimeId_cases faithful p
  · obtain ⟨s, member, legacy, rfl⟩ := (Index.legacyRuntimeId_eq_ok_iff faithful).mp found
    exact Or.inl ⟨known, s, member, (stateOfLegacy_eq_ok_iff faithful).mpr ⟨member, legacy⟩, found,
      legacy⟩
  · refine Or.inr ⟨unknown, ?_, missing⟩
    rw [stateOfLegacy, missing]
    rfl

theorem nameOfLegacy_eq_ok_iff {id : UInt16} {name : Name} :
    r.nameOfLegacy id = .ok name ↔
      ∃ k ∈ r.index.kinds.toList, k.legacyId = some id ∧ k.name = name := by
  unfold nameOfLegacy
  constructor
  · intro found
    obtain ⟨k, there, named⟩ := Outcome.map_ok found
    obtain ⟨member, old⟩ := (Index.legacyKind_eq_ok_iff faithful).mp there
    exact ⟨k, member, old, named⟩
  · rintro ⟨k, member, old, rfl⟩
    rw [(Index.legacyKind_eq_ok_iff faithful).mpr ⟨member, old⟩]
    rfl

theorem legacyId_eq_ok_iff {name : Name} {id : UInt16} :
    r.legacyId name = .ok id ↔ ∃ k ∈ r.index.kinds.toList, k.legacyId = some id ∧ k.name = name := by
  unfold legacyId
  constructor
  · intro found
    obtain ⟨k, there, rest⟩ := Outcome.bind_ok found
    obtain ⟨member, named⟩ := (Index.kind_eq_ok_iff faithful).mp there
    cases old : k.legacyId with
    | none => rw [old] at rest; cases rest
    | some i =>
      rw [old] at rest
      cases rest
      exact ⟨k, member, old, named⟩
  · rintro ⟨k, member, old, named⟩
    rw [(Index.kind_eq_ok_iff faithful).mpr ⟨member, named⟩, Outcome.ok_bind]
    simp only [old]
    rfl

theorem legacyKind_cases (id : UInt16) :
    (r.index.hasLegacyId id = true ∧ ∃ k ∈ r.index.kinds.toList, r.index.legacyKind id = .ok k ∧
      r.nameOfLegacy id = .ok k.name ∧ k.legacyId = some id) ∨
    (r.index.hasLegacyId id = false ∧ r.index.legacyKind id = .error (.unknownLegacyId id) ∧
      r.nameOfLegacy id = .error (.unknownLegacyId id)) := by
  unfold nameOfLegacy Index.legacyKind Index.hasLegacyId
  rw [Std.TreeMap.contains_eq_isSome_getElem?]
  cases found : r.index.byLegacyId[id]? with
  | some k =>
    obtain ⟨member, old⟩ := (faithful.byLegacyId id k).mp found
    exact Or.inl ⟨rfl, k, member, rfl, rfl, old⟩
  | none => exact Or.inr ⟨rfl, rfl, rfl⟩

theorem maxRuntimeId_spec {s : BlockState} (member : s ∈ r.index.states) :
    r.index.hasRuntimeId r.index.maxRuntimeId = true ∧
      ∀ id, r.index.hasRuntimeId id = true → id ≤ r.index.maxRuntimeId := by
  have used := lt_limit_of_mem faithful member
  have word := faithful.limit_le
  have value : r.index.maxRuntimeId.toNat = r.index.limit - 1 :=
    UInt32.toNat_ofNat_of_lt' (by omega)
  constructor
  · obtain ⟨t, inside, last⟩ := faithful.limit_used (by omega)
    refine (Index.hasRuntimeId_eq_true faithful).mpr ⟨t, inside, UInt32.toNat_inj.mp ?_⟩
    omega
  · intro id known
    have below := Index.lt_limit_of_hasRuntimeId known
    rw [UInt32.le_iff_toNat_le]
    omega

theorem nodup_names : (r.index.kinds.toList.map BlockKind.name).Nodup := by
  rw [List.Nodup, List.pairwise_map]
  exact faithful.nodup_kinds.imp_of_mem fun left right other same =>
    other (faithful.eq_of_name left right same)

end

/-- All look-ups of a registry tell the same of it. -/
structure Coherent (r : Registry) : Prop where
  state : ∀ id,
    (r.index.hasRuntimeId id = true ∧ ∃ s ∈ r.index.states, r.index.state id = .ok s ∧
      s.runtimeId = id) ∨
    (r.index.hasRuntimeId id = false ∧ r.index.state id = .error (.unknownRuntimeId id))
  ownState : ∀ k ∈ r.index.kinds.toList, ∀ s ∈ k.states, r.index.state s.runtimeId = .ok s
  legacyPair : ∀ p,
    (r.index.hasLegacyPair p = true ∧ ∃ s ∈ r.index.states, r.stateOfLegacy p = .ok s ∧
      r.index.legacyRuntimeId p = .ok s.runtimeId ∧ s.legacy = some p) ∨
    (r.index.hasLegacyPair p = false ∧
      r.stateOfLegacy p = .error (.unknownLegacyState p.id p.data) ∧
      r.index.legacyRuntimeId p = .error (.unknownLegacyState p.id p.data))
  ownLegacyPair : ∀ k ∈ r.index.kinds.toList, ∀ s ∈ k.states, ∀ p, s.legacy = some p →
    r.stateOfLegacy p = .ok s
  kind : ∀ name,
    (r.index.hasName name = true ∧ ∃ k ∈ r.index.kinds.toList, r.index.kind name = .ok k ∧
      k.name = name) ∨
    (r.index.hasName name = false ∧ r.index.kind name = .error (.unknownName name))
  ownKind : ∀ k ∈ r.index.kinds.toList, r.index.kind k.name = .ok k
  legacyKind : ∀ id,
    (r.index.hasLegacyId id = true ∧ ∃ k ∈ r.index.kinds.toList, r.index.legacyKind id = .ok k ∧
      r.nameOfLegacy id = .ok k.name ∧ k.legacyId = some id) ∨
    (r.index.hasLegacyId id = false ∧ r.index.legacyKind id = .error (.unknownLegacyId id) ∧
      r.nameOfLegacy id = .error (.unknownLegacyId id))
  legacyId : ∀ name id, r.legacyId name = .ok id ↔ r.nameOfLegacy id = .ok name
  runtimeIds : (r.index.states.map BlockState.runtimeId).Nodup ∧
    ∀ id, id ∈ r.index.states.map BlockState.runtimeId ↔ r.index.hasRuntimeId id = true
  stateCount : r.index.stateCount = (r.index.states.map BlockState.runtimeId).length
  maxRuntimeId : r.index.hasRuntimeId r.index.maxRuntimeId = true ∧
    ∀ id, r.index.hasRuntimeId id = true → id ≤ r.index.maxRuntimeId
  names : (r.index.kinds.toList.map BlockKind.name).Nodup ∧
    ∀ name, name ∈ r.index.kinds.toList.map BlockKind.name ↔ r.index.hasName name = true
  legacyIds : r.index.legacyIds.Pairwise (fun a b => a.1 < b.1) ∧
    ∀ id name, (id, name) ∈ r.index.legacyIds ↔ r.nameOfLegacy id = .ok name

/-- The look-ups of every registry there is in a program agree. -/
theorem Built.coherent {r : Registry} (built : r.Built) : r.Coherent := by
  have sound := built.sound
  have faithful := sound.index
  refine ⟨state_cases faithful, fun k inside s member => ?_, legacyPair_cases faithful,
    fun k inside s member p legacy => ?_, fun name => ?_, fun k inside => ?_,
    legacyKind_cases faithful, fun name id => ?_, ⟨faithful.distinct, fun id => ?_⟩, ?_,
    maxRuntimeId_spec faithful sound.air, ⟨nodup_names faithful, fun name => ?_⟩,
    ⟨r.index.rising_legacyIds, fun id name => ?_⟩⟩
  · obtain rfl := BlockKind.mem_states.mp member
    exact (Index.state_eq_ok_iff faithful).mpr ⟨Index.mem_states.mpr inside, rfl⟩
  · obtain rfl := BlockKind.mem_states.mp member
    exact (stateOfLegacy_eq_ok_iff faithful).mpr ⟨Index.mem_states.mpr inside, legacy⟩
  · obtain ⟨k, member, named, found, _⟩ | ⟨absent, unknown⟩ := Index.kind_cases faithful name
    · exact Or.inl ⟨(Index.hasName_eq_true faithful).mpr ⟨k, member, named⟩, k, member, found, named⟩
    · exact Or.inr ⟨(Index.hasName_eq_false faithful).mpr absent, unknown⟩
  · exact (Index.kind_eq_ok_iff faithful).mpr ⟨inside, rfl⟩
  · rw [legacyId_eq_ok_iff faithful, nameOfLegacy_eq_ok_iff faithful]
  · rw [List.mem_map, Index.hasRuntimeId_eq_true faithful]
  · rw [List.length_map, faithful.stateCount]
  · rw [List.mem_map, Index.hasName_eq_true faithful]
  · rw [Index.mem_legacyIds faithful, nameOfLegacy_eq_ok_iff faithful]

theorem coherent_lamps : ∃ global r, (newGlobal 0).result = .ok global ∧
    (Version.build 1 Version.lamps global).result = .ok r ∧ global.Coherent ∧ r.Coherent := by
  obtain ⟨global, made⟩ := newGlobal_ok 0
  obtain ⟨_, r, built, _⟩ | ⟨bad, _⟩ := Version.build_cases 1 Version.lamps global
  · exact ⟨global, r, made, built, Built.coherent (.isGlobal (.start made)),
      Built.coherent (.ofVersion built)⟩
  · exact absurd Version.lamps_wellFormed bad

end Registry

end Voxel
