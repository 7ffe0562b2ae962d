import Mathlib.Data.List.OfFn
import Voxel.Proofs.Block.Declaration
import Voxel.Proofs.Property
import Voxel.Proofs.Radix
import Voxel.Proofs.Registry.Index
import Voxel.Registry.Global

/-!
# The global registry

`Global` collects what registrations make of a new global registry, and `Global.sound` shows that
the tables of every such registry are faithful. `register_grows` shows that states stay registered.
-/

namespace Voxel

namespace BlockKind

theorem distinct_of_entries {k : BlockKind}
    (runtimeIds : ∀ s t : BlockState, s.kind = k → t.kind = k → s.runtimeId = t.runtimeId →
      s.offset = t.offset)
    (legacy : ∀ s t : BlockState, s.kind = k → t.kind = k → ∀ p, s.legacy = some p →
      t.legacy = some p → s.offset = t.offset)
    (low : ∀ s : BlockState, s.kind = k → ∀ p, s.legacy = some p → p.data < 16) : k.Distinct := by
  refine ⟨?_, ?_, fun s member => low s (mem_states.mp member)⟩
  · rw [List.Nodup, List.pairwise_map, states, List.pairwise_ofFn]
    intro i j less same
    exact Nat.ne_of_lt less (runtimeIds _ _ rfl rfl same)
  · rw [List.Nodup, List.pairwise_filterMap, states, List.pairwise_ofFn]
    intro i j less p left q right same
    exact Nat.ne_of_lt less (legacy _ _ rfl rfl p left (same ▸ right))

end BlockKind

namespace Declaration

theorem Built.assigns {d : Declaration} {registry : RegistryId}
    {assign : Nat → Except Failure (StateId × Option UInt8)} {k : BlockKind}
    (built : d.Built registry assign k) {s : BlockState} (kind : s.kind = k) :
    ∃ data, assign s.offset = .ok (s.runtimeId, data) ∧
      s.legacy = d.legacyId.bind fun l => data.map fun m => ⟨l, m⟩ := by
  subst kind
  obtain ⟨id, data, assigned, entry⟩ := built.assigned s.offset s.offset_lt
  refine ⟨data, ?_, congrArg StateEntry.legacy entry⟩
  rw [show s.runtimeId = id from congrArg StateEntry.runtimeId entry]
  exact assigned

end Declaration

namespace Registry

/-- The tables are faithful, and air is in them. -/
structure Sound (r : Registry) : Prop where
  index : r.index.Faithful
  air : r.air ∈ r.index.states

/-- A registry that registrations make of a new global one. -/
inductive Global : Registry → Prop
  | start {id : RegistryId} {r : Registry} (h : (newGlobal id).result = .ok r) : Global r
  | register {r s : Registry} {d : Declaration} {k : BlockKind} (before : Global r)
      (h : (r.register d).result = .ok (s, k)) : Global s

theorem freeId_ok {first : StateId} {offset : Nat} {id : StateId} {data : Option UInt8}
    (h : freeId first offset = .ok (id, data)) : id.toNat = first.toNat + offset ∧ data = none := by
  unfold freeId at h
  split at h
  · rename_i small
    cases h
    exact ⟨UInt32.toNat_ofNat_of_lt' small, rfl⟩
  · cases h

theorem legacy_of_freeId {d : Declaration} {registry : RegistryId} {first : StateId} {k : BlockKind}
    (built : d.Built registry (freeId first) k) {s : BlockState} (kind : s.kind = k) :
    s.legacy = none := by
  obtain ⟨data, assigned, old⟩ := built.assigns kind
  rw [old, (freeId_ok assigned).2]
  cases d.legacyId <;> rfl

theorem distinct_of_freeId {d : Declaration} {registry : RegistryId} {first : StateId} {k : BlockKind}
    (built : d.Built registry (freeId first) k) : k.Distinct := by
  refine BlockKind.distinct_of_entries (fun s t left right same => ?_) (fun s t left _ p legacy => ?_)
    fun s kind p legacy => ?_
  · obtain ⟨_, assignedS, _⟩ := built.assigns left
    obtain ⟨_, assignedT, _⟩ := built.assigns right
    have valueS := (freeId_ok assignedS).1
    have valueT := (freeId_ok assignedT).1
    rw [same] at valueS
    omega
  · cases (legacy_of_freeId built left).symm.trans legacy
  · cases (legacy_of_freeId built kind).symm.trans legacy

theorem newGlobal_ok (id : RegistryId) : ∃ r, (newGlobal id).result = .ok r := ⟨_, rfl⟩

theorem newGlobal_eq {id : RegistryId} {r : Registry} (h : (newGlobal id).result = .ok r) :
    ∃ air, Declaration.Built ⟨.air, [], none, none⟩ id (fun _ => .ok (0, none)) air ∧
      r = ⟨id, .global, Index.empty.add air, air.defaultState, .empty⟩ := by
  rw [newGlobal, Report.result_bind, Declaration.result_build] at h
  obtain ⟨air, built, h⟩ := Outcome.bind_ok h
  exact ⟨air, (Declaration.states_ok built).2, (Except.ok.inj h).symm⟩

theorem distinct_of_air {id : RegistryId} {air : BlockKind}
    (built : Declaration.Built ⟨.air, [], none, none⟩ id (fun _ => .ok (0, none)) air) :
    air.Distinct := by
  have one : ∀ s : BlockState, s.kind = air → s.offset = 0 := by
    rintro s rfl
    have inside := s.offset_lt
    rw [s.kind.size_entries, built.properties] at inside
    exact Nat.lt_one_iff.mp inside
  refine BlockKind.distinct_of_entries (fun s t left right _ => ?_)
    (fun s t left right _ _ _ => ?_) fun s kind p legacy => ?_
  · rw [one s left, one t right]
  · rw [one s left, one t right]
  · obtain ⟨_, _, none⟩ := built.assigns kind
    cases none.symm.trans legacy

theorem newGlobal_sound {id : RegistryId} {r : Registry} (h : (newGlobal id).result = .ok r) :
    r.Sound := by
  obtain ⟨air, built, rfl⟩ := newGlobal_eq h
  refine ⟨Index.add_faithful Index.empty_faithful (distinct_of_air built) (Index.empty_free air), ?_⟩
  rw [Index.states_add, List.mem_append]
  exact Or.inr (BlockKind.mem_states.mpr rfl)

theorem register_ok {r s : Registry} {d : Declaration} {k : BlockKind}
    (h : (r.register d).result = .ok (s, k)) : r.index.hasName d.name = false ∧
      ∃ index, r.index.insert k = .ok index ∧ s = { r with index } ∧
        d.Valid ∧ d.Built r.id (freeId (UInt32.ofNat r.index.limit)) k := by
  unfold register at h
  dsimp only at h
  split at h
  · cases h
  rename_i unnamed
  rw [Report.result_bind, Declaration.result_build] at h
  obtain ⟨kind, built, h⟩ := Outcome.bind_ok h
  rw [Report.result_bind, Report.result_liftError] at h
  obtain ⟨index, inserted, h⟩ := Outcome.bind_ok h
  cases h
  refine ⟨Bool.eq_false_iff.mpr unnamed, index, ?_, rfl, Declaration.states_ok built⟩
  have placed := Failure.lift_eq_ok inserted
  cases given : r.index.insert k with
  | error c => rw [given] at placed; cases placed
  | ok other => rw [given] at placed; rw [Except.ok.inj placed]

/-- A registration adds a kind of which nothing is taken. -/
theorem register_adds {r s : Registry} {d : Declaration} {k : BlockKind} (sound : r.Sound)
    (h : (r.register d).result = .ok (s, k)) : r.index.Free k ∧
      s = { r with index := r.index.add k } ∧ d.Valid ∧
      d.Built r.id (freeId (UInt32.ofNat r.index.limit)) k := by
  obtain ⟨_, index, inserted, rfl, valid, built⟩ := register_ok h
  obtain ⟨free, rfl⟩ :=
    (Index.insert_eq_ok_iff sound.index (distinct_of_freeId built)).mp inserted
  exact ⟨free, rfl, valid, built⟩

theorem register_sound {r s : Registry} {d : Declaration} {k : BlockKind} (sound : r.Sound)
    (h : (r.register d).result = .ok (s, k)) : s.Sound := by
  obtain ⟨free, rfl, _, built⟩ := register_adds sound h
  refine ⟨Index.add_faithful sound.index (distinct_of_freeId built) free, ?_⟩
  rw [Index.states_add, List.mem_append]
  exact Or.inl sound.air

theorem Global.fluids_eq {r : Registry} (h : Global r) : r.fluids = .empty := by
  induction h with
  | start h =>
    obtain ⟨_, _, rfl⟩ := newGlobal_eq h
    rfl
  | register _ h ih =>
    obtain ⟨_, _, _, rfl, _⟩ := register_ok h
    exact ih

theorem Global.sound {r : Registry} (h : Global r) : r.Sound := by
  induction h with
  | start h => exact newGlobal_sound h
  | register _ h ih => exact register_sound ih h

theorem Global.names {r : Registry} (h : Global r) :
    ∀ k ∈ r.index.kinds.toList, (k.properties.map Property.name).Nodup := by
  induction h with
  | start h =>
    obtain ⟨air, built, rfl⟩ := newGlobal_eq h
    intro k member
    rw [Index.kinds_add] at member
    have same : k = air := by simpa [Index.empty] using member
    rw [same, built.properties]
    exact List.nodup_nil
  | register before h ih =>
    obtain ⟨_, rfl, valid, built⟩ := register_adds before.sound h
    intro k member
    rw [Index.kinds_add, List.mem_append, List.mem_singleton] at member
    cases member with
    | inl old => exact ih k old
    | inr new =>
      rw [new, built.properties]
      exact valid.sound.names

theorem Global.isGlobal {r : Registry} (h : Global r) : r.isGlobal = true := by
  induction h with
  | start h =>
    obtain ⟨_, _, rfl⟩ := newGlobal_eq h
    rfl
  | register _ h ih =>
    obtain ⟨_, _, _, rfl, _⟩ := register_ok h
    exact ih

theorem id_register {r s : Registry} {d : Declaration} {k : BlockKind}
    (h : (r.register d).result = .ok (s, k)) : s.id = r.id := by
  obtain ⟨_, _, _, rfl, _⟩ := register_ok h
  rfl

theorem register_kind {r s : Registry} {d : Declaration} {k : BlockKind} (sound : r.Sound)
    (h : (r.register d).result = .ok (s, k)) :
    s.index.kind d.name = .ok k ∧ k.properties = d.properties := by
  have later := register_sound sound h
  obtain ⟨_, rfl, _, built⟩ := register_adds sound h
  refine ⟨(Index.kind_eq_ok_iff later.index).mpr ⟨?_, built.name⟩, built.properties⟩
  rw [Index.kinds_add]
  exact List.mem_append_right _ (List.mem_singleton_self k)

theorem register_grows {r s : Registry} {d : Declaration} {k : BlockKind} (sound : r.Sound)
    (h : (r.register d).result = .ok (s, k)) {id : StateId} (known : r.index.hasRuntimeId id = true) :
    s.index.hasRuntimeId id = true := by
  have later := register_sound sound h
  obtain ⟨_, rfl, _⟩ := register_adds sound h
  obtain ⟨t, member, same⟩ := (Index.hasRuntimeId_eq_true sound.index).mp known
  refine (Index.hasRuntimeId_eq_true later.index).mpr ⟨t, ?_, same⟩
  rw [Index.states_add, List.mem_append]
  exact Or.inl member

/-! ### Registrations that succeed -/

theorem lt_limit_of_mem {x : Index} (faithful : x.Faithful) {t : BlockState} (member : t ∈ x.states) :
    t.runtimeId.toNat < x.limit :=
  Index.lt_limit_of_hasRuntimeId ((Index.hasRuntimeId_eq_true faithful).mpr ⟨t, member, rfl⟩)

theorem free_of_freeId {x : Index} (faithful : x.Faithful) {d : Declaration} {registry : RegistryId}
    {k : BlockKind} (room : x.limit < UInt32.size)
    (built : d.Built registry (freeId (UInt32.ofNat x.limit)) k) (name : x.hasName d.name = false)
    (legacyId : ∀ id, d.legacyId = some id → x.hasLegacyId id = false) : x.Free k := by
  refine ⟨fun j member => ?_, fun j member id old => ?_, fun s state => ⟨?_, ?_⟩⟩
  · rw [built.name]
    exact (Index.hasName_eq_false faithful).mp name j member
  · rw [built.legacyId] at old
    exact (Index.hasLegacyId_eq_false faithful).mp (legacyId id old) j member
  · intro t member same
    obtain ⟨_, assigned, _⟩ := built.assigns (BlockKind.mem_states.mp state)
    have value := (freeId_ok assigned).1
    have below := lt_limit_of_mem faithful member
    rw [UInt32.toNat_ofNat_of_lt' room] at value
    rw [same] at below
    omega
  · intro t _ p old
    cases (legacy_of_freeId built (BlockKind.mem_states.mp state)).symm.trans old

/-- A valid declaration is registered if its name and its old number are new and numbers are left. -/
theorem register_total {r : Registry} (sound : r.Sound) {d : Declaration} (valid : d.Valid)
    (name : r.index.hasName d.name = false)
    (legacyId : ∀ id, d.legacyId = some id → r.index.hasLegacyId id = false)
    (room : r.index.limit + Radix.total (d.properties.map Property.size) ≤ UInt32.size) :
    ∃ k, (r.register d).result = .ok ({ r with index := r.index.add k }, k) := by
  have states : 0 < Radix.total (d.properties.map Property.size) := by
    refine Radix.total_pos fun size member => ?_
    obtain ⟨p, inside, rfl⟩ := List.mem_map.mp member
    exact (valid.sound.sizes p inside).1
  have below : r.index.limit < UInt32.size := by omega
  have first := UInt32.toNat_ofNat_of_lt' below
  have total : ∀ offset < Radix.total (d.properties.map Property.size),
      ∃ a, freeId (UInt32.ofNat r.index.limit) offset = .ok a := by
    intro offset less
    refine ⟨_, if_pos ?_⟩
    rw [first]
    omega
  obtain ⟨k, made⟩ := @Declaration.states_total d r.id _ valid total
  have built := (Declaration.states_ok made).2
  have inserted := (Index.insert_eq_ok_iff sound.index (distinct_of_freeId built)).mpr
    ⟨free_of_freeId sound.index below built name legacyId, rfl⟩
  refine ⟨k, ?_⟩
  unfold register
  rw [if_neg (by rw [name]; decide)]
  simp only [Report.result_bind, Declaration.result_build, made, Outcome.ok_bind,
    Report.result_liftError, inserted]
  rfl

theorem newGlobal_kinds {id : RegistryId} {r : Registry} (h : (newGlobal id).result = .ok r) :
    (∀ k ∈ r.index.kinds.toList, k.name = .air ∧ k.legacyId = none) ∧ r.index.limit ≤ 1 := by
  obtain ⟨air, built, rfl⟩ := newGlobal_eq h
  constructor
  · intro k member
    rw [Index.kinds_add] at member
    have same : k = air := by simpa [Index.empty] using member
    rw [same]
    exact ⟨built.name, built.legacyId⟩
  · apply Index.size_foldl_place_le
    · exact Nat.zero_le 1
    · intro s state
      obtain ⟨_, assigned, _⟩ := built.assigns (BlockKind.mem_states.mp state)
      have zero : (0 : StateId) = s.runtimeId := congrArg Prod.fst (Except.ok.inj assigned)
      rw [← zero]
      decide

section

variable {d : Declaration} (valid : d.Sound) (chosen : d.default = none) (name : d.name ≠ .air)
  (legacyId : d.legacyId = none) (room : Radix.total (d.properties.map Property.size) < UInt32.size)
include valid chosen name legacyId room

theorem exists_registered (id : RegistryId) : ∃ start r k, (newGlobal id).result = .ok start ∧
    (start.register d).result = .ok (r, k) := by
  obtain ⟨start, made⟩ := newGlobal_ok id
  have sound := newGlobal_sound made
  obtain ⟨kinds, limit⟩ := newGlobal_kinds made
  have new : start.index.hasName d.name = false := by
    apply (Index.hasName_eq_false sound.index).mpr
    intro k member same
    exact name (same.symm.trans (kinds k member).1)
  have default : ∀ n, d.default = some n → n < Radix.total (d.properties.map Property.size) := by
    intro n given
    cases chosen.symm.trans given
  obtain ⟨k, registered⟩ := register_total sound ⟨valid, Nat.le_of_lt_succ room, default⟩ new
    (fun id given => by rw [legacyId] at given; cases given) (by omega)
  exact ⟨start, _, k, made, registered⟩

theorem exists_global : ∃ r k, Global r ∧ r.index.kind d.name = .ok k ∧ k.properties = d.properties := by
  obtain ⟨start, r, k, made, registered⟩ := exists_registered valid chosen name legacyId room 0
  have global := Global.register (.start made) registered
  exact ⟨r, k, global, register_kind (newGlobal_sound made) registered⟩

end

end Registry
end Voxel
