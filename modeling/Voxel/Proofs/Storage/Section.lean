import Voxel.Proofs.Storage.Upgrade
import Voxel.Storage.Section

/-!
# Sections of old layers

The layers of an upgraded section are put together again state by state. `read_fluids` says what the
second layer tells of a cell, and `merged_ofLegacy` what the two layers make up: the old state, unless
its fluid is air, which in the second layer stands for no fluid. `fillsWithAir_iff` finds such states in
the description of a version.
-/

namespace Voxel

/-- A state that a property marks as full of air. -/
def VersionDescription.FillsWithAir (d : VersionDescription) (id : StateId) : Prop :=
  ∃ f g, d.fluids = some f ∧ f.fluid = some .air ∧ f.IsFlooded d g ∧ g.filled = id

namespace Version

variable {d : VersionDescription} {r : Registry}

theorem Represents.isDefault_air (represents : Represents d r) {name : Name} :
    d.IsDefault name r.air.runtimeId ↔ name = .air := by
  obtain ⟨air, member, named, same⟩ := represents.air
  constructor
  · intro isDefault
    have ⟨b, declared, _⟩ := isDefault
    obtain ⟨k, there, rfl⟩ :=
      represents.tables.mem_keys.mp (List.mem_map_of_mem (f := Prod.fst) declared)
    have runtimeId := (represents.tables.isDefault_iff there).mp isDefault
    rw [same] at runtimeId
    have equal := represents.tables.faithful.eq_of_runtimeId (Index.mem_states.mpr member)
      (Index.mem_states.mpr there) runtimeId
    have kind : air = k := congrArg BlockState.kind equal
    rw [← kind, named]
  · rintro rfl
    rw [same, ← named]
    exact (represents.tables.isDefault_iff member).mpr rfl

theorem Drains.ne {b : BlockDescription} {property : String} {s t : StateDescription}
    (ids : (b.states.map (·.id)).Nodup) (inS : s ∈ b.states) (inT : t ∈ b.states)
    (drains : s.Drains property t) : s.id ≠ t.id := by
  intro same
  obtain rfl := List.inj_on_of_nodup_map ids inS inT same
  obtain ⟨full, member, like⟩ := drains.full
  obtain ⟨empty, memberToo, likeToo⟩ := drains.empty
  rw [value_unique s.values.nodup member memberToo, likeToo] at like
  exact absurd like (by decide)

theorem Represents.fillsWithAir_iff (represents : Represents d r) (wellFormed : d.WellFormed)
    {id : StateId} : d.FillsWithAir id ↔
      r.fluids.extract id = r.air.runtimeId ∧ r.fluids.strip id ≠ id := by
  unfold FluidTable.extract FluidTable.strip
  constructor
  · rintro ⟨f, g, given, fluid, flooded, rfl⟩
    rw [(represents.fluids.split g).mpr ⟨f, given, Or.inr flooded⟩]
    obtain ⟨_, name, _, named, isDefault, e, member, s, inS, t, inT, drains, filled, drained⟩ := flooded
    obtain rfl := Option.some.inj (fluid.symm.trans named)
    obtain ⟨air, there, airNamed, same⟩ := represents.air
    have ids := (List.nodup_flatMap.mp wellFormed.ids).1 e member
    refine ⟨?_, ?_⟩
    · dsimp only
      rw [same]
      exact (represents.tables.isDefault_iff there).mp (airNamed ▸ isDefault)
    · rw [filled, drained]
      exact (Drains.ne ids inS inT drains).symm
  · cases found : r.fluids.split[id]? with
    | none => exact fun both => absurd rfl both.2
    | some parts =>
      obtain ⟨drained, fluid⟩ := parts
      rintro ⟨rfl, other⟩
      obtain ⟨f, given, declared⟩ := (represents.fluids.split ⟨id, drained, _⟩).mp found
      cases declared with
      | inl liquid =>
        -- air as a liquid drains to itself
        obtain ⟨_, _, _, s, _, filled, fluid, isDefault⟩ := liquid
        obtain ⟨air, member, named, same⟩ := represents.air
        have drains := (represents.tables.isDefault_iff member).mp (named.symm ▸ isDefault)
        rw [← same] at drains
        exact absurd (drains.trans (fluid.trans filled.symm)) other
      | inr flooded =>
        have ⟨_, name, _, named, isDefault, _⟩ := flooded
        obtain rfl := represents.isDefault_air.mp isDefault
        exact ⟨f, _, given, named, flooded, rfl⟩

theorem Represents.legacyRuntimeId (represents : Represents d r) (wellFormed : d.WellFormed)
    {e : Name × BlockDescription} (member : e ∈ d.blocks.entries) {s : StateDescription}
    (inside : s ∈ e.2.states) {p : LegacyPair} (old : e.2.legacyId = some p.id)
    (data : e.2.dataOf s = some p.data) : r.index.legacyRuntimeId p = .ok s.id := by
  obtain ⟨t, there, _, matches_⟩ := represents.tables.state member inside
  have legacy : t.legacy = some p := by
    rw [matches_.legacy, old, data]
    rfl
  have low := (wellFormed.blocks e member).data_lt inside data
  have found := (represents.tables.faithful.byLegacyPair p low _).mpr
    ⟨t, there, legacy, matches_.runtimeId⟩
  rw [Index.legacyRuntimeId, if_pos low, found]

end Version

namespace Section

variable {r : Registry} {s : Legacy} {blocks : Flat} {fluids : Option Flat} {p : Position} {c : Cell}

theorem read_blocks (inside : p.cell = .ok c) {id : StateId} (holds : blocks.read c = .ok id) :
    read r ⟨blocks, fluids⟩ 0 p = .ok id := by
  simp only [read, layer, inside, holds, Failure.lift_ok, Outcome.ok_bind]

theorem read_fluids (splitInto : s.SplitInto r blocks fluids) (inside : p.cell = .ok c) {id : StateId}
    (found : s.read r c = .ok id) : read r ⟨blocks, fluids⟩ 1 p = .ok (r.fluidOrAir id) := by
  simp only [read, layer, Failure.lift_ok, Outcome.ok_bind]
  cases missing : fluids with
  | some l =>
    obtain ⟨a, same, _, holds⟩ := splitInto.cells c
    obtain rfl := Except.ok.inj (found.symm.trans same)
    simp only [inside, Outcome.ok_bind, holds l missing, Failure.lift_ok]
  | none =>
    have dry : r.fluids.extract id = 0 := by
      by_contra wet
      have there := splitInto.wet.mpr ⟨c, id, found, wet⟩
      rw [missing] at there
      cases there
    rw [Registry.fluidOrAir, if_pos dry]
    rfl

/-- The layers make up what the table splits, except that air in the second is no fluid. -/
theorem merged_ofLegacy (splits : r.Splits) (splitInto : s.SplitInto r blocks fluids)
    (inside : p.cell = .ok c) {id : StateId} (found : s.read r c = .ok id)
    (combine : r.fluids.combine (r.fluids.strip id) (r.fluids.extract id) = .ok id) :
    merged r ⟨blocks, fluids⟩ p =
      .ok (if r.fluids.extract id = r.air.runtimeId then r.fluids.strip id else id) := by
  obtain ⟨a, same, drained, _⟩ := splitInto.cells c
  obtain rfl := Except.ok.inj (found.symm.trans same)
  rw [merged, read_blocks inside drained, read_fluids splitInto inside found]
  simp only [Outcome.ok_bind]
  unfold Registry.fluidOrAir
  by_cases dry : r.fluids.extract id = 0
  · rw [if_pos dry, if_pos rfl, FluidTable.combine_zero, splits.dry id dry, ite_self]
    rfl
  · rw [if_neg dry]
    split
    · rfl
    · rw [combine]
      rfl

theorem ofLegacy_ok {id : RegistryId} {d : VersionDescription} {global : Registry}
    (built : (Version.build id d global).result = .ok r)
    (all : ∀ c, r.index.hasLegacyPair (s.pairAt c) = true) :
    ∃ t, (ofLegacy r s).result = .ok t ∧ ∀ p c, p.cell = .ok c → ∃ a, s.read r c = .ok a ∧
      t.merged r p =
        .ok (if r.fluids.extract a = r.air.runtimeId then r.fluids.strip a else a) := by
  obtain ⟨wellFormed, represents⟩ := Version.build_ok built
  have splits := Version.build_splits built
  obtain ⟨_, blocks, fluids, run, splitInto⟩ | ⟨c, unknown, _⟩ := Legacy.upgrade_cases splits s
  · refine ⟨⟨blocks, fluids⟩, ?_, fun p c inside => ?_⟩
    · rw [ofLegacy, Report.result_bind, run]
      rfl
    · obtain ⟨a, found, _⟩ := splitInto.cells c
      exact ⟨a, found, merged_ofLegacy splits splitInto inside found
        (represents.combine_parts wellFormed a)⟩
  · rw [all c] at unknown
    cases unknown

/-- The section of an old layer gives back every state, except that those full of air come back
drained. -/
theorem merged_ofLegacy_eq {id : RegistryId} {d : VersionDescription} {global : Registry}
    (built : (Version.build id d global).result = .ok r)
    (all : ∀ c, r.index.hasLegacyPair (s.pairAt c) = true) :
    ∃ t, (ofLegacy r s).result = .ok t ∧ ∀ p c, p.cell = .ok c → ∃ a, s.read r c = .ok a ∧
      (¬ d.FillsWithAir a → t.merged r p = .ok a) ∧
      (d.FillsWithAir a → t.merged r p = .ok (r.fluids.strip a) ∧ r.fluids.strip a ≠ a) := by
  obtain ⟨wellFormed, represents⟩ := Version.build_ok built
  obtain ⟨t, made, cells⟩ := ofLegacy_ok built all
  refine ⟨t, made, fun p c inside => ?_⟩
  obtain ⟨a, found, merged⟩ := cells p c inside
  refine ⟨a, found, fun other => ?_, fun full => ?_⟩
  · rw [merged]
    by_cases air : r.fluids.extract a = r.air.runtimeId
    · have whole : r.fluids.strip a = a := by
        by_contra loses
        exact other ((represents.fillsWithAir_iff wellFormed).mpr ⟨air, loses⟩)
      rw [if_pos air, whole]
    · rw [if_neg air]
  · obtain ⟨air, loses⟩ := (represents.fillsWithAir_iff wellFormed).mp full
    rw [merged, if_pos air]
    exact ⟨rfl, loses⟩

end Section

section

open Version

def mist : VersionDescription :=
  ⟨"mist", ⟨[(.air, plainBlock 0 1), (.standard "lamp", lampBlock)], by decide⟩,
    some ⟨[], some "lit", some .air⟩⟩

theorem eq_of_declares_mist {g : Filling}
    (declared : FluidDescription.Declares ⟨[], some "lit", some .air⟩ mist g) : g = ⟨5, 4, 1⟩ := by
  obtain ⟨e, _, none, _⟩ | ⟨_, _, property, fluid, isDefault, flooded⟩ := declared
  · exact absurd none List.not_mem_nil
  cases property
  cases fluid
  obtain ⟨b, air, u, there, _, same⟩ := isDefault
  obtain ⟨e, member, s, inS, t, inT, drains, filled, drained⟩ := flooded
  have fluid : g.fluid = 1 := by
    obtain first | second := List.mem_pair.mp air
    · obtain ⟨_, rfl⟩ := Prod.mk.inj first
      obtain rfl := List.mem_singleton.mp there
      exact same.symm
    · exact absurd (Prod.mk.inj second).1 (by decide)
  obtain rfl | rfl := List.mem_pair.mp member
  · obtain ⟨full, yes, _⟩ := drains.full
    obtain rfl := List.mem_singleton.mp inS
    exact absurd yes List.not_mem_nil
  · obtain ⟨five, four⟩ := drains_lampBlock inS inT drains
    cases g
    cases filled.trans five
    cases drained.trans four
    cases fluid
    rfl

theorem mist_wellFormed : mist.WellFormed where
  blocks e member := by
    obtain rfl | rfl := List.mem_pair.mp member
    · exact plainBlock_wellFormed (by decide) (by decide)
    · exact lampBlock_wellFormed
  legacyIds := by decide
  air := by decide
  ids := by decide
  fluids f given := by
    cases given
    refine ⟨fun _ member => absurd member List.not_mem_nil, ?_, ?_, ⟨?_, ?_⟩⟩
    · intro _ given
      exact ⟨.air, rfl, by decide⟩
    · intro property given e member values declared
      cases given
      obtain rfl | rfl := List.mem_pair.mp member
      · exact absurd declared List.not_mem_nil
      · obtain rfl := (Prod.mk.inj (List.mem_singleton.mp declared)).2
        exact ⟨by decide, by decide, by decide⟩
    · intro g declared
      rw [eq_of_declares_mist declared]
      decide
    · intro g h left right _
      rw [eq_of_declares_mist left, eq_of_declares_mist right]

theorem isFlooded_mist : FluidDescription.IsFlooded ⟨[], some "lit", some .air⟩ mist ⟨5, 4, 1⟩ := by
  refine ⟨"lit", .air, rfl, rfl, ?_, ?_⟩
  · exact ⟨plainBlock 0 1, List.mem_cons_self, _, List.mem_singleton_self _, rfl, rfl⟩
  · refine ⟨_, List.mem_cons_of_mem _ (List.mem_singleton_self _), _, List.mem_cons_self, _,
      List.mem_cons_of_mem _ (List.mem_singleton_self _), ⟨?_, ?_, ?_⟩, rfl, rfl⟩
    · exact ⟨"TRUE", List.mem_singleton_self _, by decide⟩
    · exact ⟨"false", List.mem_singleton_self _, rfl⟩
    · intro p a b other given
      exact absurd (Prod.mk.inj (List.mem_singleton.mp given)).1 other

theorem strip_mist {r : Registry} (represents : Represents mist r) : r.fluids.strip 5 = 4 := by
  have split : r.fluids.split[(5 : StateId)]? = some (4, 1) :=
    (represents.fluids.split ⟨5, 4, 1⟩).mpr ⟨_, rfl, Or.inr isFlooded_mist⟩
  rw [FluidTable.strip, split]

def lampRow : Legacy := ⟨1, Vector.replicate _ 7, Vector.replicate _ 0x91, none⟩

theorem pairAt_lampRow (c : Cell) : lampRow.pairAt c = if c.val % 2 = 0 then ⟨7, 1⟩ else ⟨7, 9⟩ := by
  have id : lampRow.idAt c = 7 := by
    unfold Legacy.idAt lampRow
    simp
  unfold Legacy.pairAt
  rw [id]
  unfold Legacy.dataAt Nibbles.get lampRow
  simp only [Vector.getElem_replicate]
  split <;> rfl

theorem read_lampRow {r : Registry} (represents : Represents mist r) (c : Cell) :
    lampRow.read r c = .ok (if c.val % 2 = 0 then 5 else 4) := by
  have lamp : (.standard "lamp", lampBlock) ∈ mist.blocks.entries :=
    List.mem_cons_of_mem _ (List.mem_singleton_self _)
  have lit : r.index.legacyRuntimeId ⟨7, 1⟩ = .ok 5 :=
    represents.legacyRuntimeId mist_wellFormed lamp List.mem_cons_self rfl (by decide)
  have dark : r.index.legacyRuntimeId ⟨7, 9⟩ = .ok 4 :=
    represents.legacyRuntimeId mist_wellFormed lamp
      (List.mem_cons_of_mem _ (List.mem_singleton_self _)) rfl (by decide)
  unfold Legacy.read
  rw [pairAt_lampRow]
  split
  · exact lit
  · exact dark

theorem hasLegacyPair_lampRow {r : Registry} (represents : Represents mist r) (c : Cell) :
    r.index.hasLegacyPair (lampRow.pairAt c) = true := by
  obtain ⟨known, _⟩ | ⟨_, unknown⟩ :=
    Index.legacyRuntimeId_cases represents.tables.faithful (lampRow.pairAt c)
  · exact known
  · cases unknown.symm.trans (read_lampRow represents c)

theorem merged_ofLegacy_lampRow : ∃ global r, (build 1 mist global).result = .ok r ∧
    (∀ c, r.index.hasLegacyPair (lampRow.pairAt c) = true) ∧
    ∃ t, (Section.ofLegacy r lampRow).result = .ok t ∧ t.merged r (Cell.position 0) = .ok 4 ∧
      t.merged r (Cell.position 1) = .ok 4 := by
  obtain ⟨global, _⟩ := Registry.newGlobal_ok 0
  obtain ⟨_, r, built, _, represents⟩ | ⟨bad, _⟩ := build_cases 1 mist global
  · have all := hasLegacyPair_lampRow represents
    obtain ⟨t, made, cells⟩ := Section.merged_ofLegacy_eq built all
    refine ⟨global, r, built, all, t, made, ?_, ?_⟩
    · obtain ⟨a, found, _, drained⟩ := cells _ 0 (Cell.cell_position 0)
      obtain rfl : a = 5 := Except.ok.inj (found.symm.trans (read_lampRow represents 0))
      rw [(drained ⟨_, _, rfl, rfl, isFlooded_mist, rfl⟩).1, strip_mist represents]
    · obtain ⟨a, found, whole, _⟩ := cells _ 1 (Cell.cell_position 1)
      obtain rfl : a = 4 := Except.ok.inj (found.symm.trans (read_lampRow represents 1))
      refine whole ?_
      rintro ⟨f, g, given, _, flooded, filled⟩
      cases given
      rw [eq_of_declares_mist (Or.inr flooded)] at filled
      exact absurd filled (by decide)
  · exact absurd mist_wellFormed bad

/-- Not every state comes back. -/
theorem not_merged_ofLegacy : ¬ ∀ (id : RegistryId) (d : VersionDescription) (global r : Registry)
    (s : Legacy), (build id d global).result = .ok r →
    (∀ c, r.index.hasLegacyPair (s.pairAt c) = true) →
    ∃ t, (Section.ofLegacy r s).result = .ok t ∧
      ∀ c a, s.read r c = .ok a → t.merged r c.position = .ok a := by
  intro returns
  obtain ⟨global, _⟩ := Registry.newGlobal_ok 0
  obtain ⟨_, r, built, _, represents⟩ | ⟨bad, _⟩ := build_cases 1 mist global
  · have all := hasLegacyPair_lampRow represents
    obtain ⟨t, made, back⟩ := returns 1 mist global r lampRow built all
    obtain ⟨u, same, cells⟩ := Section.ofLegacy_ok built all
    obtain rfl := Except.ok.inj (made.symm.trans same)
    obtain ⟨a, found, merged⟩ := cells _ 0 (Cell.cell_position 0)
    obtain rfl : a = 5 := Except.ok.inj (found.symm.trans (read_lampRow represents 0))
    have air := ((represents.fillsWithAir_iff mist_wellFormed).mp
      ⟨_, _, rfl, rfl, isFlooded_mist, rfl⟩).1
    rw [back 0 5 found, if_pos air, strip_mist represents] at merged
    exact absurd (Except.ok.inj merged) (by decide)
  · exact absurd mist_wellFormed bad

end

end Voxel
