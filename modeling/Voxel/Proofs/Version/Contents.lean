import Voxel.Proofs.Block.Transition
import Voxel.Proofs.FluidRun
import Voxel.Proofs.Version.Lookup

/-!
# Fluids that states contain

The fluid table of a built registry says of every number what the description says
(`build_contains`). A state of a liquid is nothing but fluid, a state that the property of the
description marks as full contains the fluid of the description, and nothing else contains any.
-/

namespace Voxel

namespace BlockState

/-! ### Truth values of states -/

def Is (s : BlockState) (property : String) (b : Bool) : Prop :=
  ∃ p ∈ s.kind.properties, p.name = property ∧ s.value p = .ok (.bool b)

/-- A state in which one property of another is false, and all others are as they were. -/
structure Drained (s : BlockState) (property : String) (t : BlockState) : Prop where
  kind : t.kind = s.kind
  empty : t.Is property false
  others : ∀ p ∈ s.kind.properties, p.name ≠ property → t.value p = s.value p

section

variable {k : BlockKind} (names : (k.properties.map Property.name).Nodup) {s t : BlockState}
  (kind : s.kind = k) {p : Property} (member : p ∈ k.properties)
include names kind member

theorem value_ok_iff {v : Value} :
    s.value p = .ok v ↔ ∃ i, s.index p.name = .ok i ∧ p.valueAt? i = some v := by
  obtain ⟨i, index, less⟩ := exists_index names kind member
  obtain ⟨w, here⟩ := Domain.exists_valueAt? less
  have value := value_of_index names kind member index rfl rfl here
  constructor
  · intro same
    obtain rfl := Except.ok.inj (value.symm.trans same)
    exact ⟨i, index, here⟩
  · rintro ⟨j, indexToo, there⟩
    exact value_of_index names kind member indexToo rfl rfl there

theorem value_eq_iff (kindT : t.kind = k) :
    t.value p = s.value p ↔ t.index p.name = s.index p.name := by
  obtain ⟨i, index, less⟩ := exists_index names kind member
  obtain ⟨v, here⟩ := Domain.exists_valueAt? less
  have value := value_of_index names kind member index rfl rfl here
  constructor
  · intro same
    obtain ⟨j, indexToo, there⟩ := (value_ok_iff names kindT member).mp (same.trans value)
    have first := Domain.valueAt?_eq_some_iff.mp here
    have second := Domain.valueAt?_eq_some_iff.mp there
    rw [indexToo, index, Option.some.inj (second.symm.trans first)]
  · intro same
    rw [value, (value_ok_iff names kindT member).mpr ⟨i, same.trans index, here⟩]

theorem is_iff (sort : p.sort = .bool) {b : Bool} : s.Is p.name b ↔ s.index p.name = .ok b.toNat := by
  have stored : ∀ i, p.valueAt? i = some (.bool b) ↔ b.toNat = i := by
    obtain ⟨name, domain⟩ := p
    cases domain with
    | bool c =>
      intro i
      rw [Property.valueAt?, Domain.valueAt?_eq_some_iff]
      exact Option.some_inj
    | _ => cases sort
  constructor
  · rintro ⟨q, inside, named, value⟩
    obtain rfl := List.inj_on_of_nodup_map names (kind ▸ inside) member named
    obtain ⟨i, index, here⟩ := (value_ok_iff names kind member).mp value
    rw [index, (stored i).mp here]
  · intro index
    exact ⟨p, kind ▸ member, rfl, (value_ok_iff names kind member).mpr ⟨_, index, (stored _).mpr rfl⟩⟩

end

theorem drained_iff {s t : BlockState} (names : (s.kind.properties.map Property.name).Nodup)
    {place : Fin s.kind.properties.length} {p : Property} (here : s.kind.properties.get place = p)
    (sort : p.sort = .bool) (less : 0 < (s.kind.properties.get place).size) :
    s.Drained p.name t ↔ t = s.moved place 0 less := by
  have takes := moved_takes names rfl here less
  have member : p ∈ s.kind.properties := here ▸ List.get_mem _ place
  constructor
  · intro drained
    refine eq_of_index names drained.kind rfl fun q inside => ?_
    rw [takes.index_eq inside]
    split
    · rename_i same
      rw [same]
      exact (is_iff names drained.kind member sort).mp drained.empty
    · rename_i other
      exact (value_eq_iff names rfl inside drained.kind).mp (drained.others q inside other)
  · rintro rfl
    refine ⟨takes.kind, (is_iff names takes.kind member sort).mpr takes.index,
      fun q inside other => ?_⟩
    exact (value_eq_iff names rfl inside takes.kind).mpr (takes.others q inside other)

theorem Is.exists_drained {s : BlockState} {property : String} (full : s.Is property true)
    (names : (s.kind.properties.map Property.name).Nodup)
    (boolean : ∀ p ∈ s.kind.properties, p.name = property → p.sort = .bool) :
    ∃ t, s.Drained property t := by
  obtain ⟨p, member, rfl, -⟩ := full
  obtain ⟨place, -, same⟩ := place_of_mem names member
  have less : 0 < (s.kind.properties.get place).size :=
    s.sizes_pos _ (List.mem_map_of_mem (List.get_mem _ place))
  exact ⟨_, (drained_iff names same (boolean p member rfl) less).mpr rfl⟩

end BlockState

namespace Version

theorem Matches.is_iff {registry : RegistryId} {name : Name} {b : BlockDescription}
    {s : StateDescription} {t : BlockState} (matches_ : Matches b s t)
    (describes : Describes registry name b t.kind) {property : String} {values : List String}
    (declared : (property, values) ∈ b.properties.entries) (booleans : Booleans values) (v : Bool) :
    t.Is property v ↔ ∃ text, (property, text) ∈ s.values.entries ∧
      Text.fold text = Text.fold (if v then "true" else "false") := by
  obtain ⟨p, member, takes⟩ := forall₂_of_mem describes.inferred declared
  obtain rfl : p.name = property := takes.name
  have sort := takes.boolean.mpr booleans
  obtain ⟨place, here⟩ := List.mem_iff_getElem?.mp member
  have names := describes.inferred.names
  rw [t.is_iff names rfl member sort, BlockState.index_ok_iff names rfl here]
  refine matches_.digit_iff here ?_
  cases v
  · exact (Property.decodeIndex_of_bool sort "false").1.mpr rfl
  · exact (Property.decodeIndex_of_bool sort "true").2.1.mpr rfl

theorem floods_iff {property : String} {fluid : StateId} {k : BlockKind}
    (names : (k.properties.map Property.name).Nodup)
    (boolean : ∀ p ∈ k.properties, p.name = property → p.sort = .bool) {g : Filling} :
    Floods property fluid k g ↔ ∃ s t : BlockState, s.kind = k ∧ s.Is property true ∧
      s.Drained property t ∧ g = ⟨s.runtimeId, t.runtimeId, fluid⟩ := by
  constructor
  · rintro ⟨s, t, place, p, rfl, kind, here, rfl, full, indices, rfl⟩
    obtain ⟨inside, same⟩ := List.getElem?_eq_some_iff.mp here
    have member := List.mem_of_getElem? here
    have sort := boolean p member rfl
    have positive := s.sizes_pos _ (List.mem_map_of_mem (f := Property.size) member)
    have less : 0 < (s.kind.properties.get ⟨place, inside⟩).size := by
      rw [List.get_eq_getElem, same]
      exact positive
    refine ⟨s, t, rfl, (s.is_iff names rfl member sort).mpr
      ((BlockState.index_ok_iff names rfl here).mpr full), ?_, rfl⟩
    refine (BlockState.drained_iff names same sort less).mpr ?_
    exact BlockState.eq_of_indices kind (indices.trans (s.indices_moved _ _ less).symm)
  · rintro ⟨s, t, rfl, full, drained, rfl⟩
    obtain ⟨p, member, rfl, -⟩ := id full
    obtain ⟨place, -, same⟩ := BlockState.place_of_mem names member
    have sort := boolean p member rfl
    have here : s.kind.properties[place.val]? = some p :=
      same ▸ List.getElem?_eq_getElem place.isLt
    have less : 0 < (s.kind.properties.get place).size :=
      s.sizes_pos _ (List.mem_map_of_mem (List.get_mem _ place))
    refine ⟨s, t, place, p, rfl, drained.kind, here, rfl, ?_, ?_, rfl⟩
    · exact (BlockState.index_ok_iff names rfl here).mp ((s.is_iff names rfl member sort).mp full)
    · rw [(BlockState.drained_iff names same sort less).mp drained, s.indices_moved]

end Version

/-- A table says what a description of fluids says: which states are all fluid, which contain some, and
that no other number does. -/
structure Registry.Contains (r : Registry) (f : FluidDescription) : Prop where
  liquid : ∀ id s, r.index.state id = .ok s → s.name ∈ f.liquids →
    r.fluids.extract id = id ∧ r.fluids.strip id = r.air.runtimeId
  flooded : ∀ id s property, r.index.state id = .ok s → f.waterlogged = some property →
    s.Is property true →
      (∃ name k, f.fluid = some name ∧ r.index.kind name = .ok k ∧
        r.fluids.extract id = k.defaultState.runtimeId) ∧
      ∃ t, r.index.state (r.fluids.strip id) = .ok t ∧ s.Drained property t
  dry : ∀ id, (∀ s, r.index.state id = .ok s →
      s.name ∉ f.liquids ∧ ∀ property, f.waterlogged = some property → ¬ s.Is property true) →
    r.fluids.extract id = 0 ∧ r.fluids.strip id = id

namespace Version

theorem Represents.fills {d : VersionDescription} {r : Registry} {f : FluidDescription}
    (represents : Represents d r) (wellFormed : d.WellFormed) (given : d.fluids = some f) :
    Fillable r.index.kinds.toList f ∧
      r.fluids.Holds (Fills r.index.kinds.toList r.air.runtimeId f) := by
  obtain ⟨air, member, named, same⟩ := represents.air
  have fillable := ((represents.tables.wellFormed_iff wellFormed.blocks f member named).mpr
    (wellFormed.fluids f given)).1
  refine ⟨fillable, represents.fluids.congr fun g => ?_⟩
  rw [same, represents.tables.fills_iff wellFormed.blocks fillable member named]
  constructor
  · rintro ⟨e, givenToo, declared⟩
    obtain rfl := Option.some.inj (given.symm.trans givenToo)
    exact declared
  · exact fun declared => ⟨f, given, declared⟩

theorem Represents.names {d : VersionDescription} {r : Registry} (represents : Represents d r)
    {k : BlockKind} (member : k ∈ r.index.kinds.toList) : (k.properties.map Property.name).Nodup := by
  obtain ⟨e, _, describes⟩ := represents.tables.block member
  exact describes.inferred.names

theorem Represents.contains {d : VersionDescription} {r : Registry} {f : FluidDescription}
    (represents : Represents d r) (wellFormed : d.WellFormed) (given : d.fluids = some f) :
    r.Contains f := by
  have faithful := represents.tables.faithful
  obtain ⟨fillable, holds⟩ := represents.fills wellFormed given
  refine ⟨?_, ?_, ?_⟩
  · intro id s found liquid
    obtain ⟨member, rfl⟩ := (Index.state_eq_ok_iff faithful).mp found
    have filling : Fills r.index.kinds.toList r.air.runtimeId f
        (Version.liquid r.air.runtimeId s) :=
      Or.inl ⟨s.name, liquid, s.kind, Index.mem_states.mp member, rfl, s,
        BlockKind.mem_states.mpr rfl, rfl⟩
    exact (holds.parts filling).symm
  · intro id s property found marked full
    obtain ⟨member, rfl⟩ := (Index.state_eq_ok_iff faithful).mp found
    obtain ⟨name, fluid, k, there, rfl⟩ := fillable.fluid property marked
    have inside := Index.mem_states.mp member
    have names := represents.names inside
    obtain ⟨t, drained⟩ := full.exists_drained names (fillable.boolean property marked _ inside)
    have filling : Fills r.index.kinds.toList r.air.runtimeId f
        ⟨s.runtimeId, t.runtimeId, k.defaultState.runtimeId⟩ :=
      Or.inr ⟨property, k.name, k, marked, fluid, there, rfl, s.kind, inside,
        (floods_iff names (fillable.boolean property marked _ inside)).mpr
          ⟨s, t, rfl, full, drained, rfl⟩⟩
    obtain ⟨strip, extract⟩ := holds.parts filling
    refine ⟨⟨k.name, k, fluid, (Index.kind_eq_ok_iff faithful).mpr ⟨there, rfl⟩, extract⟩,
      t, ?_, drained⟩
    rw [strip]
    exact (Index.state_eq_ok_iff faithful).mpr
      ⟨Index.mem_states.mpr (drained.kind.symm ▸ inside), rfl⟩
  · intro id other
    refine (holds.dry ?_).symm
    rintro ⟨g, filling | ⟨property, _, k, marked, _, _, _, j, inside, floods⟩, rfl⟩
    · obtain ⟨name, liquid, k, there, rfl, s, inside, rfl⟩ := filling
      obtain rfl := BlockKind.mem_states.mp inside
      exact (other s ((Index.state_eq_ok_iff faithful).mpr ⟨Index.mem_states.mpr there, rfl⟩)).1 liquid
    · obtain ⟨s, t, rfl, full, _, rfl⟩ := (floods_iff (represents.names inside)
        (fillable.boolean property marked _ inside)).mp floods
      exact (other s ((Index.state_eq_ok_iff faithful).mpr
        ⟨Index.mem_states.mpr inside, rfl⟩)).2 property marked full

/-- The table of a built registry is that of its description, knows what it leads to, and loses
nothing. -/
theorem build_contains {id : RegistryId} {d : VersionDescription} {global r : Registry}
    (built : (build id d global).result = .ok r) :
    (∀ f, d.fluids = some f → r.Contains f) ∧
    ((∀ f, d.fluids = some f → f.liquids = [] ∧ f.waterlogged = none) →
      ∀ a, r.fluids.extract a = 0 ∧ r.fluids.strip a = a) ∧
    ∀ a, r.index.hasRuntimeId a = true → r.index.hasRuntimeId (r.fluids.strip a) = true ∧
      (r.fluids.extract a ≠ 0 → r.index.hasRuntimeId (r.fluids.extract a) = true) ∧
      r.fluids.combine (r.fluids.strip a) (r.fluids.extract a) = .ok a := by
  obtain ⟨wellFormed, represents⟩ := build_ok built
  refine ⟨fun f given => represents.contains wellFormed given, fun none a => ?_, fun a known => ?_⟩
  · cases fluids : d.fluids with
    | none =>
      refine (represents.fluids.dry ?_).symm
      rintro ⟨g, ⟨f, given, _⟩, _⟩
      rw [fluids] at given
      cases given
    | some f =>
      obtain ⟨liquids, waterlogged⟩ := none f fluids
      refine (represents.contains wellFormed fluids).dry a fun s _ => ⟨?_, ?_⟩
      · rw [liquids]
        exact List.not_mem_nil
      · intro property marked
        rw [waterlogged] at marked
        cases marked
  · refine ⟨?_, ?_, represents.combine_parts wellFormed a⟩
    all_goals
      by_cases full : ∃ g, (∃ f, d.fluids = some f ∧ f.Declares d g) ∧ g.filled = a
    · obtain ⟨g, ⟨f, given, declared⟩, rfl⟩ := full
      rw [(represents.fluids.parts ⟨f, given, declared⟩).1]
      exact (represents.known_of_declares declared).1
    · rw [(represents.fluids.dry full).1]
      exact known
    · obtain ⟨g, ⟨f, given, declared⟩, rfl⟩ := full
      intro _
      rw [(represents.fluids.parts ⟨f, given, declared⟩).2]
      exact (represents.known_of_declares declared).2
    · exact fun wet => absurd (represents.fluids.dry full).2 wet

/-! ### A lamp in water -/

def marsh : VersionDescription :=
  ⟨"marsh", ⟨[(.air, airBlock), (.standard "water", plainBlock 9 144), (.standard "lamp", lampBlock)],
    by decide⟩, some ⟨[.standard "water"], some "lit", some (.standard "water")⟩⟩

theorem isDefault_marsh {name : Name} {a : StateId} (isDefault : marsh.IsDefault name a) :
    (name = .air ∧ a = 0) ∨ (name = .standard "water" ∧ a = 144) ∨
      (name = .standard "lamp" ∧ a = 4) := by
  obtain ⟨b, member, s, inside, chosen, rfl⟩ := isDefault
  obtain first | second | third := List.mem_cons.mp member |>.imp_right List.mem_pair.mp
  · obtain ⟨rfl, rfl⟩ := Prod.mk.inj first
    obtain rfl := List.mem_singleton.mp inside
    exact Or.inl ⟨rfl, rfl⟩
  · obtain ⟨rfl, rfl⟩ := Prod.mk.inj second
    obtain rfl := List.mem_singleton.mp inside
    exact Or.inr (Or.inl ⟨rfl, rfl⟩)
  · obtain ⟨rfl, rfl⟩ := Prod.mk.inj third
    obtain rfl | rfl := List.mem_pair.mp inside
    · cases chosen
    · exact Or.inr (Or.inr ⟨rfl, rfl⟩)

theorem eq_of_declares_marsh {g : Filling} (declared : FluidDescription.Declares
    ⟨[.standard "water"], some "lit", some (.standard "water")⟩ marsh g) :
    g = ⟨144, 0, 144⟩ ∨ g = ⟨5, 4, 144⟩ := by
  cases declared with
  | inl liquid =>
    obtain ⟨e, member, named, s, inside, filled, fluid, isDefault⟩ := liquid
    have water : s.id = 144 := by
      obtain rfl | rfl | rfl := List.mem_cons.mp member |>.imp_right List.mem_pair.mp
      · exact absurd named (by decide)
      · obtain rfl := List.mem_singleton.mp inside
        rfl
      · exact absurd named (by decide)
    obtain ⟨_, drained⟩ | ⟨air, _⟩ | ⟨air, _⟩ := isDefault_marsh isDefault
    · cases g
      cases filled.trans water
      cases fluid.trans water
      cases drained
      exact Or.inl rfl
    · exact absurd air (by decide)
    · exact absurd air (by decide)
  | inr flooded =>
    obtain ⟨property, name, marked, named, isDefault, e, member, s, inS, t, inT, drains, filled,
      drained⟩ := flooded
    cases marked
    cases named
    have empty : ∀ {b : BlockDescription}, e.2 = b → (∀ s ∈ b.states, s.values = .empty) → False := by
      rintro b rfl plain
      obtain ⟨text, given, _⟩ := drains.full
      rw [plain s inS] at given
      exact absurd given List.not_mem_nil
    obtain rfl | rfl | rfl := List.mem_cons.mp member |>.imp_right List.mem_pair.mp
    · exact (empty rfl (by decide)).elim
    · exact (empty rfl (by decide)).elim
    · obtain ⟨five, four⟩ := drains_lampBlock inS inT drains
      obtain ⟨air, _⟩ | ⟨_, fluid⟩ | ⟨lamp, _⟩ := isDefault_marsh isDefault
      · exact absurd air (by decide)
      · cases g
        cases filled.trans five
        cases drained.trans four
        cases fluid
        exact Or.inr rfl
      · exact absurd lamp (by decide)

theorem marsh_wellFormed : marsh.WellFormed where
  blocks e member := by
    obtain rfl | rfl | rfl := List.mem_cons.mp member |>.imp_right List.mem_pair.mp
    · exact airBlock_wellFormed
    · exact plainBlock_wellFormed (by decide) (by decide)
    · exact lampBlock_wellFormed
  legacyIds := by decide
  air := by decide
  ids := by decide
  fluids f given := by
    cases given
    refine ⟨by decide, ?_, ?_, ⟨?_, ?_⟩⟩
    · intro _ _
      exact ⟨.standard "water", rfl, by decide⟩
    · intro property marked e member values declared
      cases marked
      obtain rfl | rfl | rfl := List.mem_cons.mp member |>.imp_right List.mem_pair.mp
      · exact absurd declared List.not_mem_nil
      · exact absurd declared List.not_mem_nil
      · obtain rfl := (Prod.mk.inj (List.mem_singleton.mp declared)).2
        exact ⟨by decide, by decide, by decide⟩
    · intro g declared
      obtain rfl | rfl := eq_of_declares_marsh declared
      all_goals decide
    · intro g h left right
      obtain rfl | rfl := eq_of_declares_marsh left
      all_goals
        obtain rfl | rfl := eq_of_declares_marsh right
        all_goals
          unfold FluidTable.Agree
          decide

theorem build_contains_marsh : ∃ global r, (build 1 marsh global).result = .ok r ∧
    (r.fluids.extract 144 = 144 ∧ r.fluids.strip 144 = r.air.runtimeId) ∧
    (r.fluids.extract 5 = 144 ∧ r.fluids.strip 5 = 4) ∧ r.fluids.extract 4 = 0 := by
  obtain ⟨global, _⟩ := Registry.newGlobal_ok 0
  obtain ⟨_, r, built, _, represents⟩ | ⟨bad, _⟩ := build_cases 1 marsh global
  swap
  · exact absurd marsh_wellFormed bad
  have table := (build_contains built).1 _ rfl
  have faithful := represents.tables.faithful
  have lamp : (.standard "lamp", lampBlock) ∈ marsh.blocks.entries := by decide
  have lit : ∀ {s t}, Matches lampBlock s t → Describes r.id (.standard "lamp") lampBlock t.kind →
      ∀ v, t.Is "lit" v ↔ ∃ text, ("lit", text) ∈ s.values.entries ∧
        Text.fold text = Text.fold (if v then "true" else "false") :=
    fun matches_ describes => matches_.is_iff describes (List.mem_singleton_self _)
      ⟨rfl, by decide, by decide⟩
  obtain ⟨water, inWater, describesWater, matchesWater⟩ := represents.tables.state
    (e := (.standard "water", plainBlock 9 144)) (by decide) (List.mem_singleton_self _)
  obtain ⟨on, inOn, describesOn, matchesOn⟩ := represents.tables.state lamp List.mem_cons_self
  have full := (lit matchesOn describesOn true).mpr ⟨"TRUE", List.mem_singleton_self _, by decide⟩
  obtain ⟨⟨name, k, named, kind, extract⟩, off, drainedTo, drained⟩ := table.flooded 5 on "lit"
    ((Index.state_eq_ok_iff faithful).mpr ⟨inOn, matchesOn.runtimeId⟩) rfl full
  refine ⟨global, r, built, ?_, ⟨?_, ?_⟩, ?_⟩
  · refine table.liquid 144 water
      ((Index.state_eq_ok_iff faithful).mpr ⟨inWater, matchesWater.runtimeId⟩) ?_
    exact List.mem_singleton.mpr describesWater.name
  · cases named
    obtain ⟨member, named⟩ := (Index.kind_eq_ok_iff faithful).mp kind
    rw [extract]
    refine ((represents.tables.isDefault_iff member).mp ?_).symm
    rw [named]
    exact ⟨plainBlock 9 144, by decide, _, List.mem_singleton_self _, rfl, rfl⟩
  · have describes := drained.kind.symm ▸ describesOn
    obtain ⟨s, inside, matches_⟩ := describes.declared off rfl
    rw [← ((Index.state_eq_ok_iff faithful).mp drainedTo).2, matches_.runtimeId]
    obtain ⟨text, given, like⟩ := (lit matches_ describes false).mp drained.empty
    obtain rfl | rfl := List.mem_pair.mp inside
    · obtain rfl := (Prod.mk.inj (List.mem_singleton.mp given)).2
      exact absurd like (by decide)
    · rfl
  · obtain ⟨dark, inDark, describesDark, matchesDark⟩ := represents.tables.state lamp
      (List.mem_cons_of_mem _ (List.mem_singleton_self _))
    refine (table.dry 4 fun s found => ?_).1
    obtain ⟨member, same⟩ := (Index.state_eq_ok_iff faithful).mp found
    obtain rfl := faithful.eq_of_runtimeId member inDark (same.trans matchesDark.runtimeId.symm)
    refine ⟨?_, ?_⟩
    · rw [BlockState.name, describesDark.name]
      decide
    · intro property marked burning
      cases marked
      obtain ⟨text, given, like⟩ := (lit matchesDark describesDark true).mp burning
      obtain rfl := (Prod.mk.inj (List.mem_singleton.mp given)).2
      exact absurd like (by decide)

end Version
end Voxel
