import Voxel.Proofs.Version.Bridge
import Voxel.Proofs.Version.Fluids
import Voxel.Proofs.Version.Tables

/-!
# Registries of versions

`VersionDescription.WellFormed` says in terms of the description alone which versions have a
registry, and `build_cases` shows that exactly these are built. `Represents` says what a registry
holds of its description.
-/

namespace Voxel

/-- A state is what is left of another when a property that is full becomes empty. -/
structure StateDescription.Drains (property : String) (s t : StateDescription) : Prop where
  full : ∃ text, (property, text) ∈ s.values.entries ∧ Text.fold text = Text.fold "true"
  empty : ∃ text, (property, text) ∈ t.values.entries ∧ Text.fold text = Text.fold "false"
  others : ∀ p a b, p ≠ property → (p, a) ∈ s.values.entries → (p, b) ∈ t.values.entries →
    Text.fold a = Text.fold b

/-- The number of the default state of a block. -/
def VersionDescription.IsDefault (d : VersionDescription) (name : Name) (id : StateId) : Prop :=
  ∃ b, (name, b) ∈ d.blocks.entries ∧ ∃ s ∈ b.states, s.isDefault = true ∧ s.id = id

namespace FluidDescription

/-- A state of a liquid is filled with itself and drains to air. -/
def IsLiquid (f : FluidDescription) (d : VersionDescription) (g : Filling) : Prop :=
  ∃ e ∈ d.blocks.entries, e.1 ∈ f.liquids ∧ ∃ s ∈ e.2.states,
    g.filled = s.id ∧ g.fluid = s.id ∧ d.IsDefault .air g.drained

/-- A state that the property marks as full is filled with the fluid and drains to the state of its
block that is empty. -/
def IsFlooded (f : FluidDescription) (d : VersionDescription) (g : Filling) : Prop :=
  ∃ property name, f.waterlogged = some property ∧ f.fluid = some name ∧ d.IsDefault name g.fluid ∧
    ∃ e ∈ d.blocks.entries, ∃ s ∈ e.2.states, ∃ t ∈ e.2.states,
      s.Drains property t ∧ g.filled = s.id ∧ g.drained = t.id

def Declares (f : FluidDescription) (d : VersionDescription) (g : Filling) : Prop :=
  f.IsLiquid d g ∨ f.IsFlooded d g

/-- Fluids of a version that have a table. -/
structure WellFormed (f : FluidDescription) (d : VersionDescription) : Prop where
  liquids : ∀ name ∈ f.liquids, name ∈ d.blocks.keys
  fluid : ∀ property, f.waterlogged = some property →
    ∃ name, f.fluid = some name ∧ name ∈ d.blocks.keys
  boolean : ∀ property, f.waterlogged = some property → ∀ e ∈ d.blocks.entries, ∀ values,
    (property, values) ∈ e.2.properties.entries → Version.Booleans values
  consistent : FluidTable.Consistent (f.Declares d)

end FluidDescription

/-- A version that has a registry. -/
structure VersionDescription.WellFormed (d : VersionDescription) : Prop where
  blocks : ∀ e ∈ d.blocks.entries, e.2.WellFormed
  legacyIds : (d.blocks.entries.map fun e => e.2.legacyId).Nodup
  air : .air ∈ d.blocks.keys
  ids : (d.blocks.entries.flatMap fun e => e.2.states.map (·.id)).Nodup
  fluids : ∀ f, d.fluids = some f → f.WellFormed d

namespace Version

open FluidTable

/-! ### Fillings -/

section

variable {registry : RegistryId} {name : Name} {b : BlockDescription} {k : BlockKind}

theorem Matches.digit_iff {s : StateDescription} {t : BlockState} (matches_ : Matches b s t)
    {place : Nat} {p : Property} (here : t.kind.properties[place]? = some p) {text : String} {d : Nat}
    (decoded : p.decodeIndex text = .ok d) : t.indices[place]? = some d ↔
      ∃ given, (p.name, given) ∈ s.values.entries ∧ Text.fold given = Text.fold text := by
  obtain ⟨given, e, member, decodedToo, digit⟩ := matches_.given.given place p here
  constructor
  · intro same
    obtain rfl : e = d := Option.some.inj (digit.symm.trans same)
    exact ⟨given, member, Property.fold_eq_of_decodeIndex decodedToo decoded⟩
  · rintro ⟨other, otherMember, like⟩
    rw [value_unique s.values.nodup member otherMember] at decodedToo
    have same := (Property.decodeIndex_congr decodedToo like).symm.trans decoded
    rw [digit, Except.ok.inj same]

theorem Matches.same_iff {s t : StateDescription} {u v : BlockState} (left : Matches b s u)
    (right : Matches b t v) (kind : u.kind = v.kind) {place : Nat} {p : Property}
    (here : u.kind.properties[place]? = some p) : u.indices[place]? = v.indices[place]? ↔
      ∀ a c, (p.name, a) ∈ s.values.entries → (p.name, c) ∈ t.values.entries →
        Text.fold a = Text.fold c := by
  obtain ⟨a, d, memberA, decodedA, digitA⟩ := left.given.given place p here
  obtain ⟨c, e, memberC, decodedC, digitC⟩ := right.given.given place p (kind ▸ here)
  rw [digitA, digitC, Option.some.injEq]
  constructor
  · rintro rfl a' c' inA inC
    rw [value_unique s.values.nodup inA memberA, value_unique t.values.nodup inC memberC]
    exact Property.fold_eq_of_decodeIndex decodedA decodedC
  · intro like
    have same := Property.decodeIndex_congr decodedA (like a c memberA memberC)
    exact Except.ok.inj (same.symm.trans decodedC)

theorem Describes.place (describes : Describes registry name b k) {s : StateDescription}
    (gives : b.Gives s) {e : String × String} (member : e ∈ s.values.entries) :
    ∃ (place : Nat) (p : Property), k.properties[place]? = some p ∧ p.name = e.1 := by
  have key := gives.keys.mem_iff.mp (List.mem_map_of_mem (f := Prod.fst) member)
  rw [← describes.inferred.map_name] at key
  obtain ⟨p, inside, named⟩ := List.mem_map.mp key
  obtain ⟨place, here⟩ := List.mem_iff_getElem?.mp inside
  exact ⟨place, p, here, named⟩

theorem Describes.drains_iff (describes : Describes registry name b k) (wellFormed : b.WellFormed)
    {property : String} (boolean : ∀ p ∈ k.properties, p.name = property → p.sort = .bool)
    {s t : StateDescription} (inS : s ∈ b.states) {u v : BlockState}
    (kindU : u.kind = k) (kindV : v.kind = k) (left : Matches b s u) (right : Matches b t v) :
    s.Drains property t ↔ ∃ (place : Nat) (p : Property), k.properties[place]? = some p ∧
      p.name = property ∧ u.indices[place]? = some 1 ∧ v.indices = u.indices.set place 0 := by
  have names := describes.inferred.names
  subst kindU
  have full : ∀ {place : Nat} {p : Property}, u.kind.properties[place]? = some p →
      p.name = property → p.decodeIndex "true" = .ok 1 ∧ p.decodeIndex "false" = .ok 0 := by
    intro place p here named
    have sort := boolean p (List.mem_of_getElem? here) named
    exact ⟨(Property.decodeIndex_of_bool sort _).2.1.mpr rfl,
      (Property.decodeIndex_of_bool sort _).1.mpr rfl⟩
  have length : v.indices.length = u.indices.length := by
    rw [u.length_indices, v.length_indices, kindV]
  constructor
  · rintro ⟨⟨text, given, like⟩, empty, others⟩
    obtain ⟨place, p, here, rfl⟩ := describes.place (wellFormed.gives s inS) given
    have digit := (left.digit_iff here (full here rfl).1).mpr ⟨text, given, like⟩
    have drained := (right.digit_iff (kindV ▸ here) (full here rfl).2).mpr empty
    refine ⟨place, p, here, rfl, digit, List.ext_getElem? fun i => ?_⟩
    by_cases same : i = place
    · rw [same, drained, List.getElem?_set_self (List.getElem?_eq_some_iff.mp digit).1]
    · rw [List.getElem?_set_ne (Ne.symm same)]
      by_cases inside : i < u.indices.length
      · have there := List.getElem?_eq_getElem (u.length_indices ▸ inside)
        refine ((left.same_iff right kindV.symm there).mpr fun a c => others _ a c fun equal => ?_).symm
        exact same (place_unique names there here equal)
      · rw [List.getElem?_eq_none (length ▸ Nat.not_lt.mp inside),
          List.getElem?_eq_none (Nat.not_lt.mp inside)]
  · rintro ⟨place, p, here, rfl, digit, indices⟩
    have inside := (List.getElem?_eq_some_iff.mp digit).1
    have drained : v.indices[place]? = some 0 := by rw [indices, List.getElem?_set_self inside]
    refine ⟨(left.digit_iff here (full here rfl).1).mp digit,
      (right.digit_iff (kindV ▸ here) (full here rfl).2).mp drained, fun q a c other inA inC => ?_⟩
    obtain ⟨i, r, there, rfl⟩ := describes.place (wellFormed.gives s inS) inA
    refine (left.same_iff right kindV.symm there).mp ?_ a c inA inC
    rw [indices, List.getElem?_set_ne]
    rintro rfl
    exact other (congrArg Property.name (Option.some.inj (there.symm.trans here)))

theorem Describes.floods_iff (describes : Describes registry name b k) (wellFormed : b.WellFormed)
    {property : String} (boolean : ∀ p ∈ k.properties, p.name = property → p.sort = .bool)
    {fluid : StateId} {g : Filling} : Floods property fluid k g ↔ ∃ s ∈ b.states, ∃ t ∈ b.states,
      s.Drains property t ∧ g = ⟨s.id, t.id, fluid⟩ := by
  constructor
  · rintro ⟨u, v, place, p, kindU, kindV, here, named, digit, indices, rfl⟩
    obtain ⟨s, inS, left⟩ := describes.declared u kindU
    obtain ⟨t, inT, right⟩ := describes.declared v kindV
    refine ⟨s, inS, t, inT, ?_, by rw [left.runtimeId, right.runtimeId]⟩
    exact (describes.drains_iff wellFormed boolean inS kindU kindV left right).mpr
      ⟨place, p, here, named, digit, indices⟩
  · rintro ⟨s, inS, t, inT, drains, rfl⟩
    obtain ⟨u, kindU, left⟩ := describes.states s inS
    obtain ⟨v, kindV, right⟩ := describes.states t inT
    obtain ⟨place, p, here, named, digit, indices⟩ :=
      (describes.drains_iff wellFormed boolean inS kindU kindV left right).mp drains
    exact ⟨u, v, place, p, kindU, kindV, here, named, digit, indices,
      by rw [left.runtimeId, right.runtimeId]⟩

end

section

variable {id : RegistryId} {d : VersionDescription} {x : Index}

theorem Tables.mem_keys (tables : Tables id d.blocks.entries x) {name : Name} :
    name ∈ d.blocks.keys ↔ ∃ k ∈ x.kinds.toList, k.name = name := by
  unfold OrderedMap.keys
  constructor
  · intro member
    obtain ⟨e, inside, rfl⟩ := List.mem_map.mp member
    obtain ⟨k, there, describes⟩ := tables.kind inside
    exact ⟨k, there, describes.name⟩
  · rintro ⟨k, there, rfl⟩
    obtain ⟨e, inside, describes⟩ := tables.block there
    exact describes.name ▸ List.mem_map_of_mem inside

theorem Tables.isDefault_iff (tables : Tables id d.blocks.entries x) {k : BlockKind}
    (member : k ∈ x.kinds.toList) {a : StateId} :
    d.IsDefault k.name a ↔ a = k.defaultState.runtimeId := by
  obtain ⟨⟨name, b⟩, inside, describes⟩ := tables.block member
  have named : k.name = name := describes.name
  have marked : k.defaultState.isDefault = true := decide_eq_true rfl
  constructor
  · rintro ⟨c, declared, s, inS, isDefault, rfl⟩
    obtain rfl : c = b := OrderedMap.value_eq declared (named ▸ inside)
    obtain ⟨t, rfl, matches_⟩ := describes.states s inS
    have chosen : t.offset = t.kind.default := of_decide_eq_true (matches_.isDefault.trans isDefault)
    have same : t.kind.defaultState = t := by
      obtain ⟨k, offset, _⟩ := t
      dsimp only at chosen
      subst chosen
      rfl
    rw [same, matches_.runtimeId]
  · rintro rfl
    obtain ⟨s, inS, matches_⟩ := describes.declared k.defaultState rfl
    exact ⟨b, named ▸ inside, s, inS, matches_.isDefault.symm.trans marked, matches_.runtimeId.symm⟩

theorem Tables.boolean_iff (tables : Tables id d.blocks.entries x) (property : String) :
    (∀ k ∈ x.kinds.toList, ∀ p ∈ k.properties, p.name = property → p.sort = .bool) ↔
      ∀ e ∈ d.blocks.entries, ∀ values, (property, values) ∈ e.2.properties.entries →
        Booleans values := by
  constructor
  · intro all e inside values declared
    obtain ⟨k, member, describes⟩ := tables.kind inside
    obtain ⟨p, there, takes⟩ := forall₂_of_mem describes.inferred declared
    exact takes.boolean.mp (all k member p there takes.name)
  · rintro all k member p there rfl
    obtain ⟨e, inside, describes⟩ := tables.block member
    obtain ⟨⟨name, values⟩, declared, takes⟩ := describes.inferred.entry there
    refine takes.boolean.mpr (all e inside values ?_)
    rw [takes.name]
    exact declared

theorem Tables.fillable_iff (tables : Tables id d.blocks.entries x) (f : FluidDescription) :
    Fillable x.kinds.toList f ↔ (∀ name ∈ f.liquids, name ∈ d.blocks.keys) ∧
      (∀ property, f.waterlogged = some property →
        ∃ name, f.fluid = some name ∧ name ∈ d.blocks.keys) ∧
      ∀ property, f.waterlogged = some property → ∀ e ∈ d.blocks.entries, ∀ values,
        (property, values) ∈ e.2.properties.entries → Booleans values := by
  rw [Version.fillable_iff]
  simp only [tables.mem_keys, tables.boolean_iff]

theorem Tables.fills_iff (tables : Tables id d.blocks.entries x)
    (wellFormed : ∀ e ∈ d.blocks.entries, e.2.WellFormed) {f : FluidDescription}
    (fillable : Fillable x.kinds.toList f) {air : BlockKind} (member : air ∈ x.kinds.toList)
    (named : air.name = .air) (g : Filling) :
    Fills x.kinds.toList air.defaultState.runtimeId f g ↔ f.Declares d g := by
  have drained : ∀ a, d.IsDefault .air a ↔ a = air.defaultState.runtimeId := fun a =>
    named ▸ tables.isDefault_iff member
  obtain ⟨filled, empty, fluid⟩ := g
  refine or_congr ?_ ?_
  · unfold FluidDescription.IsLiquid
    simp only [drained]
    constructor
    · rintro ⟨name, declared, k, there, rfl, t, inside, same⟩
      cases same
      obtain ⟨e, block, describes⟩ := tables.block there
      obtain ⟨s, inS, matches_⟩ := describes.declared t (BlockKind.mem_states.mp inside)
      exact ⟨e, block, describes.name ▸ declared, s, inS, matches_.runtimeId, matches_.runtimeId, rfl⟩
    · rintro ⟨e, block, declared, s, inS, rfl, rfl, rfl⟩
      obtain ⟨k, there, describes⟩ := tables.kind block
      obtain ⟨t, kind, matches_⟩ := describes.states s inS
      refine ⟨e.1, declared, k, there, describes.name, t, BlockKind.mem_states.mpr kind, ?_⟩
      rw [liquid, matches_.runtimeId]
  · constructor
    · rintro ⟨property, name, k, given, fluidName, there, rfl, j, other, floods⟩
      obtain ⟨e, block, describes⟩ := tables.block other
      obtain ⟨s, inS, t, inT, drains, same⟩ := (describes.floods_iff (wellFormed e block)
        (fillable.boolean property given j other)).mp floods
      cases same
      exact ⟨property, k.name, given, fluidName, (tables.isDefault_iff there).mpr rfl, e, block, s,
        inS, t, inT, drains, rfl, rfl⟩
    · rintro ⟨property, name, given, fluidName, isDefault, e, block, s, inS, t, inT, drains, rfl, rfl⟩
      have ⟨c, declared, _⟩ := isDefault
      obtain ⟨k, there, rfl⟩ := tables.mem_keys.mp (List.mem_map_of_mem (f := Prod.fst) declared)
      obtain ⟨j, other, describes⟩ := tables.kind block
      obtain rfl := (tables.isDefault_iff there).mp isDefault
      refine ⟨property, k.name, k, given, fluidName, there, rfl, j, other, ?_⟩
      exact (describes.floods_iff (wellFormed e block) (fillable.boolean property given j other)).mpr
        ⟨s, inS, t, inT, drains, rfl⟩

theorem Tables.wellFormed_iff (tables : Tables id d.blocks.entries x)
    (blocks : ∀ e ∈ d.blocks.entries, e.2.WellFormed) (f : FluidDescription) {air : BlockKind}
    (member : air ∈ x.kinds.toList) (named : air.name = .air) :
    Fillable x.kinds.toList f ∧ Consistent (Fills x.kinds.toList air.defaultState.runtimeId f) ↔
      f.WellFormed d := by
  constructor
  · rintro ⟨fillable, consistent⟩
    have ⟨liquids, fluid, boolean⟩ := (tables.fillable_iff f).mp fillable
    refine ⟨liquids, fluid, boolean, ?_⟩
    exact (Consistent.congr (tables.fills_iff blocks fillable member named)).mp consistent
  · rintro ⟨liquids, fluid, boolean, consistent⟩
    have fillable := (tables.fillable_iff f).mpr ⟨liquids, fluid, boolean⟩
    refine ⟨fillable, ?_⟩
    exact (Consistent.congr (tables.fills_iff blocks fillable member named)).mpr consistent

end

/-! ### Building -/

/-- A registry is what a version describes. -/
structure Represents (d : VersionDescription) (r : Registry) : Prop where
  tables : Tables r.id d.blocks.entries r.index
  air : ∃ k ∈ r.index.kinds.toList, k.name = .air ∧ r.air = k.defaultState
  fluids : r.fluids.Holds fun g => ∃ f, d.fluids = some f ∧ f.Declares d g

theorem fluids_cases {id : RegistryId} {d : VersionDescription} {x : Index}
    (tables : Tables id d.blocks.entries x) (blocks : ∀ e ∈ d.blocks.entries, e.2.WellFormed)
    {air : BlockKind} (member : air ∈ x.kinds.toList) (named : air.name = .air) :
    ((∀ f, d.fluids = some f → f.WellFormed d) ∧
      ∃ t, (fluids x air.defaultState.runtimeId d.fluids).result = .ok t ∧
        t.Holds fun g => ∃ f, d.fluids = some f ∧ f.Declares d g) ∨
    ((¬ ∀ f, d.fluids = some f → f.WellFormed d) ∧ ∃ defect,
      (fluids x air.defaultState.runtimeId d.fluids).result = .error (.error (.construction defect))) := by
  cases d.fluids with
  | none => exact Or.inl ⟨by simp, .empty, rfl, empty_holds.congr (by simp)⟩
  | some f =>
  simp only [Option.some.injEq, forall_eq', exists_eq_left']
  have names : ∀ k ∈ x.kinds.toList, (k.properties.map Property.name).Nodup := by
    intro k there
    obtain ⟨e, _, describes⟩ := tables.block there
    exact describes.inferred.names
  have wellFormed := tables.wellFormed_iff blocks f member named
  rw [fluids, Report.result_bind, Report.result_liftError, ← wellFormed]
  rcases fluidTable_cases tables.faithful names air.defaultState.runtimeId f with
    ⟨⟨fillable, consistent⟩, t, filled, holds⟩ | ⟨bad, defect, refused⟩
  · refine Or.inl ⟨⟨fillable, consistent⟩, t, by rw [filled]; rfl, ?_⟩
    exact holds.congr (tables.fills_iff blocks fillable member named)
  · exact Or.inr ⟨bad, defect, by rw [refused]; rfl⟩

/-- A version has a registry if it is well-formed, and is a defect otherwise. -/
theorem build_cases (id : RegistryId) (d : VersionDescription) (global : Registry) :
    (d.WellFormed ∧ ∃ r, (build id d global).result = .ok r ∧ r.id = id ∧ Represents d r) ∨
    (¬ d.WellFormed ∧
      ∃ defect, (build id d global).result = .error (.error (.construction defect))) := by
  have empty : Tables id [] .empty := ⟨Index.empty_faithful, .nil⟩
  have none : Separate [] := ⟨fun _ member => absurd member List.not_mem_nil, .nil, .nil⟩
  unfold build
  rw [Report.result_bind]
  rcases addKinds_cases d.version d.blocks.entries [] .empty empty none d.blocks.nodup with
    ⟨separate, x, run, tables⟩ | ⟨mixed, defect, run⟩
  swap
  · refine Or.inr ⟨fun h => mixed ⟨h.blocks, h.legacyIds, h.ids⟩, defect, ?_⟩
    rw [run]
    rfl
  rw [run, Outcome.ok_bind]
  rw [List.nil_append] at separate tables
  rcases Index.kind_cases tables.faithful .air with ⟨k, member, named, found, _⟩ | ⟨absent, unknown⟩
  swap
  · refine Or.inr ⟨fun h => ?_, .version (.noAir d.version), by rw [unknown]; rfl⟩
    obtain ⟨k, member, named⟩ := tables.mem_keys.mp h.air
    exact absent k member named
  rw [found]
  dsimp only
  rw [Report.result_bind]
  rcases fluids_cases tables separate.wellFormed member named with
    ⟨wellFormed, t, filled, holds⟩ | ⟨bad, defect, refused⟩
  · obtain ⟨b, bridged, _⟩ := bridge_spec tables.faithful k.defaultState.runtimeId d.blocks global
    have air := tables.mem_keys.mpr ⟨k, member, named⟩
    refine Or.inl ⟨⟨separate.wellFormed, separate.legacyIds, air, separate.ids, wellFormed⟩,
      ⟨id, .version d.version b, x, k.defaultState, t⟩, ?_, rfl, tables, ⟨k, member, named, rfl⟩, holds⟩
    rw [filled, Outcome.ok_bind, Report.result_bind, bridged]
    rfl
  · exact Or.inr ⟨fun h => bad h.fluids, defect, by rw [refused]; rfl⟩

theorem build_ok {id : RegistryId} {d : VersionDescription} {global r : Registry}
    (built : (build id d global).result = .ok r) : d.WellFormed ∧ Represents d r := by
  rcases build_cases id d global with ⟨wellFormed, s, same, _, represents⟩ | ⟨_, defect, refused⟩
  · obtain rfl := Except.ok.inj (same.symm.trans built)
    exact ⟨wellFormed, represents⟩
  · rw [built] at refused
    cases refused

theorem Represents.known {d : VersionDescription} {r : Registry} (represents : Represents d r)
    {e : Name × BlockDescription} (member : e ∈ d.blocks.entries) {s : StateDescription}
    (inside : s ∈ e.2.states) : r.index.hasRuntimeId s.id = true := by
  obtain ⟨t, there, _, matches_⟩ := represents.tables.state member inside
  exact (Index.hasRuntimeId_eq_true represents.tables.faithful).mpr ⟨t, there, matches_.runtimeId⟩

theorem Represents.known_of_isDefault {d : VersionDescription} {r : Registry}
    (represents : Represents d r) {name : Name} {id : StateId} (isDefault : d.IsDefault name id) :
    r.index.hasRuntimeId id = true := by
  obtain ⟨b, member, s, inside, _, rfl⟩ := isDefault
  exact represents.known member inside

theorem Represents.known_of_declares {d : VersionDescription} {r : Registry}
    (represents : Represents d r) {f : FluidDescription} {g : Filling} (declared : f.Declares d g) :
    r.index.hasRuntimeId g.drained = true ∧ r.index.hasRuntimeId g.fluid = true := by
  cases declared with
  | inl liquid =>
    obtain ⟨e, member, _, s, inside, _, fluid, drained⟩ := liquid
    rw [fluid]
    exact ⟨represents.known_of_isDefault drained, represents.known member inside⟩
  | inr flooded =>
    obtain ⟨_, _, _, _, fluid, e, member, _, _, t, inside, _, _, drained⟩ := flooded
    rw [drained]
    exact ⟨represents.known member inside, represents.known_of_isDefault fluid⟩

theorem Represents.combine_parts {d : VersionDescription} {r : Registry} (represents : Represents d r)
    (wellFormed : d.WellFormed) (id : StateId) :
    r.fluids.combine (r.fluids.strip id) (r.fluids.extract id) = .ok id := by
  refine represents.fluids.combine_parts ⟨?_, ?_⟩ id
  · rintro g ⟨f, given, declared⟩
    exact (wellFormed.fluids f given).consistent.fluid g declared
  · rintro g h ⟨f, given, left⟩ ⟨e, givenToo, right⟩
    obtain rfl := Option.some.inj (given.symm.trans givenToo)
    exact (wellFormed.fluids f given).consistent.agree g h left right

/-- A registry has the handle that it was built with, and its scope is its version, with a bridge to the
global registry. -/
theorem build_parts {id : RegistryId} {d : VersionDescription} {global r : Registry}
    (built : (build id d global).result = .ok r) : r.id = id ∧ ∃ b, r.scope = .version d.version b ∧
      (bridge r.index r.air.runtimeId d.blocks global).result = .ok b := by
  unfold build at built
  rw [Report.result_bind] at built
  obtain ⟨x, _, built⟩ := Outcome.bind_ok built
  split at built
  · cases built
  · rw [Report.result_bind] at built
    obtain ⟨t, _, built⟩ := Outcome.bind_ok built
    rw [Report.result_bind] at built
    obtain ⟨b, bridged, built⟩ := Outcome.bind_ok built
    cases built
    exact ⟨rfl, b, rfl, bridged⟩

theorem build_isGlobal {id : RegistryId} {d : VersionDescription} {global r : Registry}
    (built : (build id d global).result = .ok r) : r.isGlobal = false := by
  obtain ⟨b, scope, _⟩ := (build_parts built).2
  rw [Registry.isGlobal, scope]

theorem build_globalId {id : RegistryId} {d : VersionDescription} {global r : Registry}
    (built : (build id d global).result = .ok r) : r.globalId = global.id := by
  obtain ⟨b, scope, bridged⟩ := (build_parts built).2
  rw [Registry.globalId, Registry.bridge?, scope]
  exact bridge_global bridged

theorem build_bridge {id : RegistryId} {d : VersionDescription} {global r : Registry}
    (built : (build id d global).result = .ok r) : ∃ b, r.bridge? = some b ∧
      b.air = r.air.runtimeId ∧
      b.Leads (images global.index d.blocks r.index.states) global.index.limit := by
  have faithful := (build_ok built).2.tables.faithful
  obtain ⟨b, scope, bridged⟩ := (build_parts built).2
  obtain ⟨c, same, air, leads⟩ := bridge_spec faithful r.air.runtimeId d.blocks global
  obtain rfl := Except.ok.inj (bridged.symm.trans same)
  refine ⟨b, ?_, air, leads⟩
  rw [Registry.bridge?, scope]

/-- A version is accepted exactly if it is well-formed, and is refused only for a defect. -/
theorem build_accepts (id : RegistryId) (d : VersionDescription) (global : Registry) :
    ((∃ r, (build id d global).result = .ok r) ↔ d.WellFormed) ∧
      ∀ e, (build id d global).result = .error e → ∃ defect, e = .error (.construction defect) := by
  rcases build_cases id d global with ⟨good, r, built, _⟩ | ⟨bad, defect, refused⟩
  · refine ⟨iff_of_true ⟨r, built⟩ good, fun e failed => ?_⟩
    rw [built] at failed
    cases failed
  · refine ⟨iff_of_false ?_ bad, fun e failed => ?_⟩
    · rintro ⟨r, built⟩
      rw [refused] at built
      cases built
    · exact ⟨defect, (Except.error.inj (refused.symm.trans failed)).symm⟩

end Version
end Voxel
