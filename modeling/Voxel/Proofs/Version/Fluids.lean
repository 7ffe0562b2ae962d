import Voxel.Proofs.Block.State
import Voxel.Proofs.Fluid
import Voxel.Proofs.Registry.Index
import Voxel.Version.Registry

/-!
# Fluids of a version

`fluidTable_cases` says which fluid descriptions have a table over the kinds of a version, and which
fillings the table then holds.
-/

namespace Voxel.Version

open FluidTable

def liquid (air : StateId) (s : BlockState) : Filling := ⟨s.runtimeId, air, s.runtimeId⟩

/-- A filling of a kind that a property marks as full. -/
def Floods (property : String) (fluid : StateId) (k : BlockKind) (f : Filling) : Prop :=
  ∃ (s t : BlockState) (place : Nat) (p : Property), s.kind = k ∧ t.kind = k ∧
    k.properties[place]? = some p ∧ p.name = property ∧ s.indices[place]? = some 1 ∧
    t.indices = s.indices.set place 0 ∧ f = ⟨s.runtimeId, t.runtimeId, fluid⟩

theorem adds_liquids (air : StateId) (states : List BlockState) :
    Adds (fun t => addLiquids air t states) True fun g => ∃ s ∈ states, g = liquid air s := by
  have each := @adds_foldlM _ (fun t s => t.insert (liquid air s)) (fun _ => True)
    (fun s g => g = liquid air s) states fun s _ => adds_insert (liquid air s)
  exact each.congr (by simp) fun _ => Iff.rfl

theorem adds_state {property : String} {fluid : StateId} {s : BlockState}
    {place : Fin s.kind.properties.length} (found : s.kind.place? property = some place)
    (positive : 0 < (s.kind.properties.get place).size) :
    Adds (fun t => do
      if (← s.index property) = 1 then
        let drained ← s.withIndex property 0
        t.insert ⟨s.runtimeId, drained.runtimeId, fluid⟩
      else return t) True
      fun g => s.indexAt place = 1 ∧ g = ⟨s.runtimeId, (s.moved place 0 positive).runtimeId, fluid⟩ := by
  simp only [BlockState.index_eq found, BlockState.withIndex_eq found positive, Outcome.ok_bind]
  by_cases full : s.indexAt place = 1
  · simp only [full, if_true, true_and]
    exact adds_insert _
  · simp only [full, if_false, false_and]
    exact adds_nothing

theorem adds_states {property : String} {fluid : StateId} {k : BlockKind}
    (names : (k.properties.map Property.name).Nodup) {place : Fin k.properties.length}
    (found : k.place? property = some place) (positive : 0 < (k.properties.get place).size) :
    Adds (fun t => k.states.foldlM (fun t s => do
      if (← s.index property) = 1 then
        let drained ← s.withIndex property 0
        t.insert ⟨s.runtimeId, drained.runtimeId, fluid⟩
      else return t) t) True (Floods property fluid k) := by
  have named := name_of_findFinIdx? found
  have here : k.properties[place.val]? = some (k.properties.get place) :=
    List.getElem?_eq_getElem place.isLt
  have each : ∀ s ∈ k.states, Adds (fun t => do
      if (← s.index property) = 1 then
        let drained ← s.withIndex property 0
        t.insert ⟨s.runtimeId, drained.runtimeId, fluid⟩
      else return t) True fun g => ∃ t : BlockState, t.kind = k ∧
        s.indices[place.val]? = some 1 ∧ t.indices = s.indices.set place 0 ∧
        g = ⟨s.runtimeId, t.runtimeId, fluid⟩ := by
    intro s member
    obtain rfl := BlockKind.mem_states.mp member
    refine (adds_state found positive).congr Iff.rfl fun g => ?_
    rw [BlockState.getElem?_indices, Option.some.injEq]
    constructor
    · rintro ⟨full, rfl⟩
      exact ⟨s.moved place 0 positive, rfl, full, s.indices_moved place 0 positive, rfl⟩
    · rintro ⟨t, kind, full, indices, rfl⟩
      have drained : t = s.moved place 0 positive := BlockState.eq_of_indices kind
        (indices.trans (s.indices_moved place 0 positive).symm)
      exact ⟨full, by rw [drained]⟩
  refine (adds_foldlM each).congr (iff_of_true (fun _ _ => trivial) trivial) fun g => ?_
  constructor
  · rintro ⟨s, member, t, kind, full, indices, rfl⟩
    exact ⟨s, t, place, _, BlockKind.mem_states.mp member, kind, here, named, full, indices, rfl⟩
  · rintro ⟨s, t, i, p, kindS, kindT, there, same, full, indices, rfl⟩
    obtain rfl := place_unique names there here (same.trans named.symm)
    exact ⟨s, BlockKind.mem_states.mpr kindS, t, kindT, full, indices, rfl⟩

theorem adds_waterlogged {property : String} {fluid : StateId} {k : BlockKind}
    (names : (k.properties.map Property.name).Nodup) :
    Adds (fun t => addWaterlogged property fluid t k)
      (∀ p ∈ k.properties, p.name = property → p.sort = .bool) (Floods property fluid k) := by
  unfold addWaterlogged
  cases found : k.place? property with
  | none =>
    have absent : ∀ p ∈ k.properties, p.name ≠ property := by
      rintro p member rfl
      obtain ⟨place, there⟩ := findFinIdx?_of_mem member
      rw [BlockKind.place?, there] at found
      cases found
    refine adds_nothing.congr ?_ fun g => ?_
    · exact iff_of_true trivial fun p member same => absurd same (absent p member)
    · refine iff_of_false id ?_
      rintro ⟨s, t, place, p, _, _, here, named, _⟩
      exact absent p (List.mem_of_getElem? here) named
  | some place =>
    have only : ∀ p ∈ k.properties, p.name = property → p = k.properties.get place := by
      rintro p member rfl
      exact (find_eq_get names member found).symm
    dsimp only
    by_cases sort : (k.properties.get place).sort = .bool
    · simp only [ne_eq, sort, not_true_eq_false, if_false]
      have positive : 0 < (k.properties.get place).size :=
        Property.decodeIndex_lt ((Property.decodeIndex_of_bool sort "false").1.mpr rfl)
      refine (adds_states names found positive).congr (iff_of_true trivial ?_) fun _ => Iff.rfl
      exact fun p member same => only p member same ▸ sort
    · simp only [ne_eq, sort, not_false_eq_true, if_true]
      refine (adds_defect _ _).congr (iff_of_false id fun all => sort ?_) fun _ => Iff.rfl
      exact all _ (List.get_mem _ _) (name_of_findFinIdx? found)

/-! ### The table of an index -/

/-- What a description lets states of the kinds be filled with. -/
def Fills (kinds : List BlockKind) (air : StateId) (f : FluidDescription) (g : Filling) : Prop :=
  (∃ name ∈ f.liquids, ∃ k ∈ kinds, k.name = name ∧ ∃ s ∈ k.states, g = liquid air s) ∨
  ∃ property name k, f.waterlogged = some property ∧ f.fluid = some name ∧ k ∈ kinds ∧
    k.name = name ∧ ∃ j ∈ kinds, Floods property k.defaultState.runtimeId j g

/-- The kinds of a description are there, and its property marks either full or empty. -/
structure Fillable (kinds : List BlockKind) (f : FluidDescription) : Prop where
  liquids : ∀ name ∈ f.liquids, ∃ k ∈ kinds, k.name = name
  fluid : ∀ property, f.waterlogged = some property →
    ∃ name, f.fluid = some name ∧ ∃ k ∈ kinds, k.name = name
  boolean : ∀ property, f.waterlogged = some property →
    ∀ k ∈ kinds, ∀ p ∈ k.properties, p.name = property → p.sort = .bool

theorem fillable_iff (kinds : List BlockKind) (f : FluidDescription) :
    Fillable kinds f ↔ (∀ name ∈ f.liquids, ∃ k ∈ kinds, k.name = name) ∧
      (∀ property, f.waterlogged = some property →
        ∃ name, f.fluid = some name ∧ ∃ k ∈ kinds, k.name = name) ∧
      ∀ property, f.waterlogged = some property →
        ∀ k ∈ kinds, ∀ p ∈ k.properties, p.name = property → p.sort = .bool :=
  ⟨fun h => ⟨h.liquids, h.fluid, h.boolean⟩, fun h => ⟨h.1, h.2.1, h.2.2⟩⟩

theorem adds_liquid {x : Index} (faithful : x.Faithful) (air : StateId) (name : Name) :
    Adds (fun t => match x.kind name with
      | .ok k => addLiquids air t k.states
      | .error _ => refuse (.undeclaredLiquid name))
      (∃ k ∈ x.kinds.toList, k.name = name)
      fun g => ∃ k ∈ x.kinds.toList, k.name = name ∧ ∃ s ∈ k.states, g = liquid air s := by
  rcases Index.kind_cases faithful name with ⟨k, member, named, found, only⟩ | ⟨absent, unknown⟩
  · rw [found]
    refine (adds_liquids air k.states).congr (iff_of_true trivial ⟨k, member, named⟩) fun g => ?_
    constructor
    · exact fun inside => ⟨k, member, named, inside⟩
    · rintro ⟨j, other, same, inside⟩
      exact only j other same ▸ inside
  · rw [unknown]
    refine (adds_defect _ _).congr (iff_of_false id ?_) fun _ => Iff.rfl
    rintro ⟨k, member, named⟩
    exact absent k member named

theorem adds_property {x : Index} (faithful : x.Faithful)
    (names : ∀ k ∈ x.kinds.toList, (k.properties.map Property.name).Nodup) (f : FluidDescription) :
    Adds (fun t => match f.waterlogged with
      | none => .ok t
      | some property =>
        match f.fluid with
        | none => refuse (.noFluidFor property)
        | some name =>
          match x.kind name with
          | .error _ => refuse (.undeclaredFluid name)
          | .ok k => x.kinds.foldlM (addWaterlogged property k.defaultState.runtimeId) t)
      ((∀ property, f.waterlogged = some property →
        ∃ name, f.fluid = some name ∧ ∃ k ∈ x.kinds.toList, k.name = name) ∧
        ∀ property, f.waterlogged = some property →
          ∀ k ∈ x.kinds.toList, ∀ p ∈ k.properties, p.name = property → p.sort = .bool)
      fun g => ∃ property name k, f.waterlogged = some property ∧ f.fluid = some name ∧
        k ∈ x.kinds.toList ∧ k.name = name ∧
        ∃ j ∈ x.kinds.toList, Floods property k.defaultState.runtimeId j g := by
  cases f.waterlogged with
  | none => exact adds_nothing.congr (by simp) (by simp)
  | some property =>
  simp only [Option.some.injEq, forall_eq', exists_and_left, exists_eq_left']
  cases f.fluid with
  | none => exact (adds_defect _ _).congr (by simp) fun _ => Iff.rfl
  | some name =>
  simp only [Option.some.injEq, exists_eq_left']
  rcases Index.kind_cases faithful name with ⟨k, member, named, found, only⟩ | ⟨absent, unknown⟩
  · simp only [found, ← Array.foldlM_toList]
    have each := @adds_foldlM _ (addWaterlogged property k.defaultState.runtimeId) _ _ x.kinds.toList
      fun j inside => adds_waterlogged (names j inside)
    refine each.congr ⟨fun all => ⟨⟨k, member, named⟩, all⟩, And.right⟩ fun g => ?_
    constructor
    · exact fun inside => ⟨k, member, named, inside⟩
    · rintro ⟨l, other, same, inside⟩
      exact only l other same ▸ inside
  · simp only [unknown]
    refine (adds_defect _ _).congr (iff_of_false id ?_) fun _ => Iff.rfl
    rintro ⟨⟨k, member, named⟩, _⟩
    exact absent k member named

/-- A description has a table if it can be filled and its fillings are consistent, and is a defect
otherwise. -/
theorem fluidTable_cases {x : Index} (faithful : x.Faithful)
    (names : ∀ k ∈ x.kinds.toList, (k.properties.map Property.name).Nodup) (air : StateId)
    (f : FluidDescription) :
    ((Fillable x.kinds.toList f ∧ Consistent (Fills x.kinds.toList air f)) ∧
      ∃ t, fluidTable x air f = .ok t ∧ t.Holds (Fills x.kinds.toList air f)) ∨
    (¬ (Fillable x.kinds.toList f ∧ Consistent (Fills x.kinds.toList air f)) ∧
      ∃ defect, fluidTable x air f = .error (.construction defect)) := by
  have liquids := @adds_foldlM _ _ _ _ f.liquids fun name _ => adds_liquid faithful air name
  have both := liquids.then (adds_property faithful names f)
  have all := both.congr (F := Fills x.kinds.toList air f) (fillable_iff _ f).symm fun _ => Iff.rfl
  have start := all .empty _ empty_holds empty_consistent
  simp only [false_or] at start
  exact start

end Voxel.Version
