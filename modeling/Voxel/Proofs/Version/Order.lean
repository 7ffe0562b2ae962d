import Voxel.Proofs.Version.Registry

/-!
# Descriptions in another order

The renamed properties of a block and the values of a state are maps without an order. Descriptions that
differ in the order of such maps alone are alike, and `build_alike` says that they have the same registry
or none: the parts of an offset are summed up in any order, and a renamed property is looked up.
-/

namespace Voxel

def OrderedMap.Alike {κ ν : Type} (m n : OrderedMap κ ν) : Prop := m.entries.Perm n.entries

theorem OrderedMap.Alike.find? {κ ν : Type} [DecidableEq κ] {m n : OrderedMap κ ν}
    (alike : m.Alike n) (k : κ) : m.find? k = n.find? k := by
  refine Option.ext fun v => ?_
  rw [find?_eq_some_iff, find?_eq_some_iff, alike.mem_iff]

theorem OrderedMap.alike_sortedBy {κ ν : Type} (le : κ → κ → Bool) (m : OrderedMap κ ν) :
    m.Alike (m.sortedBy le) := (List.mergeSort_perm _ _).symm

structure StateDescription.Alike (s t : StateDescription) : Prop where
  id : s.id = t.id
  data : s.data = t.data
  isDefault : s.isDefault = t.isDefault
  values : s.values.Alike t.values

structure BlockDescription.Alike (b c : BlockDescription) : Prop where
  legacyId : b.legacyId = c.legacyId
  global : b.global = c.global
  renames : b.renames.Alike c.renames
  properties : b.properties = c.properties
  states : List.Forall₂ StateDescription.Alike b.states c.states

/-- Versions that are described alike, block by block. -/
structure VersionDescription.Alike (d e : VersionDescription) : Prop where
  version : d.version = e.version
  blocks : List.Forall₂ (fun b c => b.1 = c.1 ∧ b.2.Alike c.2) d.blocks.entries e.blocks.entries
  fluids : d.fluids = e.fluids

theorem BlockDescription.alike_arranged (b : BlockDescription) : b.Alike b.arranged :=
  ⟨rfl, rfl, OrderedMap.alike_sortedBy _ _, rfl, List.forall₂_map_right_iff.mpr
    (List.forall₂_same.mpr fun _ _ => ⟨rfl, rfl, rfl, OrderedMap.alike_sortedBy _ _⟩)⟩

theorem VersionDescription.alike_arranged (d : VersionDescription) : d.Alike d.arranged :=
  ⟨rfl, List.forall₂_map_right_iff.mpr
    (List.forall₂_same.mpr fun e _ => ⟨rfl, e.2.alike_arranged⟩), rfl⟩

namespace Version

open Outcome

/-! ### Kinds -/

variable {kind : Name} {ps : List Property}

def summand? (ps : List Property) (e : String × String) : Option Nat :=
  (ps.findFinIdx? (·.name = e.1)).bind fun place =>
    ((ps.get place).decodeIndex e.2).toOption.map (Radix.weight (ps.map Property.size) place * ·)

theorem toOption_offsetStep (id : StateId) (offset : Nat) (e : String × String) :
    (offsetStep kind ps id offset e).toOption = (summand? ps e).map (offset + ·) := by
  unfold offsetStep summand?
  cases ps.findFinIdx? (·.name = e.1) with
  | none => rfl
  | some place =>
    dsimp only [Option.bind_some]
    cases (ps.get place).decodeIndex e.2 <;> rfl

theorem offsetStep_exchange (id : StateId) (offset : Nat) (e f : String × String) :
    Agree (offsetStep kind ps id offset e >>= (offsetStep kind ps id · f))
      (offsetStep kind ps id offset f >>= (offsetStep kind ps id · e)) := by
  simp only [Agree, toOption_bind, toOption_offsetStep]
  cases summand? ps e <;> cases summand? ps f <;> simp [Nat.add_right_comm]

theorem offsetOf_alike {s t : StateDescription} (alike : s.Alike t) :
    Agree (offsetOf kind ps s) (offsetOf kind ps t) := by
  rw [offsetOf_eq, offsetOf_eq, alike.id]
  exact Agree.foldlM_perm alike.values (offsetStep_exchange t.id) 0

theorem agree_lift {α : Type} {x y : Except BlockError α} (agree : Agree x y) :
    Agree (liftM x : Except Failure α) (liftM y) := by
  have lifted (x : Except BlockError α) : (liftM x : Except Failure α).toOption = x.toOption := by
    cases x <;> rfl
  rw [Agree, lifted, lifted]
  exact agree

theorem add_alike (lowest : StateId) (x : Draft) {s t : StateDescription} (alike : s.Alike t) :
    Agree (Draft.add kind ps lowest x s) (Draft.add kind ps lowest x t) := by
  have offset := @offsetOf_alike kind ps s t alike
  have size : s.values.size = t.values.size := alike.values.length_eq
  obtain ⟨id, data, isDefault, values⟩ := s
  obtain ⟨id', data', isDefault', values'⟩ := t
  obtain rfl : id = id' := alike.id
  obtain rfl : data = data' := alike.data
  obtain rfl : isDefault = isDefault' := alike.isDefault
  -- of the values only the number and the offset they lead to come in
  unfold Draft.add
  dsimp only at size ⊢
  rw [size]
  refine Agree.ite (.refl _) ?_
  refine Agree.ite (.refl _) ?_
  exact (agree_lift offset).bind fun n => .refl _

theorem lowestId_alike {states others : List StateDescription}
    (alike : List.Forall₂ StateDescription.Alike states others) : lowestId states = lowestId others := by
  have ids := map_eq_of_forall₂ alike (f := StateDescription.id) fun _ _ alike => alike.id
  have numbers (states : List StateDescription) : lowestId states =
      match states.map StateDescription.id with
      | [] => 0
      | id :: rest => rest.foldl (fun m n => if n < m then n else m) id := by
    cases states with
    | nil => rfl
    | cons s rest => simp only [lowestId, List.map_cons, List.foldl_map]
  rw [numbers, numbers, ids]

theorem declare_alike (name : Name) {b c : BlockDescription} (alike : b.Alike c) :
    Agree (declare name b) (declare name c) := by
  obtain ⟨legacyId, global, renames, properties, states⟩ := b
  obtain ⟨legacyId', global', renames', properties', others⟩ := c
  obtain rfl : legacyId = legacyId' := alike.legacyId
  obtain rfl : properties = properties' := alike.properties
  have states : List.Forall₂ StateDescription.Alike states others := alike.states
  -- everything is done on the same data until the states are gone through
  unfold declare
  dsimp only
  rw [states.length_eq, lowestId_alike states]
  cases legacyId with
  | none => rfl
  | some legacyId =>
  refine Agree.ite (.refl _) ?_
  refine (Agree.refl _).bind fun ps => ?_
  refine (Agree.refl _).bind fun sizes => ?_
  refine Agree.ite (.refl _) ?_
  refine Agree.ite (.refl _) ?_
  exact (Agree.foldlM states (fun x s t alike => add_alike _ x alike) _).bind fun x => .refl _

theorem buildKind_alike (registry : RegistryId) (name : Name) {b c : BlockDescription}
    (alike : b.Alike c) :
    Agree (buildKind registry name b).result (buildKind registry name c).result := by
  rw [result_buildKind, result_buildKind]
  exact (declare_alike name alike).bind fun _ => .refl _

theorem addKinds_alike (registry : RegistryId) (version : String)
    {blocks others : List (Name × BlockDescription)}
    (alike : List.Forall₂ (fun b c => b.1 = c.1 ∧ b.2.Alike c.2) blocks others) (x : Index) :
    Agree (addKinds registry version x blocks).result (addKinds registry version x others).result := by
  induction alike generalizing x with
  | nil => rfl
  | @cons b c _ _ first _ ih =>
    obtain ⟨name, b⟩ := b
    obtain ⟨name', c⟩ := c
    obtain ⟨rfl, alike⟩ : name = name' ∧ b.Alike c := first
    simp only [addKinds, Report.result_bind]
    refine (buildKind_alike registry name alike).bind fun kind => ?_
    exact (Agree.refl _).bind ih

/-! ### Bridges -/

theorem link?_alike (global : Index) (k : BlockKind) {b c : BlockDescription} (alike : b.Alike c) :
    link? global b k = link? global c k := by
  have names : b.globalName = c.globalName := by
    funext name
    rw [BlockDescription.globalName, BlockDescription.globalName, alike.global]
  have properties : b.globalProperty = c.globalProperty := by
    funext name
    rw [BlockDescription.globalProperty, BlockDescription.globalProperty, alike.renames.find?]
  rw [link?, link?, names, properties]

theorem find?_alike {d e : VersionDescription} (alike : d.Alike e) (name : Name) :
    ((d.blocks.find? name).getD default).Alike ((e.blocks.find? name).getD default) := by
  have paired := alike.blocks
  unfold OrderedMap.find?
  generalize d.blocks.entries = blocks, e.blocks.entries = others at paired
  induction paired with
  | nil => exact ⟨rfl, rfl, .refl _, rfl, .nil⟩
  | @cons b c _ _ first _ ih =>
    rw [List.find?_cons, List.find?_cons, first.1]
    split
    · exact first.2
    · exact ih

theorem bridge_alike (index : Index) (air : StateId) {d e : VersionDescription} (alike : d.Alike e)
    (global : Registry) :
    (bridge index air d.blocks global).result = (bridge index air e.blocks global).result := by
  simp only [bridge, Report.result_bind, links_eq, link?_alike _ _ (find?_alike alike _)]

/-! ### Registries -/

theorem build_agrees (id : RegistryId) {d e : VersionDescription} (alike : d.Alike e)
    (global : Registry) : Agree (build id d global).result (build id e global).result := by
  simp only [build, Report.result_bind, alike.version, alike.fluids]
  refine (addKinds_alike id _ alike.blocks .empty).bind fun index => ?_
  cases index.kind .air with
  | error _ => rfl
  | ok k =>
    simp only [Report.result_bind, bridge_alike _ _ alike]
    exact .refl _

/-- Versions that are described alike have the same registry, or a defect each. -/
theorem build_alike (id : RegistryId) {d e : VersionDescription} (alike : d.Alike e)
    (global : Registry) :
    (∃ r, (build id d global).result = .ok r ∧ (build id e global).result = .ok r) ∨
    (∃ defect other, (build id d global).result = .error (.error (.construction defect)) ∧
      (build id e global).result = .error (.error (.construction other))) := by
  have agrees := build_agrees id alike global
  rcases build_cases id d global with ⟨_, r, built, _⟩ | ⟨_, defect, refused⟩ <;>
    rcases build_cases id e global with ⟨_, s, built', _⟩ | ⟨_, other, refused'⟩
  · rw [built, built'] at agrees
    exact Or.inl ⟨r, built, Option.some.inj agrees ▸ built'⟩
  · rw [built, refused'] at agrees
    cases agrees
  · rw [refused, built'] at agrees
    cases agrees
  · exact Or.inr ⟨defect, other, refused, refused'⟩

end Version
end Voxel
