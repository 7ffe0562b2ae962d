import Voxel.Proofs.Registry.Coherent
import Voxel.Proofs.Registry.InPlace

/-!
# Insertion into the tables

A kind gets into the tables of a registry as a whole or not at all. `Clashes` names what is taken when a
kind is refused, and `Extends` is all that a kind adds: whatever is not the kind's own is found as before,
with the holes between numbers.
-/

namespace Voxel

/-- A kind that a program builds: the air of a new global registry, a kind that is registered later, or a
block of a version. All of them number their states apart, and come with four bits of data or none. -/
inductive BlockKind.Made (k : BlockKind) : Prop
  | air {id : RegistryId}
      (built : (Declaration.build ⟨.air, [], none, none⟩ id fun _ => .ok (0, none)).result = .ok k)
  | registered {d : Declaration} {id : RegistryId} {first : StateId}
      (built : (d.build id (Registry.freeId first)).result = .ok k)
  | described {id : RegistryId} {name : Name} {b : BlockDescription}
      (built : (Version.buildKind id name b).result = .ok k)

theorem BlockKind.Made.distinct {k : BlockKind} (made : k.Made) : k.Distinct := by
  cases made with
  | air built =>
    rw [Declaration.result_build] at built
    exact Registry.distinct_of_air (Declaration.states_ok built).2
  | registered built =>
    rw [Declaration.result_build] at built
    exact Registry.distinct_of_freeId (Declaration.states_ok built).2
  | @described id name b built =>
    obtain ⟨_, _, same, describes⟩ | ⟨_, _, refused⟩ := Version.buildKind_cases id name b
    · cases built.symm.trans same
      exact describes.distinct
    · cases built.symm.trans refused

-- a fifth bit of data would run into the number
example : (LegacyPair.mk 5 16).combined = (LegacyPair.mk 5 0).combined := by decide

namespace Index

/-! ### What a kind clashes with -/

/-- Something of a kind is there already, as the clash says. -/
inductive Clashes (x : Index) (k : BlockKind) : Clash → Prop
  | name (taken : x.hasName k.name = true) : Clashes x k (.kind k.name)
  | legacyId {id : UInt16} (own : k.legacyId = some id) (taken : x.hasLegacyId id = true) :
      Clashes x k (.legacyId id k.name)
  | runtimeId {s : BlockState} (own : s ∈ k.states) (taken : x.hasRuntimeId s.runtimeId = true) :
      Clashes x k (.runtimeId s.runtimeId s.text)
  | legacyPair {s : BlockState} {p : LegacyPair} (own : s ∈ k.states) (old : s.legacy = some p)
      (taken : x.hasLegacyPair p = true) : Clashes x k (.legacyState p.id p.data s.text)

section

variable {x : Index} (faithful : x.Faithful) {k : BlockKind}
include faithful

theorem clashes_of_clash? (own : k.Distinct) {c : Clash} (found : x.clash? k = some c) :
    x.Clashes k c := by
  unfold clash? at found
  split at found
  · rename_i taken
    cases found
    exact .name taken
  split at found
  · rename_i id old
    cases found
    obtain ⟨given, taken⟩ := Option.filter_eq_some_iff.mp old
    exact .legacyId given taken
  obtain ⟨s, member, found⟩ := List.exists_of_findSome?_eq_some found
  unfold stateClash? at found
  split at found
  · rename_i taken
    cases found
    exact .runtimeId member taken
  split at found
  · rename_i p old
    split at found
    · rename_i taken
      cases found
      have low := own.low s member p old
      refine .legacyPair member old ((hasLegacyPair_eq_true faithful).mpr ?_)
      exact (contains_legacyPair faithful low).mp taken
    · cases found
  · cases found

theorem Free.not_clashes (free : x.Free k) (c : Clash) : ¬ x.Clashes k c := by
  intro clashes
  cases clashes with
  | name taken =>
    obtain ⟨j, member, same⟩ := (hasName_eq_true faithful).mp taken
    exact free.name j member same
  | legacyId own taken =>
    obtain ⟨j, member, same⟩ := (hasLegacyId_eq_true faithful).mp taken
    exact free.legacyId j member _ own same
  | runtimeId own taken =>
    obtain ⟨t, member, same⟩ := (hasRuntimeId_eq_true faithful).mp taken
    exact (free.states _ own).runtimeId t member same
  | legacyPair own old taken =>
    obtain ⟨t, member, same⟩ := (hasLegacyPair_eq_true faithful).mp taken
    exact (free.states _ own).legacy t member _ old same

end

/-! ### What a kind adds -/

/-- Tables with a kind more. Each look-up finds what is the kind's own, and anything else as before. -/
structure Extends (x : Index) (k : BlockKind) (y : Index) : Prop where
  kinds : y.kinds = x.kinds.push k
  states : y.states = x.states ++ k.states
  stateCount : y.stateCount = x.stateCount + k.states.length
  limit : y.limit = (k.states.map fun s => s.runtimeId.toNat + 1).foldl max x.limit
  legacyIds : y.legacyIds.Perm (x.legacyIds ++ (k.legacyId.map (·, k.name)).toList)
  rising : y.legacyIds.Pairwise fun a b => a.1 < b.1
  kind : ∀ name, y.kind name = if k.name = name then .ok k else x.kind name
  legacyKind : ∀ id, y.legacyKind id = if k.legacyId = some id then .ok k else x.legacyKind id
  ownState : ∀ s ∈ k.states, y.state s.runtimeId = .ok s
  otherState : ∀ id, (∀ s ∈ k.states, s.runtimeId ≠ id) → y.state id = x.state id
  ownPair : ∀ s ∈ k.states, ∀ p, s.legacy = some p → y.legacyRuntimeId p = .ok s.runtimeId
  otherPair : ∀ p, (∀ s ∈ k.states, s.legacy ≠ some p) → y.legacyRuntimeId p = x.legacyRuntimeId p
  hasName : ∀ name, y.hasName name = true ↔ x.hasName name = true ∨ k.name = name
  hasLegacyId : ∀ id, y.hasLegacyId id = true ↔ x.hasLegacyId id = true ∨ k.legacyId = some id
  hasRuntimeId : ∀ id, y.hasRuntimeId id = true ↔
    x.hasRuntimeId id = true ∨ ∃ s ∈ k.states, s.runtimeId = id
  hasLegacyPair : ∀ p, y.hasLegacyPair p = true ↔
    x.hasLegacyPair p = true ∨ ∃ s ∈ k.states, s.legacy = some p

theorem limit_add (x : Index) (k : BlockKind) :
    (x.add k).limit = (k.states.map fun s => s.runtimeId.toNat + 1).foldl max x.limit := by
  show (k.states.foldl place x.byRuntimeId).size = _
  unfold limit
  generalize k.states = states
  generalize x.byRuntimeId = ids
  induction states generalizing ids with
  | nil => rfl
  | cons s rest ih => rw [List.foldl_cons, ih, size_place, List.map_cons, List.foldl_cons]

theorem kind_add (x : Index) (k : BlockKind) (name : Name) :
    (x.add k).kind name = if k.name = name then .ok k else x.kind name := by
  unfold Index.kind add
  rw [Std.HashMap.getElem?_insert]
  by_cases same : k.name = name <;> simp [same]

theorem legacyKind_add (x : Index) (k : BlockKind) (id : UInt16) :
    (x.add k).legacyKind id = if k.legacyId = some id then .ok k else x.legacyKind id := by
  unfold Index.legacyKind add
  cases old : k.legacyId with
  | none => simp
  | some n =>
    simp only [Std.TreeMap.getElem?_insert, Std.compare_eq_iff_eq]
    by_cases same : n = id <;> simp [same]

section

variable {x : Index} (faithful : x.Faithful) {k : BlockKind} (after : (x.add k).Faithful)
include faithful after

theorem state_add {id : StateId} (other : ∀ s ∈ k.states, s.runtimeId ≠ id) :
    (x.add k).state id = x.state id := by
  have same : (x.add k).state? id = x.state? id := by
    ext s
    rw [after.byRuntimeId, faithful.byRuntimeId, states_add, List.mem_append]
    refine and_congr_left fun named => or_iff_left fun own => other s own named
  rw [Index.state, same, Index.state]

theorem legacyRuntimeId_add {p : LegacyPair} (other : ∀ s ∈ k.states, s.legacy ≠ some p) :
    (x.add k).legacyRuntimeId p = x.legacyRuntimeId p := by
  have same : ∀ id, (x.add k).legacyRuntimeId p = .ok id ↔ x.legacyRuntimeId p = .ok id := by
    intro id
    rw [legacyRuntimeId_eq_ok_iff after, legacyRuntimeId_eq_ok_iff faithful, states_add]
    refine exists_congr fun s => ?_
    rw [List.mem_append]
    refine and_congr_left fun named => or_iff_left fun own => other s own named.1
  obtain ⟨_, id, found, _⟩ | ⟨_, missing⟩ := legacyRuntimeId_cases faithful p
  · rw [found, same, found]
  · obtain ⟨_, id, found, _⟩ | ⟨_, missingToo⟩ := legacyRuntimeId_cases after p
    · rw [same, missing] at found
      cases found
    · rw [missing, missingToo]

theorem legacyIds_add :
    (x.add k).legacyIds.Perm (x.legacyIds ++ (k.legacyId.map (·, k.name)).toList) := by
  refine (perm_legacyIds after).trans ?_
  have new : [k].filterMap (fun k => k.legacyId.map (·, k.name)) =
      (k.legacyId.map (·, k.name)).toList := by
    cases old : k.legacyId <;> simp [old]
  rw [kinds_add, List.filterMap_append, new]
  exact (perm_legacyIds faithful).symm.append_right _

theorem add_extends : x.Extends k (x.add k) where
  kinds := rfl
  states := states_add x k
  stateCount := congrArg (x.stateCount + ·) k.length_states.symm
  limit := limit_add x k
  legacyIds := legacyIds_add faithful after
  rising := (x.add k).rising_legacyIds
  kind := kind_add x k
  legacyKind := legacyKind_add x k
  ownState s member := by
    refine (state_eq_ok_iff after).mpr ⟨?_, rfl⟩
    rw [states_add]
    exact List.mem_append_right _ member
  otherState id other := state_add faithful after other
  ownPair s member p old := by
    refine (legacyRuntimeId_eq_ok_iff after).mpr ⟨s, ?_, old, rfl⟩
    rw [states_add]
    exact List.mem_append_right _ member
  otherPair p other := legacyRuntimeId_add faithful after other
  hasName name := by
    rw [hasName_eq_true after, hasName_eq_true faithful, kinds_add]
    simp [or_and_right, exists_or]
  hasLegacyId id := by
    rw [hasLegacyId_eq_true after, hasLegacyId_eq_true faithful, kinds_add]
    simp [or_and_right, exists_or]
  hasRuntimeId id := by
    rw [hasRuntimeId_eq_true after, hasRuntimeId_eq_true faithful, states_add]
    simp only [List.mem_append, or_and_right, exists_or]
  hasLegacyPair p := by
    rw [hasLegacyPair_eq_true after, hasLegacyPair_eq_true faithful, states_add]
    simp only [List.mem_append, or_and_right, exists_or]

end

/-! ### One insertion, and any number of them -/

/-- How an insertion ends: refused for something that is taken, with the tables as they were, or with
the kind added because nothing of it is taken. -/
inductive Ends (x : Index) (k : BlockKind) : Except BlockError Unit × Index → Prop
  | refused {c : Clash} (clashes : x.Clashes k c) : Ends x k (.error (.duplicate c), x)
  | added {y : Index} (free : ∀ c, ¬ x.Clashes k c) (extends_ : x.Extends k y) : Ends x k (.ok (), y)

theorem insertion_cases {x : Index} (faithful : x.Faithful) {k : BlockKind} (own : k.Distinct) :
    (∃ c, x.Clashes k c ∧ InPlace.perform x (Changes.insertion k) = (.error (.duplicate c), x)) ∨
    (x.Free k ∧ (x.add k).Faithful ∧ InPlace.perform x (Changes.insertion k) = (.ok (), x.add k)) := by
  rw [Changes.perform_insertion, insert]
  cases found : x.clash? k with
  | some c => exact Or.inl ⟨c, clashes_of_clash? faithful own found, rfl⟩
  | none =>
    have free := (clash?_eq_none_iff faithful own).mp found
    exact Or.inr ⟨free, add_faithful faithful own free, rfl⟩

/-- Tables that insertions make of empty ones, failed insertions included. -/
inductive Reached : Index → Prop
  | empty : Reached .empty
  | insertion {x : Index} {k : BlockKind} (before : Reached x) (made : k.Made) :
      Reached (InPlace.perform x (Changes.insertion k)).2

theorem Reached.faithful {x : Index} (reached : x.Reached) : x.Faithful := by
  induction reached with
  | empty => exact empty_faithful
  | insertion before made ih =>
    obtain ⟨c, _, refused⟩ | ⟨_, after, added⟩ := insertion_cases ih made.distinct
    · rw [refused]
      exact ih
    · rw [added]
      exact after

theorem Reached.add {x : Index} (reached : x.Reached) {k : BlockKind} (made : k.Made)
    (free : x.Free k) : (x.add k).Reached := by
  have after := reached.insertion made
  rwa [Changes.perform_insertion,
    (insert_eq_ok_iff reached.faithful made.distinct).mpr ⟨free, rfl⟩] at after

/-- A kind gets into the tables as a whole, or is refused and leaves them as they were. This is so for
every kind that a program builds, and nothing has to be known of its numbers. -/
theorem Reached.insertion_ends {x : Index} (reached : x.Reached) {k : BlockKind} (made : k.Made) :
    x.Ends k (InPlace.perform x (Changes.insertion k)) := by
  have faithful := reached.faithful
  obtain ⟨c, clashes, refused⟩ | ⟨free, after, added⟩ := insertion_cases faithful made.distinct
  · rw [refused]
    exact .refused clashes
  · rw [added]
    exact .added (free.not_clashes faithful) (add_extends faithful after)

theorem insertion_ends_lantern : ∃ j k,
    (Version.buildKind 0 (.standard "lamp") Version.lampBlock).result = .ok j ∧
    (Version.buildKind 0 (.standard "lantern") (Version.plainBlock 8 5)).result = .ok k ∧
    (InPlace.perform .empty (Changes.insertion j)).2.Reached ∧
    (InPlace.perform .empty (Changes.insertion j)).2.Ends k
      (InPlace.perform (InPlace.perform .empty (Changes.insertion j)).2 (Changes.insertion k)) := by
  have lamp : Version.Buildable Version.lampBlock := ⟨Version.lampBlock_wellFormed, by decide⟩
  have lantern : Version.Buildable (Version.plainBlock 8 5) :=
    ⟨Version.plainBlock_wellFormed (by decide) (by decide), by decide⟩
  obtain ⟨j, first⟩ := lamp.built 0 (.standard "lamp")
  obtain ⟨k, second⟩ := lantern.built 0 (.standard "lantern")
  have reached := Reached.empty.insertion (.described first)
  exact ⟨j, k, first, second, reached, reached.insertion_ends (.described second)⟩

end Index

/-! ### The tables of registries -/

theorem Registry.register_made {r s : Registry} {d : Declaration} {k : BlockKind}
    (h : (r.register d).result = .ok (s, k)) : k.Made := by
  unfold register at h
  dsimp only at h
  split at h
  · cases h
  rw [Report.result_bind] at h
  obtain ⟨kind, made, h⟩ := Outcome.bind_ok h
  rw [Report.result_bind] at h
  obtain ⟨index, _, h⟩ := Outcome.bind_ok h
  cases h
  exact .registered made

theorem Registry.newGlobal_reached {id : RegistryId} {r : Registry}
    (h : (newGlobal id).result = .ok r) : r.index.Reached := by
  rw [newGlobal, Report.result_bind] at h
  obtain ⟨air, made, h⟩ := Outcome.bind_ok h
  cases h
  exact Index.Reached.empty.add (.air made) (Index.empty_free air)

theorem Registry.Global.reached {r : Registry} (h : Global r) : r.index.Reached := by
  induction h with
  | start h => exact newGlobal_reached h
  | register before h ih =>
    obtain ⟨free, rfl, _⟩ := register_adds before.sound h
    exact ih.add (register_made h) free

theorem Version.addKinds_reached {registry : RegistryId} {version : String}
    {blocks : List (Name × BlockDescription)} {x y : Index} (reached : x.Reached)
    (h : (addKinds registry version x blocks).result = .ok y) : y.Reached := by
  induction blocks generalizing x with
  | nil =>
    cases h
    exact reached
  | cons e rest ih =>
    obtain ⟨name, b⟩ := e
    rw [addKinds, Report.result_bind] at h
    obtain ⟨k, built, h⟩ := Outcome.bind_ok h
    rw [Report.result_bind, Report.result_liftError] at h
    obtain ⟨z, placed, h⟩ := Outcome.bind_ok h
    have made : k.Made := .described built
    cases inserted : x.insert k with
    | error c =>
      rw [inserted] at placed
      cases placed
    | ok w =>
      rw [inserted] at placed
      cases placed
      obtain ⟨free, rfl⟩ :=
        (Index.insert_eq_ok_iff reached.faithful made.distinct).mp inserted
      exact ih (reached.add made free) h

theorem Registry.Built.reached {r : Registry} (built : r.Built) : r.index.Reached := by
  cases built with
  | isGlobal h => exact h.reached
  | ofVersion h =>
    unfold Version.build at h
    rw [Report.result_bind] at h
    obtain ⟨x, added, h⟩ := Outcome.bind_ok h
    split at h
    · cases h
    · rw [Report.result_bind] at h
      obtain ⟨t, _, h⟩ := Outcome.bind_ok h
      rw [Report.result_bind] at h
      obtain ⟨b, _, h⟩ := Outcome.bind_ok h
      cases h
      exact Version.addKinds_reached .empty added

end Voxel
