import Mathlib.Data.List.Nodup
import Voxel.Proofs.Block.State
import Voxel.Registry.Index

/-!
# Look-up tables

The tables of a faithful index answer exactly what its kinds and their states say. `add_faithful`
shows that adding a kind keeps this, provided that the kind's own numbers are distinct, and
`clash?_eq_none_iff` that a kind is refused exactly if something of it is taken.
-/

namespace Voxel

namespace LegacyPair

theorem toNat_combined {p : LegacyPair} (low : p.data < 16) :
    p.combined.toNat = p.id.toNat * 16 + p.data.toNat := by
  rw [UInt8.lt_iff_toNat_lt] at low
  have small : p.data.toNat < 2 ^ 4 := low
  have number := p.id.toNat_lt
  have shifted : (p.id.toUInt32 <<< 4).toNat = p.id.toNat <<< 4 := by
    rw [UInt32.toNat_shiftLeft, UInt16.toNat_toUInt32]
    refine Nat.mod_eq_of_lt ?_
    rw [show (4 : UInt32).toNat % 32 = 4 from rfl, Nat.shiftLeft_eq]
    omega
  rw [combined, UInt32.toNat_or, shifted, UInt8.toNat_toUInt32, ← Nat.shiftLeft_add_eq_or_of_lt small,
    Nat.shiftLeft_eq]

/-- With data below 16 no two pairs make one word. -/
theorem eq_of_combined {p q : LegacyPair} (left : p.data < 16) (right : q.data < 16)
    (same : p.combined = q.combined) : p = q := by
  have equal := congrArg UInt32.toNat same
  rw [toNat_combined left, toNat_combined right] at equal
  rw [UInt8.lt_iff_toNat_lt] at left right
  have small : (16 : UInt8).toNat = 16 := rfl
  have id : p.id.toNat = q.id.toNat := by omega
  have data : p.data.toNat = q.data.toNat := by omega
  cases p
  cases q
  exact congrArg₂ mk (UInt16.toNat_inj.mp id) (UInt8.toNat_inj.mp data)

end LegacyPair

namespace BlockKind

/-- The states of a kind have distinct numbers and distinct old numbers, with four bits of data. -/
structure Distinct (k : BlockKind) : Prop where
  runtimeIds : (k.states.map BlockState.runtimeId).Nodup
  legacy : (k.states.filterMap BlockState.legacy).Nodup
  low : ∀ s ∈ k.states, ∀ p, s.legacy = some p → p.data < 16

end BlockKind

namespace Index

/-- Every table answers for the kinds that were added and for nothing else. -/
structure Faithful (x : Index) : Prop where
  byName : ∀ name k, x.byName[name]? = some k ↔ k ∈ x.kinds.toList ∧ k.name = name
  byLegacyId : ∀ id k, x.byLegacyId[id]? = some k ↔ k ∈ x.kinds.toList ∧ k.legacyId = some id
  byRuntimeId : ∀ id s, x.state? id = some s ↔ s ∈ x.states ∧ s.runtimeId = id
  byLegacyPair : ∀ p, p.data < 16 → ∀ id, x.byLegacyPair[p.combined]? = some id ↔
    ∃ s ∈ x.states, s.legacy = some p ∧ s.runtimeId = id
  low : ∀ s ∈ x.states, ∀ p, s.legacy = some p → p.data < 16
  limit_le : x.limit ≤ UInt32.size
  limit_used : x.limit ≠ 0 → ∃ s ∈ x.states, s.runtimeId.toNat + 1 = x.limit
  stateCount : x.stateCount = x.states.length
  distinct : (x.states.map BlockState.runtimeId).Nodup

theorem mem_states {x : Index} {s : BlockState} : s ∈ x.states ↔ s.kind ∈ x.kinds.toList := by
  unfold states
  rw [List.mem_flatMap]
  constructor
  · rintro ⟨k, member, state⟩
    exact BlockKind.mem_states.mp state ▸ member
  · intro member
    exact ⟨s.kind, member, BlockKind.mem_states.mpr rfl⟩

theorem Faithful.eq_of_runtimeId {x : Index} (faithful : x.Faithful) {s t : BlockState}
    (left : s ∈ x.states) (right : t ∈ x.states) (same : s.runtimeId = t.runtimeId) : s = t :=
  List.inj_on_of_nodup_map faithful.distinct left right same

theorem Faithful.eq_of_name {x : Index} (faithful : x.Faithful) {j k : BlockKind}
    (left : j ∈ x.kinds.toList) (right : k ∈ x.kinds.toList) (same : j.name = k.name) : j = k := by
  have found := (faithful.byName k.name j).mpr ⟨left, same⟩
  exact Option.some.inj (found.symm.trans ((faithful.byName _ k).mpr ⟨right, rfl⟩))

theorem Faithful.eq_of_legacyId {x : Index} (faithful : x.Faithful) {j k : BlockKind}
    (left : j ∈ x.kinds.toList) (right : k ∈ x.kinds.toList) {id : UInt16} (old : j.legacyId = some id)
    (oldToo : k.legacyId = some id) : j = k := by
  have found := (faithful.byLegacyId id j).mpr ⟨left, old⟩
  exact Option.some.inj (found.symm.trans ((faithful.byLegacyId id k).mpr ⟨right, oldToo⟩))

theorem Faithful.nodup_kinds {x : Index} (faithful : x.Faithful) : x.kinds.toList.Nodup := by
  have states : x.states.Nodup := List.Nodup.of_map _ faithful.distinct
  refine (List.nodup_flatMap.mp states).2.imp fun {j k} apart same => ?_
  subst same
  have own := BlockKind.mem_states.mpr (rfl : j.defaultState.kind = j)
  exact apart own own

theorem rising_legacyIds (x : Index) : x.legacyIds.Pairwise fun a b => a.1 < b.1 := by
  rw [legacyIds, List.pairwise_map]
  exact Std.TreeMap.ordered_keys_toList.imp fun less => Std.compare_eq_lt.mp less

theorem nodup_legacyIds (x : Index) : x.legacyIds.Nodup := by
  refine x.rising_legacyIds.imp fun {a b} less same => ?_
  rw [same] at less
  exact UInt16.lt_irrefl b.1 less

theorem mem_legacyIds {x : Index} (faithful : x.Faithful) {id : UInt16} {name : Name} :
    (id, name) ∈ x.legacyIds ↔ ∃ k ∈ x.kinds.toList, k.legacyId = some id ∧ k.name = name := by
  rw [legacyIds, List.mem_map]
  constructor
  · rintro ⟨⟨_, k⟩, listed, same⟩
    cases same
    have found := Std.TreeMap.mem_toList_iff_getElem?_eq_some.mp listed
    obtain ⟨member, old⟩ := (faithful.byLegacyId _ k).mp found
    exact ⟨k, member, old, rfl⟩
  · rintro ⟨k, member, old, rfl⟩
    have found := (faithful.byLegacyId id k).mpr ⟨member, old⟩
    exact ⟨(id, k), Std.TreeMap.mem_toList_iff_getElem?_eq_some.mpr found, rfl⟩

theorem perm_legacyIds {x : Index} (faithful : x.Faithful) :
    x.legacyIds.Perm (x.kinds.toList.filterMap fun k => k.legacyId.map (·, k.name)) := by
  have apart : (x.kinds.toList.filterMap fun k => k.legacyId.map (·, k.name)).Nodup := by
    rw [List.Nodup, List.pairwise_filterMap]
    refine faithful.nodup_kinds.imp_of_mem fun {j k} left right other a old b oldToo same => ?_
    obtain ⟨i, number, rfl⟩ := Option.map_eq_some_iff.mp old
    obtain ⟨i', numberToo, rfl⟩ := Option.map_eq_some_iff.mp oldToo
    obtain rfl : i = i' := congrArg Prod.fst same
    exact other (faithful.eq_of_legacyId left right number numberToo)
  refine (List.perm_ext_iff_of_nodup x.nodup_legacyIds apart).mpr fun ⟨id, name⟩ => ?_
  rw [mem_legacyIds faithful, List.mem_filterMap]
  refine exists_congr fun k => and_congr_right fun _ => ?_
  simp [Option.map_eq_some_iff]

theorem empty_faithful : Faithful empty where
  byName name k := by simp [empty]
  byLegacyId id k := by simp [empty]
  byRuntimeId id s := by simp [empty, state?, states]
  byLegacyPair p _ id := by simp [empty, states]
  low _ member := absurd member List.not_mem_nil
  limit_le := Nat.zero_le _
  limit_used used := absurd rfl used
  stateCount := rfl
  distinct := List.nodup_nil

/-! ### Clashes -/

theorem hasName_eq_true {x : Index} (faithful : x.Faithful) {name : Name} :
    x.hasName name = true ↔ ∃ k ∈ x.kinds.toList, k.name = name := by
  rw [hasName, Std.HashMap.contains_eq_isSome_getElem?, Option.isSome_iff_exists]
  exact exists_congr fun k => faithful.byName name k

theorem hasName_eq_false {x : Index} (faithful : x.Faithful) {name : Name} :
    x.hasName name = false ↔ ∀ k ∈ x.kinds.toList, k.name ≠ name := by
  rw [← Bool.not_eq_true, hasName_eq_true faithful]
  simp only [not_exists, not_and, ne_eq]

theorem hasLegacyId_eq_true {x : Index} (faithful : x.Faithful) {id : UInt16} :
    x.hasLegacyId id = true ↔ ∃ k ∈ x.kinds.toList, k.legacyId = some id := by
  rw [hasLegacyId, Std.TreeMap.contains_eq_isSome_getElem?, Option.isSome_iff_exists]
  exact exists_congr fun k => faithful.byLegacyId id k

theorem hasLegacyId_eq_false {x : Index} (faithful : x.Faithful) {id : UInt16} :
    x.hasLegacyId id = false ↔ ∀ k ∈ x.kinds.toList, k.legacyId ≠ some id := by
  rw [← Bool.not_eq_true, hasLegacyId_eq_true faithful]
  simp only [not_exists, not_and, ne_eq]

theorem hasRuntimeId_eq_true {x : Index} (faithful : x.Faithful) {id : StateId} :
    x.hasRuntimeId id = true ↔ ∃ s ∈ x.states, s.runtimeId = id := by
  rw [hasRuntimeId, Option.isSome_iff_exists]
  exact exists_congr fun s => faithful.byRuntimeId id s

theorem lt_limit_of_hasRuntimeId {x : Index} {id : StateId} (known : x.hasRuntimeId id = true) :
    id.toNat < x.limit := by
  obtain ⟨s, found⟩ := Option.isSome_iff_exists.mp known
  rw [state?, Option.join_eq_some_iff] at found
  exact (Array.getElem?_eq_some_iff.mp found).1

theorem contains_legacyPair {x : Index} (faithful : x.Faithful) {p : LegacyPair} (low : p.data < 16) :
    x.byLegacyPair.contains p.combined = true ↔ ∃ s ∈ x.states, s.legacy = some p := by
  rw [Std.HashMap.contains_eq_isSome_getElem?, Option.isSome_iff_exists]
  constructor
  · rintro ⟨id, found⟩
    obtain ⟨s, member, legacy, _⟩ := (faithful.byLegacyPair p low id).mp found
    exact ⟨s, member, legacy⟩
  · rintro ⟨s, member, legacy⟩
    exact ⟨s.runtimeId, (faithful.byLegacyPair p low _).mpr ⟨s, member, legacy, rfl⟩⟩

theorem hasLegacyPair_eq_true {x : Index} (faithful : x.Faithful) {p : LegacyPair} :
    x.hasLegacyPair p = true ↔ ∃ s ∈ x.states, s.legacy = some p := by
  rw [hasLegacyPair, Bool.and_eq_true, decide_eq_true_eq]
  constructor
  · rintro ⟨low, found⟩
    exact (contains_legacyPair faithful low).mp found
  · intro known
    obtain ⟨s, member, legacy⟩ := known
    have low := faithful.low s member p legacy
    exact ⟨low, (contains_legacyPair faithful low).mpr ⟨s, member, legacy⟩⟩

/-- Nothing of a state is taken. -/
structure FreeState (x : Index) (s : BlockState) : Prop where
  runtimeId : ∀ t ∈ x.states, t.runtimeId ≠ s.runtimeId
  legacy : ∀ t ∈ x.states, ∀ p, s.legacy = some p → t.legacy ≠ some p

/-- Nothing of a kind is taken. -/
structure Free (x : Index) (k : BlockKind) : Prop where
  name : ∀ j ∈ x.kinds.toList, j.name ≠ k.name
  legacyId : ∀ j ∈ x.kinds.toList, ∀ id, k.legacyId = some id → j.legacyId ≠ some id
  states : ∀ s ∈ k.states, x.FreeState s

theorem empty_free (k : BlockKind) : empty.Free k :=
  ⟨fun _ member => absurd member List.not_mem_nil, fun _ member => absurd member List.not_mem_nil,
    fun _ _ => ⟨fun _ member => absurd member List.not_mem_nil,
      fun _ member => absurd member List.not_mem_nil⟩⟩

theorem stateClash?_eq_none_iff {x : Index} (faithful : x.Faithful) {s : BlockState}
    (low : ∀ p, s.legacy = some p → p.data < 16) : x.stateClash? s = none ↔ x.FreeState s := by
  unfold stateClash?
  constructor
  · intro free
    split at free
    · cases free
    · rename_i unknown
      have ids : ∀ t ∈ x.states, t.runtimeId ≠ s.runtimeId := fun t member same =>
        unknown ((hasRuntimeId_eq_true faithful).mpr ⟨t, member, same⟩)
      refine ⟨ids, fun t member p legacy same => ?_⟩
      rw [legacy] at free
      simp only [(contains_legacyPair faithful (low p legacy)).mpr ⟨t, member, same⟩, if_true] at free
      cases free
  · intro free
    rw [if_neg]
    · cases legacy : s.legacy with
      | none => rfl
      | some p =>
        refine if_neg fun taken => ?_
        obtain ⟨t, member, same⟩ := (contains_legacyPair faithful (low p legacy)).mp taken
        exact free.legacy t member p legacy same
    · intro taken
      obtain ⟨t, member, same⟩ := (hasRuntimeId_eq_true faithful).mp taken
      exact free.runtimeId t member same

theorem clash?_eq_none_iff {x : Index} (faithful : x.Faithful) {k : BlockKind} (own : k.Distinct) :
    x.clash? k = none ↔ x.Free k := by
  have states : k.states.findSome? x.stateClash? = none ↔ ∀ s ∈ k.states, x.FreeState s := by
    rw [List.findSome?_eq_none_iff]
    exact forall₂_congr fun s member => stateClash?_eq_none_iff faithful (own.low s member)
  have legacyIds : k.legacyId.filter x.hasLegacyId = none ↔
      ∀ j ∈ x.kinds.toList, ∀ id, k.legacyId = some id → j.legacyId ≠ some id := by
    rw [Option.filter_eq_none_iff]
    constructor
    · intro free j member id legacy
      have absent : x.hasLegacyId id = false := Bool.eq_false_iff.mpr (free id legacy)
      exact (hasLegacyId_eq_false faithful).mp absent j member
    · intro free id legacy
      exact Bool.eq_false_iff.mp ((hasLegacyId_eq_false faithful).mpr fun j member =>
        free j member id legacy)
  unfold clash?
  cases named : x.hasName k.name with
  | true =>
    refine ⟨fun free => by simp at free, fun free => ?_⟩
    rw [(hasName_eq_false faithful).mpr free.name] at named
    cases named
  | false =>
    have names := (hasName_eq_false faithful).mp named
    cases taken : k.legacyId.filter x.hasLegacyId with
    | some id =>
      refine ⟨fun free => by simp at free, fun free => ?_⟩
      rw [legacyIds.mpr free.legacyId] at taken
      cases taken
    | none =>
      simp only [Bool.false_eq_true, if_false, states]
      exact ⟨fun free => ⟨names, legacyIds.mp taken, free⟩, fun free => free.states⟩

theorem kind_cases {x : Index} (faithful : x.Faithful) (name : Name) :
    (∃ k ∈ x.kinds.toList, k.name = name ∧ x.kind name = .ok k ∧
      ∀ j ∈ x.kinds.toList, j.name = name → j = k) ∨
    ((∀ k ∈ x.kinds.toList, k.name ≠ name) ∧ x.kind name = .error (.unknownName name)) := by
  unfold Index.kind
  cases found : x.byName[name]? with
  | some k =>
    obtain ⟨member, named⟩ := (faithful.byName name k).mp found
    refine Or.inl ⟨k, member, named, rfl, fun j other same => ?_⟩
    exact Option.some.inj (((faithful.byName name j).mpr ⟨other, same⟩).symm.trans found)
  | none =>
    refine Or.inr ⟨fun k member named => ?_, rfl⟩
    rw [(faithful.byName name k).mpr ⟨member, named⟩] at found
    cases found

theorem kind_eq_ok_iff {x : Index} (faithful : x.Faithful) {name : Name} {k : BlockKind} :
    x.kind name = .ok k ↔ k ∈ x.kinds.toList ∧ k.name = name := by
  rw [← faithful.byName]
  unfold Index.kind
  cases x.byName[name]? <;> simp

theorem state_eq_ok_iff {x : Index} (faithful : x.Faithful) {id : StateId} {s : BlockState} :
    x.state id = .ok s ↔ s ∈ x.states ∧ s.runtimeId = id := by
  rw [← faithful.byRuntimeId]
  unfold Index.state
  cases x.state? id <;> simp

theorem legacyKind_eq_ok_iff {x : Index} (faithful : x.Faithful) {id : UInt16} {k : BlockKind} :
    x.legacyKind id = .ok k ↔ k ∈ x.kinds.toList ∧ k.legacyId = some id := by
  rw [← faithful.byLegacyId]
  unfold Index.legacyKind
  cases x.byLegacyId[id]? <;> simp

theorem legacyRuntimeId_eq_ok_iff {x : Index} (faithful : x.Faithful) {p : LegacyPair}
    {id : StateId} : x.legacyRuntimeId p = .ok id ↔
      ∃ s ∈ x.states, s.legacy = some p ∧ s.runtimeId = id := by
  unfold Index.legacyRuntimeId
  by_cases low : p.data < 16
  · rw [if_pos low, ← faithful.byLegacyPair p low]
    cases x.byLegacyPair[p.combined]? <;> simp
  · rw [if_neg low]
    refine iff_of_false (fun found => by cases found) ?_
    rintro ⟨s, member, legacy, _⟩
    exact low (faithful.low s member p legacy)

theorem isSome_toOption_kind {x : Index} {name : Name} :
    (x.kind name).toOption.isSome = x.hasName name := by
  unfold Index.kind hasName
  rw [Std.HashMap.contains_eq_isSome_getElem?]
  cases x.byName[name]? <;> rfl

theorem exists_kind {x : Index} {name : Name} (known : x.hasName name = true) :
    ∃ k, x.kind name = .ok k := by
  rw [← isSome_toOption_kind] at known
  cases found : x.kind name with
  | ok k => exact ⟨k, rfl⟩
  | error e =>
    rw [found] at known
    cases known

theorem legacyRuntimeId_cases {x : Index} (faithful : x.Faithful) (p : LegacyPair) :
    (x.hasLegacyPair p = true ∧ ∃ id, x.legacyRuntimeId p = .ok id ∧ x.hasRuntimeId id = true) ∨
    (x.hasLegacyPair p = false ∧ x.legacyRuntimeId p = .error (.unknownLegacyState p.id p.data)) := by
  unfold hasLegacyPair legacyRuntimeId
  by_cases low : p.data < 16
  · rw [if_pos low, decide_eq_true low, Bool.true_and, Std.HashMap.contains_eq_isSome_getElem?]
    cases found : x.byLegacyPair[p.combined]? with
    | none => exact Or.inr ⟨rfl, rfl⟩
    | some id =>
      obtain ⟨t, member, _, same⟩ := (faithful.byLegacyPair p low id).mp found
      have known := (hasRuntimeId_eq_true faithful).mpr ⟨t, member, same⟩
      exact Or.inl ⟨rfl, id, rfl, known⟩
  · rw [if_neg low, decide_eq_false low]
    exact Or.inr ⟨rfl, rfl⟩

/-! ### Adding a kind -/

theorem size_place (ids : Array (Option BlockState)) (s : BlockState) :
    (place ids s).size = max ids.size (s.runtimeId.toNat + 1) := by
  unfold place
  dsimp only
  rw [Array.size_setIfInBounds]
  split
  · omega
  · rw [Array.size_append, Array.size_replicate]
    omega

theorem join_getElem?_place (ids : Array (Option BlockState)) (s : BlockState) (n : Nat) :
    (place ids s)[n]?.join = if s.runtimeId.toNat = n then some s else ids[n]?.join := by
  unfold place
  dsimp only
  rw [Array.getElem?_setIfInBounds]
  by_cases same : s.runtimeId.toNat = n
  · subst same
    rw [if_pos rfl, if_pos rfl, if_pos]
    · rfl
    · split
      · assumption
      · rw [Array.size_append, Array.size_replicate]
        omega
  · rw [if_neg same, if_neg same]
    split
    · rfl
    · -- the places filled up with holes look like those beyond the end
      rw [Array.getElem?_append]
      split
      · rfl
      · rename_i beyond
        rw [Array.getElem?_eq_none (Nat.not_lt.mp beyond), Array.getElem?_replicate]
        split <;> rfl

theorem join_getElem?_foldl_place (states : List BlockState) (ids : Array (Option BlockState))
    (distinct : (states.map BlockState.runtimeId).Nodup) (n : Nat) (s : BlockState) :
    (states.foldl place ids)[n]?.join = some s ↔
      (s ∈ states ∧ s.runtimeId.toNat = n) ∨
        (ids[n]?.join = some s ∧ ∀ t ∈ states, t.runtimeId.toNat ≠ n) := by
  induction states generalizing ids with
  | nil => simp
  | cons t rest ih =>
    rw [List.map_cons, List.nodup_cons] at distinct
    have apart : ∀ u ∈ rest, u.runtimeId.toNat ≠ t.runtimeId.toNat := fun u member same =>
      distinct.1 (UInt32.toNat_inj.mp same ▸ List.mem_map_of_mem member)
    rw [List.foldl_cons, ih _ distinct.2, join_getElem?_place, List.forall_mem_cons, List.mem_cons]
    by_cases here : t.runtimeId.toNat = n
    · subst here
      rw [if_pos rfl]
      constructor
      · rintro (⟨member, same⟩ | ⟨same, _⟩)
        · exact absurd same (apart s member)
        · exact Or.inl ⟨Or.inl (Option.some.inj same).symm, by rw [Option.some.inj same]⟩
      · rintro (⟨rfl | member, same⟩ | ⟨_, other, _⟩)
        · exact Or.inr ⟨rfl, apart⟩
        · exact Or.inl ⟨member, same⟩
        · exact absurd rfl other
    · rw [if_neg here]
      constructor
      · rintro (⟨member, same⟩ | ⟨stored, others⟩)
        · exact Or.inl ⟨Or.inr member, same⟩
        · exact Or.inr ⟨stored, here, others⟩
      · rintro (⟨rfl | member, same⟩ | ⟨stored, _, others⟩)
        · exact absurd same here
        · exact Or.inl ⟨member, same⟩
        · exact Or.inr ⟨stored, others⟩

theorem size_foldl_place_le (states : List BlockState) (ids : Array (Option BlockState)) {limit : Nat}
    (le : ids.size ≤ limit) (low : ∀ s ∈ states, s.runtimeId.toNat < limit) :
    (states.foldl place ids).size ≤ limit := by
  induction states generalizing ids with
  | nil => exact le
  | cons t rest ih =>
    have ⟨here, later⟩ := List.forall_mem_cons.mp low
    apply ih _ _ later
    rw [size_place]
    omega

theorem size_foldl_place_used (states : List BlockState) (ids : Array (Option BlockState)) :
    (∃ s ∈ states, s.runtimeId.toNat + 1 = (states.foldl place ids).size) ∨
      (states.foldl place ids).size = ids.size := by
  induction states generalizing ids with
  | nil => exact Or.inr rfl
  | cons t rest ih =>
    rw [List.foldl_cons]
    obtain ⟨s, member, last⟩ | same := ih (place ids t)
    · exact Or.inl ⟨s, List.mem_cons_of_mem _ member, last⟩
    · rw [same, size_place]
      by_cases higher : ids.size ≤ t.runtimeId.toNat + 1
      · exact Or.inl ⟨t, List.mem_cons_self, (Nat.max_eq_right higher).symm⟩
      · exact Or.inr (Nat.max_eq_left (Nat.le_of_not_le higher))

theorem getElem?_foldl_placeLegacy (states : List BlockState) (pairs : Std.HashMap UInt32 StateId)
    (distinct : (states.filterMap BlockState.legacy).Nodup)
    (lows : ∀ s ∈ states, ∀ p, s.legacy = some p → p.data < 16) {p : LegacyPair} (low : p.data < 16)
    (id : StateId) :
    (states.foldl placeLegacy pairs)[p.combined]? = some id ↔
      (∃ s ∈ states, s.legacy = some p ∧ s.runtimeId = id) ∨
        (pairs[p.combined]? = some id ∧ ∀ s ∈ states, s.legacy ≠ some p) := by
  induction states generalizing pairs with
  | nil => simp
  | cons t rest ih =>
    have ⟨own, others⟩ := List.forall_mem_cons.mp lows
    rw [List.foldl_cons]
    cases legacy : t.legacy with
    | none =>
      rw [List.filterMap_cons_none legacy] at distinct
      rw [ih _ distinct others, placeLegacy, legacy]
      simp only [List.exists_mem_cons_iff, List.forall_mem_cons, legacy, reduceCtorEq, false_and,
        false_or, ne_eq, not_false_eq_true, true_and]
    | some q =>
      rw [List.filterMap_cons_some legacy, List.nodup_cons] at distinct
      have apart : ∀ s ∈ rest, s.legacy ≠ some q := fun s member same =>
        distinct.1 (List.mem_filterMap.mpr ⟨s, member, same⟩)
      have word : q.combined = p.combined ↔ q = p :=
        ⟨LegacyPair.eq_of_combined (own q legacy) low, congrArg _⟩
      rw [ih _ distinct.2 others, placeLegacy, legacy]
      simp only [Std.HashMap.getElem?_insert, List.exists_mem_cons_iff, List.forall_mem_cons, legacy,
        Option.some.injEq, beq_iff_eq, word]
      by_cases here : q = p
      · subst here
        simp only [if_true, true_and]
        constructor
        · rintro (found | ⟨same, _⟩)
          · exact Or.inl (Or.inr found)
          · exact Or.inl (Or.inl (Option.some.inj same))
        · rintro ((same | found) | ⟨_, other, _⟩)
          · exact Or.inr ⟨congrArg some same, apart⟩
          · exact Or.inl found
          · exact absurd rfl other
      · simp only [here, if_false, false_and, false_or, ne_eq, Option.some.injEq, not_false_eq_true,
          true_and]

theorem states_add (x : Index) (k : BlockKind) : (x.add k).states = x.states ++ k.states := by
  simp [states, add]

theorem kinds_add (x : Index) (k : BlockKind) :
    (x.add k).kinds.toList = x.kinds.toList ++ [k] := Array.toList_push

section

variable {x : Index} (faithful : x.Faithful) {k : BlockKind}
include faithful

theorem byName_add (free : x.Free k) (name : Name) (j : BlockKind) :
    (x.add k).byName[name]? = some j ↔ j ∈ (x.add k).kinds.toList ∧ j.name = name := by
  rw [kinds_add, add, Std.HashMap.getElem?_insert, List.mem_append, List.mem_singleton]
  by_cases here : k.name = name
  · subst here
    simp only [beq_self_eq_true, if_true, Option.some.injEq]
    constructor
    · rintro rfl
      exact ⟨Or.inr rfl, rfl⟩
    · rintro ⟨old | rfl, same⟩
      · exact absurd same (free.name j old)
      · rfl
  · simp only [beq_iff_eq, here, if_false, faithful.byName]
    constructor
    · rintro ⟨old, same⟩
      exact ⟨Or.inl old, same⟩
    · rintro ⟨old | rfl, same⟩
      · exact ⟨old, same⟩
      · exact absurd same here

theorem byLegacyId_add (free : x.Free k) (id : UInt16) (j : BlockKind) :
    (x.add k).byLegacyId[id]? = some j ↔ j ∈ (x.add k).kinds.toList ∧ j.legacyId = some id := by
  rw [kinds_add, List.mem_append, List.mem_singleton]
  unfold add
  cases legacy : k.legacyId with
  | none =>
    simp only [faithful.byLegacyId]
    constructor
    · rintro ⟨old, same⟩
      exact ⟨Or.inl old, same⟩
    · rintro ⟨old | rfl, same⟩
      · exact ⟨old, same⟩
      · rw [legacy] at same
        cases same
  | some new =>
    simp only [Std.TreeMap.getElem?_insert, Std.compare_eq_iff_eq]
    by_cases here : new = id
    · subst here
      rw [if_pos rfl]
      constructor
      · intro found
        cases found
        exact ⟨Or.inr rfl, legacy⟩
      · rintro ⟨old | rfl, same⟩
        · exact absurd same (free.legacyId j old new legacy)
        · rfl
    · rw [if_neg here, faithful.byLegacyId]
      constructor
      · rintro ⟨old, same⟩
        exact ⟨Or.inl old, same⟩
      · rintro ⟨old | rfl, same⟩
        · exact ⟨old, same⟩
        · rw [legacy] at same
          exact absurd (Option.some.inj same) here

theorem byRuntimeId_add (own : k.Distinct) (free : x.Free k) (id : StateId) (s : BlockState) :
    (x.add k).state? id = some s ↔ s ∈ (x.add k).states ∧ s.runtimeId = id := by
  rw [states_add, List.mem_append]
  show (k.states.foldl place x.byRuntimeId)[id.toNat]?.join = some s ↔ _
  rw [join_getElem?_foldl_place _ _ own.runtimeIds]
  have old := faithful.byRuntimeId id s
  rw [state?] at old
  rw [old, UInt32.toNat_inj]
  constructor
  · rintro (⟨member, same⟩ | ⟨⟨member, same⟩, _⟩)
    · exact ⟨Or.inr member, same⟩
    · exact ⟨Or.inl member, same⟩
  · rintro ⟨member | member, same⟩
    · refine Or.inr ⟨⟨member, same⟩, fun t new equal => ?_⟩
      exact (free.states t new).runtimeId s member (same.trans (UInt32.toNat_inj.mp equal).symm)
    · exact Or.inl ⟨member, same⟩

theorem byLegacyPair_add (own : k.Distinct) (free : x.Free k) (p : LegacyPair) (low : p.data < 16)
    (id : StateId) : (x.add k).byLegacyPair[p.combined]? = some id ↔
      ∃ s ∈ (x.add k).states, s.legacy = some p ∧ s.runtimeId = id := by
  rw [states_add]
  show (k.states.foldl placeLegacy x.byLegacyPair)[p.combined]? = some id ↔ _
  rw [getElem?_foldl_placeLegacy _ _ own.legacy own.low low, faithful.byLegacyPair p low]
  simp only [List.mem_append, or_and_right, exists_or]
  constructor
  · rintro (found | ⟨found, _⟩)
    · exact Or.inr found
    · exact Or.inl found
  · rintro (⟨s, member, legacy, same⟩ | found)
    · exact Or.inr ⟨⟨s, member, legacy, same⟩, fun t new equal =>
        (free.states t new).legacy s member p equal legacy⟩
    · exact Or.inl found

theorem add_faithful (own : k.Distinct) (free : x.Free k) : (x.add k).Faithful where
  byName := byName_add faithful free
  byLegacyId := byLegacyId_add faithful free
  byRuntimeId := byRuntimeId_add faithful own free
  byLegacyPair := byLegacyPair_add faithful own free
  low s member p legacy := by
    rw [states_add, List.mem_append] at member
    obtain old | new := member
    · exact faithful.low s old p legacy
    · exact own.low s new p legacy
  limit_le := size_foldl_place_le _ _ faithful.limit_le fun s _ => s.runtimeId.toNat_lt
  limit_used used := by
    rw [states_add]
    obtain ⟨s, member, last⟩ | same := size_foldl_place_used k.states x.byRuntimeId
    · exact ⟨s, List.mem_append_right _ member, last⟩
    · have limit : (x.add k).limit = x.limit := same
      rw [limit] at used ⊢
      obtain ⟨s, member, last⟩ := faithful.limit_used used
      exact ⟨s, List.mem_append_left _ member, last⟩
  stateCount := by
    rw [states_add, List.length_append, BlockKind.length_states, ← faithful.stateCount]
    rfl
  distinct := by
    rw [states_add, List.map_append, List.nodup_append]
    refine ⟨faithful.distinct, own.runtimeIds, fun a old b new same => ?_⟩
    obtain ⟨s, member, rfl⟩ := List.mem_map.mp old
    obtain ⟨t, added, rfl⟩ := List.mem_map.mp new
    exact (free.states t added).runtimeId s member same

end

/-- Adding a kind succeeds exactly if nothing of it is taken. -/
theorem insert_eq_ok_iff {x y : Index} (faithful : x.Faithful) {k : BlockKind} (own : k.Distinct) :
    x.insert k = .ok y ↔ x.Free k ∧ y = x.add k := by
  rw [← clash?_eq_none_iff faithful own, insert]
  cases x.clash? k with
  | none => simp [eq_comm]
  | some c => simp

end Index
end Voxel
