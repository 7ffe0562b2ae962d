import Mathlib.Algebra.BigOperators.Group.List.Basic
import Mathlib.Data.List.Nodup
import Voxel.Proofs.Version.Draft
import Voxel.Proofs.Version.Property

/-!
# Well-formed blocks

`WellFormed` says in terms of the description alone which blocks have kinds. `placeable_iff` ties it
to the placing of states: the states of a block can be placed apart from each other exactly if the
description is sound in what it says of them.
-/

namespace Voxel

open Version

/-- Two states give the same values, up to the case of letters. -/
def SameValues (s t : StateDescription) : Prop :=
  ∀ p a b, (p, a) ∈ s.values.entries → (p, b) ∈ t.values.entries → Text.fold a = Text.fold b

namespace BlockDescription

def lowest (b : BlockDescription) : Nat := (b.states.map fun s => s.id.toNat).min?.getD 0

/-- The data of a state: what is given, or its distance from the lowest number if that is below 16. -/
def dataOf (b : BlockDescription) (s : StateDescription) : Option UInt8 :=
  match s.data with
  | some m => some m
  | none => if s.id.toNat - b.lowest < 16 then some (UInt8.ofNat (s.id.toNat - b.lowest)) else none

/-- A state gives one readable value for each property. -/
structure Gives (b : BlockDescription) (s : StateDescription) : Prop where
  keys : s.values.keys.Perm b.properties.keys
  values : ∀ p values text, (p, values) ∈ b.properties.entries → (p, text) ∈ s.values.entries →
    IsValue values text

/-- A block that has a kind. -/
structure WellFormed (b : BlockDescription) : Prop where
  legacyId : ∃ id, b.legacyId = some id ∧ id < 4096
  properties : b.properties.size ≤ 16
  values : ∀ p ∈ b.properties.entries, Values p.2 ∧ p.2.length ≤ 65535
  count : b.states.length = (b.properties.entries.map fun p => p.2.length).prod
  ids : ∀ s ∈ b.states, s.id.toNat < 2 ^ 20
  gives : ∀ s ∈ b.states, b.Gives s
  apart : b.states.Pairwise fun s t => ¬ SameValues s t
  data : ∀ s ∈ b.states, ∀ m, s.data = some m → m < 16
  dataApart : (b.states.filterMap b.dataOf).Nodup
  default : (b.states.filter (·.isDefault)).length = 1

theorem WellFormed.data_lt {b : BlockDescription} (wellFormed : b.WellFormed)
    {s : StateDescription} (inside : s ∈ b.states) {m : UInt8} (data : b.dataOf s = some m) :
    m < 16 := by
  unfold dataOf at data
  cases given : s.data with
  | some n =>
    rw [given] at data
    exact wellFormed.data s inside m (given.trans data)
  | none =>
    rw [given] at data
    dsimp only at data
    split at data
    · rename_i near
      cases data
      rw [UInt8.lt_iff_toNat_lt, UInt8.toNat_ofNat']
      exact Nat.lt_of_le_of_lt (Nat.mod_le _ _) near
    · cases data

end BlockDescription

namespace Version

/-! ### The lowest number -/

theorem toNat_foldl_min (states : List StateDescription) (m : StateId) :
    (states.foldl (fun m t => if t.id < m then t.id else m) m).toNat =
      (states.map fun s => s.id.toNat).foldl min m.toNat := by
  induction states generalizing m with
  | nil => rfl
  | cons t rest ih =>
    rw [List.foldl_cons, List.map_cons, List.foldl_cons, ih]
    congr 1
    split
    · rename_i less
      rw [UInt32.lt_iff_toNat_lt] at less
      omega
    · rename_i notLess
      rw [UInt32.lt_iff_toNat_lt] at notLess
      omega

theorem toNat_lowestId (b : BlockDescription) : (lowestId b.states).toNat = b.lowest := by
  unfold lowestId BlockDescription.lowest
  cases b.states with
  | nil => rfl
  | cons s rest => exact toNat_foldl_min rest s.id

theorem effective_eq (b : BlockDescription) (s : StateDescription) :
    effective (lowestId b.states) s = b.dataOf s := by
  unfold effective BlockDescription.dataOf
  cases s.data with
  | some m => rfl
  | none => simp only [toNat_lowestId]

/-! ### Properties -/

def Inferred (b : BlockDescription) (ps : List Property) : Prop :=
  List.Forall₂ (fun e p => Takes p e.1 e.2) b.properties.entries ps

variable {b : BlockDescription} {ps : List Property}

theorem Inferred.map_name (inferred : Inferred b ps) : ps.map Property.name = b.properties.keys :=
  (map_eq_of_forall₂ inferred fun _ _ takes => takes.name.symm).symm

theorem Inferred.map_size (inferred : Inferred b ps) :
    ps.map Property.size = b.properties.entries.map fun e => e.2.length :=
  (map_eq_of_forall₂ inferred fun _ _ takes => takes.size.symm).symm

theorem Inferred.names (inferred : Inferred b ps) : (ps.map Property.name).Nodup :=
  inferred.map_name ▸ b.properties.nodup

theorem Inferred.length (inferred : Inferred b ps) : ps.length = b.properties.size :=
  inferred.length_eq.symm

theorem Inferred.entry (inferred : Inferred b ps) {p : Property} (member : p ∈ ps) :
    ∃ e ∈ b.properties.entries, Takes p e.1 e.2 :=
  forall₂_of_mem inferred.flip member

theorem length_keys {κ ν : Type} (m : OrderedMap κ ν) : m.keys.length = m.size := List.length_map _

/-! ### Values -/

theorem readables_iff (inferred : Inferred b ps) {s : StateDescription} :
    Readables ps s ↔ b.Gives s := by
  constructor
  · intro readables
    have included : b.properties.keys ⊆ s.values.keys := by
      rw [← inferred.map_name]
      intro name member
      obtain ⟨p, inside, rfl⟩ := List.mem_map.mp member
      exact readables.every p inside
    have length : s.values.keys.length = b.properties.keys.length := by
      rw [length_keys, length_keys, readables.size, inferred.length]
    have perm := (b.properties.nodup.subperm included).perm_of_length_le (Nat.le_of_eq length)
    refine ⟨perm.symm, fun name values text declared given => ?_⟩
    obtain ⟨p, member, named, readable⟩ := readables.readable _ given
    obtain ⟨⟨name', values'⟩, entry, takes⟩ := inferred.entry member
    have same : name' = name := takes.name.symm.trans named
    subst same
    obtain rfl : values' = values := OrderedMap.value_eq entry declared
    exact (takes.reads text).mp readable
  · intro gives
    refine ⟨?_, fun e member => ?_⟩
    · rw [← length_keys, gives.keys.length_eq, length_keys, inferred.length]
    · have known := gives.keys.mem_iff.mp (List.mem_map_of_mem (f := Prod.fst) member)
      obtain ⟨⟨name, values⟩, declared, same⟩ := List.mem_map.mp known
      obtain ⟨p, inside, takes⟩ := forall₂_of_mem inferred declared
      have here : (e.1, values) ∈ b.properties.entries := same ▸ declared
      refine ⟨p, inside, takes.name.trans same, (takes.reads e.2).mpr ?_⟩
      exact gives.values e.1 values e.2 here member

theorem offset_eq_iff {s t : StateDescription} {p q : Placed} (left : Places ps s p)
    (right : Places ps t q) : p.offset = q.offset ↔ SameValues s t := by
  obtain ⟨ds, given, offset⟩ := left.offset
  obtain ⟨es, given', offset'⟩ := right.offset
  constructor
  · intro same name a b inS inT
    have digits : ds = es := by
      rw [← Radix.digits_number given.within, ← Radix.digits_number given'.within, ← offset,
        ← offset', same]
    subst digits
    obtain ⟨prop, member, named, _⟩ := left.fits.readables.readable _ inS
    obtain ⟨i, here⟩ := List.mem_iff_getElem?.mp member
    obtain ⟨a', d, memberA, decodedA, digitA⟩ := given.given i prop here
    obtain ⟨b', e, memberB, decodedB, digitB⟩ := given'.given i prop here
    obtain rfl : d = e := Option.some.inj (digitA.symm.trans digitB)
    rw [named] at memberA memberB
    rw [value_unique s.values.nodup inS memberA, value_unique t.values.nodup inT memberB]
    exact Property.fold_eq_of_decodeIndex decodedA decodedB
  · intro same
    rw [offset, offset', given.unique given' fun prop _ a b => same prop.name a b]

/-! ### Placing all states -/

theorem exists_places (names : (ps.map Property.name).Nodup) {s : StateDescription}
    (fits : Fits ps s) : ∃ q, Places ps s q := by
  rcases @offsetOf_cases .air ps names s fits.readables.size with
    ⟨_, ds, given, _⟩ | ⟨unreadable, _⟩
  · exact ⟨⟨s, Radix.number (ps.map Property.size) ds⟩, rfl, fits, ds, given, rfl⟩
  · exact absurd fits.readables unreadable

theorem places_map {states : List StateDescription} {qs : List Placed}
    (all : List.Forall₂ (Places ps) states qs) :
    states = qs.map Placed.state ∧ ∀ q ∈ qs, Places ps q.state q := by
  induction all with
  | nil => exact ⟨rfl, fun _ member => absurd member List.not_mem_nil⟩
  | cons places _ ih =>
    obtain ⟨same, rest⟩ := ih
    exact ⟨by rw [List.map_cons, places.state, ← same],
      List.forall_mem_cons.mpr ⟨places.state ▸ places, rest⟩⟩

structure Differ (b : BlockDescription) (s t : StateDescription) : Prop where
  values : ¬ SameValues s t
  id : s.id ≠ t.id
  data : ∀ m, b.dataOf s = some m → b.dataOf t ≠ some m
  default : ¬ (s.isDefault = true ∧ t.isDefault = true)

theorem apart_iff {p q : Placed} (left : Places ps p.state p) (right : Places ps q.state q) :
    Apart (lowestId b.states) p q ↔ Differ b p.state q.state := by
  have offset := offset_eq_iff left right
  constructor
  · rintro ⟨apart, id, data, default⟩
    simp only [effective_eq] at data
    exact ⟨fun same => apart (offset.mpr same), id, data, default⟩
  · rintro ⟨values, id, data, default⟩
    refine ⟨fun same => values (offset.mp same), id, ?_, default⟩
    simp only [effective_eq]
    exact data

/-- The states can be placed apart exactly if each fits and no two have anything in common. -/
theorem placeable_iff (inferred : Inferred b ps) :
    (∃ qs, List.Forall₂ (Places ps) b.states qs ∧ qs.Pairwise (Apart (lowestId b.states))) ↔
      (∀ s ∈ b.states, Fits ps s) ∧ b.states.Pairwise (Differ b) := by
  have pairwise : ∀ qs, List.Forall₂ (Places ps) b.states qs →
      (qs.Pairwise (Apart (lowestId b.states)) ↔ b.states.Pairwise (Differ b)) := by
    intro qs all
    obtain ⟨same, places⟩ := places_map all
    have mapped : b.states.Pairwise (Differ b) ↔ qs.Pairwise fun p q => Differ b p.state q.state := by
      rw [same, List.pairwise_map]
    rw [mapped]
    exact List.Pairwise.iff_of_mem fun left right => apart_iff (places _ left) (places _ right)
  constructor
  · rintro ⟨qs, all, apart⟩
    refine ⟨fun s member => ?_, (pairwise qs all).mp apart⟩
    obtain ⟨q, _, places⟩ := forall₂_of_mem all member
    exact places.fits
  · rintro ⟨fits, apart⟩
    have all : ∃ qs, List.Forall₂ (Places ps) b.states qs := by
      generalize b.states = states at fits
      induction states with
      | nil => exact ⟨[], .nil⟩
      | cons s rest ih =>
        obtain ⟨qs, all⟩ := ih fun t member => fits t (List.mem_cons_of_mem _ member)
        obtain ⟨q, places⟩ := exists_places inferred.names (fits s List.mem_cons_self)
        exact ⟨q :: qs, .cons places all⟩
    obtain ⟨qs, all⟩ := all
    exact ⟨qs, all, (pairwise qs all).mpr apart⟩

theorem pairwise_differ_iff (states : List StateDescription) :
    states.Pairwise (Differ b) ↔ states.Pairwise (fun s t => ¬ SameValues s t) ∧
      (states.map (·.id)).Nodup ∧ (states.filterMap b.dataOf).Nodup ∧
      states.Pairwise fun s t => ¬ (s.isDefault = true ∧ t.isDefault = true) := by
  rw [List.Nodup, List.Nodup, List.pairwise_map, List.pairwise_filterMap, ← List.pairwise_and_iff,
    ← List.pairwise_and_iff, ← List.pairwise_and_iff]
  have differ : ∀ s t, Differ b s t ↔ ¬ SameValues s t ∧ s.id ≠ t.id ∧
      (∀ m, b.dataOf s = some m → ∀ n, b.dataOf t = some n → m ≠ n) ∧
      ¬ (s.isDefault = true ∧ t.isDefault = true) := by
    intro s t
    constructor
    · rintro ⟨values, id, data, default⟩
      exact ⟨values, id, fun m left n right same => data m left (same ▸ right), default⟩
    · rintro ⟨values, id, data, default⟩
      exact ⟨values, id, fun m left right => data m left m right rfl, default⟩
  exact ⟨List.Pairwise.imp (differ _ _).mp, List.Pairwise.imp (differ _ _).mpr⟩

theorem length_filter_eq_one_iff {α : Type} {mark : α → Bool} {l : List α} :
    (l.filter mark).length = 1 ↔
      (∃ a ∈ l, mark a = true) ∧ l.Pairwise fun a b => ¬ (mark a = true ∧ mark b = true) := by
  induction l with
  | nil => simp
  | cons a rest ih =>
    rw [List.pairwise_cons, List.exists_mem_cons_iff]
    by_cases marked : mark a = true
    · have none : (rest.filter mark).length = 0 ↔ ∀ b ∈ rest, ¬ mark b = true := by
        rw [List.length_eq_zero_iff, List.filter_eq_nil_iff]
      rw [List.filter_cons_of_pos marked, List.length_cons, Nat.add_eq_right, none]
      constructor
      · intro all
        refine ⟨Or.inl marked, fun b member both => all b member both.2, ?_⟩
        exact List.pairwise_of_forall_mem_list fun b member _ _ both => all b member both.1
      · rintro ⟨_, apart, _⟩ b member other
        exact apart b member ⟨marked, other⟩
    · rw [List.filter_cons_of_neg marked, ih]
      constructor
      · rintro ⟨some_, apart⟩
        exact ⟨Or.inr some_, fun b _ both => marked both.1, apart⟩
      · rintro ⟨some_, _, apart⟩
        exact ⟨some_.resolve_left marked, apart⟩

end Version
end Voxel
