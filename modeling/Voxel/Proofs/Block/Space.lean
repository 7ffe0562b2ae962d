import Mathlib.Algebra.Order.BigOperators.Group.Finset
import Mathlib.Algebra.Order.BigOperators.Group.List
import Mathlib.Data.Set.Function
import Voxel.Proofs.Block.Declaration
import Voxel.Proofs.Block.State

/-!
# Enumerated state spaces

`Spans` says what a kind holds that a declaration was enumerated into: every combination of values, in
the order of the combinations, with what was assigned to each in turn. `enumerate_spans` shows that a
declaration is enumerated unless a check refuses it or a call fails. `InWords` collects the bounds
that let the numbers on the way be words.
-/

namespace Voxel

namespace Radix

/-- The numbers that an enumeration computes fit the words they are computed in: 16 bits for sizes and
digits, 32 for the products of sizes, their sums and the numbers below the total. The moves from each
state, four bytes apiece, fit a buffer. -/
structure InWords (sizes : List Nat) : Prop where
  each : ∀ size ∈ sizes, 0 < size ∧ size < 2 ^ 16
  products : ∀ n, 0 < total (sizes.drop n) ∧ total (sizes.drop n) < 2 ^ 32
  bases : ∀ n, (sizes.take n).sum < 2 ^ 32
  moves : total sizes * sizes.sum * 4 < 2 ^ 63
  digits : ∀ n place, place < sizes.length → digit sizes n place < 2 ^ 16
  stripped : ∀ n place, weight sizes place * digit sizes n place ≤ n
  moved : ∀ n place d, n < total sizes → place < sizes.length → d < sizes.getD place 1 →
    weight sizes place * d < 2 ^ 32 ∧ set sizes n place d < 2 ^ 32
  sums : ∀ ds, Within sizes ds → ∀ m ≤ sizes.length,
    ∑ i ∈ Finset.range m, weight sizes i * ds.getD i 0 < 2 ^ 32

theorem sum_take_le {sizes : List Nat} (few : sizes.length ≤ 16) (small : ∀ size ∈ sizes, size < 2 ^ 16)
    (n : Nat) : (sizes.take n).sum ≤ 16 * 2 ^ 16 := by
  have length : (sizes.take n).length ≤ 16 := Nat.le_trans (List.length_take_le' n sizes) few
  calc (sizes.take n).sum ≤ (sizes.take n).length * 2 ^ 16 :=
        List.sum_le_card_nsmul _ _ fun size member =>
          Nat.le_of_lt (small size (List.mem_of_mem_take member))
    _ ≤ 16 * 2 ^ 16 := Nat.mul_le_mul_right _ length

theorem inWords {sizes : List Nat} (few : sizes.length ≤ 16)
    (each : ∀ size ∈ sizes, 0 < size ∧ size < 2 ^ 16) (small : total sizes < 2 ^ 32) :
    InWords sizes where
  each := each
  products n := by
    have positive : ∀ size ∈ sizes, 0 < size := fun size member => (each size member).1
    refine ⟨total_pos fun size member => positive size (List.mem_of_mem_drop member), ?_⟩
    exact Nat.lt_of_le_of_lt (total_drop_le positive n) small
  bases n := by
    have bound := sum_take_le few (fun size member => (each size member).2) n
    omega
  moves := by
    have bound := sum_take_le few (fun size member => (each size member).2) sizes.length
    rw [List.take_length] at bound
    have product := Nat.mul_le_mul (Nat.le_of_lt small) bound
    omega
  digits n place inside := by
    have size := each _ (List.getElem_mem inside)
    rw [digit, List.getD_eq_getElem _ _ inside]
    exact Nat.lt_trans (Nat.mod_lt _ size.1) size.2
  stripped := weight_mul_digit_le sizes
  moved n place d below inside less := by
    have moved := Nat.lt_trans (set_lt below inside less) small
    refine ⟨Nat.lt_of_le_of_lt ?_ moved, moved⟩
    exact Nat.le_add_left _ _
  sums ds within m le := by
    have whole := number_lt within
    rw [number_eq_sum within.length_eq] at whole
    refine Nat.lt_of_le_of_lt ?_ (Nat.lt_trans whole small)
    exact Finset.sum_le_sum_of_subset (Finset.range_mono le)

end Radix

namespace Declaration

variable {σ : Type}

/-- A call fails to assign a number to a state, after the calls for the states before it. -/
def Interrupts (d : Declaration) (assign : Rule σ) (start : σ) (f : Failure) : Prop :=
  Fails (fun n => assign n (Radix.digits (d.properties.map Property.size) n)) start
    (Radix.total (d.properties.map Property.size)) f

/-- A kind holds the state space of a declaration, with what was assigned to the states in turn. -/
structure Spans (d : Declaration) (registry : RegistryId) (assign : Rule σ) (start : σ)
    (k : BlockKind) (last : σ) : Prop where
  registry : k.registry = registry
  name : k.name = d.name
  legacyId : k.legacyId = d.legacyId
  properties : k.properties = d.properties
  stateCount : k.stateCount = (d.properties.map Property.size).prod
  offsets : k.states.map BlockState.offset = List.range k.stateCount
  calls : ∃ answers, Calls (fun n => assign n (Radix.digits k.sizes n)) start answers last ∧
    k.states.map BlockState.entry = answers.map d.entry
  indices : Set.BijOn BlockState.indices {s | s ∈ k.states} {ds | Radix.Within k.sizes ds}
  order : ∀ s ∈ k.states, ∀ t ∈ k.states, s.indices < t.indices ↔ s.offset < t.offset
  offset : ∀ s ∈ k.states, s.offset =
    ∑ i ∈ Finset.range k.sizes.length, Radix.weight k.sizes i * s.indices.getD i 0
  chosen : ∀ n, d.default = some n → k.defaultState.offset = n
  defaults : d.default = none → List.Forall₂ (fun p i => p.valueAt? i = some p.defaultValue)
    k.properties k.defaultState.indices

theorem Valid.inWords {d : Declaration} (valid : d.Valid) :
    Radix.InWords (d.properties.map Property.size) := by
  have limit : maxStates = 2 ^ 32 - 1 := rfl
  have values : maxValues = 2 ^ 16 - 1 := rfl
  refine Radix.inWords ?_ (fun size member => ?_) ?_
  · rw [List.length_map]
    exact valid.sound.few
  · obtain ⟨p, inside, rfl⟩ := List.mem_map.mp member
    have size := valid.sound.sizes p inside
    omega
  · have few := valid.few
    omega

end Declaration

namespace BlockKind

/-- The states of a kind have all the combinations of values, each once. -/
theorem bijOn_indices (k : BlockKind) :
    Set.BijOn BlockState.indices {s | s ∈ k.states} {ds | Radix.Within k.sizes ds} := by
  refine ⟨fun s member => ?_, fun s left t right same => ?_, fun ds within => ?_⟩
  · obtain rfl := mem_states.mp member
    exact Radix.digits_within s.sizes_pos s.offset
  · exact BlockState.eq_of_indices ((mem_states.mp left).trans (mem_states.mp right).symm) same
  · have below : Radix.number k.sizes ds < k.entries.size := by
      rw [k.size_entries]
      exact Radix.number_lt within
    exact ⟨⟨k, _, below⟩, mem_states.mpr rfl, Radix.digits_number within⟩

theorem map_offset_states (k : BlockKind) :
    k.states.map BlockState.offset = List.range k.stateCount := by
  apply List.ext_getElem
  · rw [List.length_map, k.length_states, List.length_range]
  · intro i _ _
    simp [states]

theorem map_entry_states (k : BlockKind) : k.states.map BlockState.entry = k.entries.toList := by
  apply List.ext_getElem
  · rw [List.length_map, k.length_states, Array.length_toList, stateCount]
  · intro i _ _
    simp [states, BlockState.entry]

end BlockKind

namespace BlockState

theorem indices_lt_iff {s t : BlockState} (same : s.kind = t.kind) :
    s.indices < t.indices ↔ s.offset < t.offset := by
  have left := s.offset_lt
  have right := t.offset_lt
  rw [s.kind.size_entries] at left
  rw [← same, s.kind.size_entries] at right
  rw [indices, indices, ← same]
  exact Radix.digits_lt_iff left right

end BlockState

namespace Declaration

variable {σ : Type}

theorem Enumerated.spans {d : Declaration} {registry : RegistryId} {assign : Rule σ} {start last : σ}
    {answers : List (StateId × Option UInt8)} {k : BlockKind}
    (enumerated : d.Enumerated registry answers k)
    (calls : Calls (fun n => assign n (Radix.digits (d.properties.map Property.size) n)) start answers
      last) : d.Spans registry assign start k last := by
  have sizes : k.sizes = d.properties.map Property.size := by
    rw [BlockKind.sizes, enumerated.properties]
  refine ⟨enumerated.registry, enumerated.name, enumerated.legacyId, enumerated.properties, ?_,
    k.map_offset_states, ⟨answers, ?_, ?_⟩, k.bijOn_indices, ?_, ?_, ?_, ?_⟩
  · rw [BlockKind.stateCount, k.size_entries, enumerated.properties, Radix.total_eq_prod]
  · rw [sizes]
    exact calls
  · rw [k.map_entry_states, enumerated.entries]
  · intro s left t right
    exact BlockState.indices_lt_iff
      ((BlockKind.mem_states.mp left).trans (BlockKind.mem_states.mp right).symm)
  · intro s member
    obtain rfl := BlockKind.mem_states.mp member
    exact s.offset_eq.trans (Radix.number_eq_sum (Radix.length_digits _ _))
  · intro n chosen
    show k.default = n
    rw [enumerated.default, chosen, Option.getD_some]
  · intro none
    have indices : k.defaultState.indices = k.properties.map Property.defaultIndex := by
      show Radix.digits k.sizes k.default = _
      rw [enumerated.default, none, Option.getD_none]
      exact Radix.digits_number (within_defaults k.properties)
    rw [indices, List.forall₂_map_right_iff, List.forall₂_same]
    exact fun p _ => p.valueAt?_defaultIndex

/-- A declaration is enumerated into its whole state space, unless it is refused or a call fails. The
numbers on the way fit their words. -/
theorem enumerate_spans (d : Declaration) (registry : RegistryId) (assign : Rule σ) (start : σ) :
    ((∃ f, d.enumerate registry assign start = .error f) ↔
      (∃ e, d.Refusal e) ∨ ∃ f, d.Interrupts assign start f) ∧
    (∀ f, d.enumerate registry assign start = .error f →
      (∃ e, d.Refusal e ∧ f = .error e) ∨ d.Interrupts assign start f) ∧
    ((¬ ∃ e, d.Refusal e) → Radix.InWords (d.properties.map Property.size)) ∧
    ∀ k last, d.enumerate registry assign start = .ok (k, last) →
      d.Spans registry assign start k last := by
  have words : (¬ ∃ e, d.Refusal e) → Radix.InWords (d.properties.map Property.size) := fun sound =>
    (valid_of_not_refusal sound).inWords
  obtain ⟨e, refusal, refused⟩ | ⟨f, interrupts, stopped⟩ | ⟨valid, answers, k, last, made, calls,
    enumerated⟩ := d.enumerate_cases registry assign start
  · refine ⟨iff_of_true ⟨_, refused⟩ (Or.inl ⟨e, refusal⟩), fun f failed => ?_, words,
      fun k last made => ?_⟩
    · exact Or.inl ⟨e, refusal, Except.error.inj (failed.symm.trans refused)⟩
    · cases made.symm.trans refused
  · refine ⟨iff_of_true ⟨f, stopped⟩ (Or.inr ⟨f, interrupts⟩), fun g failed => ?_, words,
      fun k last made => ?_⟩
    · obtain rfl := Except.error.inj (failed.symm.trans stopped)
      exact Or.inr interrupts
    · cases made.symm.trans stopped
  · refine ⟨iff_of_false ?_ ?_, fun f failed => ?_, words, fun l final same => ?_⟩
    · rintro ⟨f, failed⟩
      cases failed.symm.trans made
    · rintro (⟨e, refusal⟩ | ⟨f, interrupts⟩)
      · exact refusal.not_valid valid
      · have count : answers.length = Radix.total (d.properties.map Property.size) := by
          rw [← List.length_map (f := d.entry), ← enumerated.entries, Array.length_toList,
            k.size_entries, enumerated.properties]
        rw [Interrupts, ← count] at interrupts
        exact calls.not_fails interrupts
    · cases failed.symm.trans made
    · cases same.symm.trans made
      exact enumerated.spans calls

end Declaration
end Voxel
