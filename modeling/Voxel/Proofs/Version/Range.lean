import Mathlib.Data.List.Nodup
import Mathlib.Data.List.Range
import Voxel.Proofs.Property
import Voxel.Version.Kinds

/-!
# Numerals of a range

Texts are taken for a range exactly if they are the numerals from one number to a greater one, each
once and in any order (`rangeOf?_eq_some_iff`).
-/

namespace Voxel.Version

theorem int32_injective {i j : Int32} (same : Text.int32 i = Text.int32 j) : i = j :=
  Int32.toInt_inj.mp (Int.repr_injective same)

theorem mapM_readInt32?_eq_some_iff {values : List String} {numbers : List Int32} :
    values.mapM Text.readInt32? = some numbers ↔ values = numbers.map Text.int32 := by
  induction values generalizing numbers with
  | nil =>
    rw [List.mapM_nil, eq_comm (a := []), List.map_eq_nil_iff, eq_comm (a := numbers)]
    exact Option.some_inj
  | cons v rest ih =>
    rw [List.mapM_cons]
    constructor
    · intro h
      obtain ⟨i, read, h⟩ := Option.bind_eq_some_iff.mp h
      obtain ⟨others, later, h⟩ := Option.bind_eq_some_iff.mp h
      obtain rfl := Option.some.inj h
      rw [List.map_cons, ← ih.mp later, ← Text.readInt32?_eq_some_iff.mp read]
    · intro h
      cases numbers with
      | nil => cases h
      | cons i others =>
        rw [List.map_cons, List.cons.injEq] at h
        rw [Text.readInt32?_eq_some_iff.mpr h.1, ih.mpr h.2]
        rfl

def between (low high : Int32) : List Int32 :=
  (List.range (high.toInt - low.toInt + 1).toNat).map fun k : Nat => Int32.ofInt (low.toInt + k)

/-- Texts are the numerals from one number to a greater one, each once and in any order. -/
def Spans (values : List String) (low high : Int32) : Prop :=
  low < high ∧ values.Perm ((between low high).map Text.int32)

theorem length_between (low high : Int32) :
    (between low high).length = (high.toInt - low.toInt + 1).toNat := by
  rw [between, List.length_map, List.length_range]

theorem toInt_ofInt_between {low high : Int32} {k : Nat}
    (inside : k < (high.toInt - low.toInt + 1).toNat) :
    (Int32.ofInt (low.toInt + k)).toInt = low.toInt + k := by
  have start := low.le_toInt
  have finish := high.toInt_lt
  exact Int32.toInt_ofInt_of_le (by omega) (by omega)

theorem mem_between {low high i : Int32} : i ∈ between low high ↔ low ≤ i ∧ i ≤ high := by
  rw [between, List.mem_map, Int32.le_iff_toInt_le, Int32.le_iff_toInt_le]
  simp only [List.mem_range]
  constructor
  · rintro ⟨k, inside, rfl⟩
    rw [toInt_ofInt_between inside]
    omega
  · intro within
    refine ⟨(i.toInt - low.toInt).toNat, by omega, ?_⟩
    rw [show low.toInt + ((i.toInt - low.toInt).toNat : Int) = i.toInt by omega, Int32.ofInt_toInt]

theorem between_rising (low high : Int32) : (between low high).Pairwise (· < ·) := by
  rw [between, List.pairwise_map]
  refine List.pairwise_lt_range.imp_of_mem fun {a b} left right less => ?_
  rw [List.mem_range] at left right
  rw [Int32.lt_iff_toInt_lt, toInt_ofInt_between left, toInt_ofInt_between right]
  omega

theorem nodup_between (low high : Int32) : (between low high).Nodup :=
  (between_rising low high).imp Int32.ne_of_lt

theorem contiguous_iff_isChain {numbers : List Int32} :
    contiguous numbers = true ↔ numbers.IsChain fun a b => a.toInt + 1 = b.toInt := by
  induction numbers with
  | nil => exact iff_of_true rfl .nil
  | cons a rest ih =>
    cases rest with
    | nil => exact iff_of_true rfl (.singleton a)
    | cons b others =>
      rw [contiguous, Bool.and_eq_true, decide_eq_true_eq, ih, List.isChain_cons_cons]

theorem contiguous_between (low high : Int32) : contiguous (between low high) = true := by
  rw [contiguous_iff_isChain, between, List.isChain_map, List.isChain_range]
  intro k inside
  have here := @toInt_ofInt_between low high k (by omega)
  have next := @toInt_ofInt_between low high (k + 1) (by omega)
  rw [here, Nat.succ_eq_add_one, next]
  omega

theorem toInt_of_contiguous {first : Int32} {rest : List Int32}
    (h : contiguous (first :: rest) = true) :
    (first :: rest).map Int32.toInt =
      (List.range (rest.length + 1)).map fun i : Nat => first.toInt + (i : Int) := by
  induction rest generalizing first with
  | nil => simp
  | cons second others ih =>
    rw [contiguous, Bool.and_eq_true, decide_eq_true_eq] at h
    rw [List.map_cons, ih h.2, List.length_cons, List.range_succ_eq_map (n := others.length + 1),
      List.map_cons, List.map_map, ← h.1]
    simp only [Nat.cast_zero, Int.add_zero, List.cons.injEq, true_and]
    refine List.map_congr_left fun i _ => ?_
    simp only [Function.comp, Nat.cast_succ]
    omega

theorem head?_between {low high : Int32} (less : low < high) :
    (between low high).head? = some low := by
  rw [Int32.lt_iff_toInt_lt] at less
  obtain ⟨n, count⟩ : ∃ n, (high.toInt - low.toInt + 1).toNat = n + 1 :=
    ⟨(high.toInt - low.toInt).toNat, by omega⟩
  rw [between, count, List.range_succ_eq_map, List.map_cons, List.head?_cons]
  simp

theorem getLast?_between {low high : Int32} (less : low < high) :
    (between low high).getLast? = some high := by
  rw [Int32.lt_iff_toInt_lt] at less
  rw [between, show (high.toInt - low.toInt + 1).toNat = (high.toInt - low.toInt).toNat + 1 by omega,
    List.range_succ, List.map_append, List.map_singleton, List.getLast?_concat,
    show low.toInt + ((high.toInt - low.toInt).toNat : Int) = high.toInt by omega,
    Int32.ofInt_toInt]

theorem eq_between {numbers : List Int32} {low high : Int32} (steps : contiguous numbers = true)
    (head : numbers.head? = some low) (last : numbers.getLast? = some high) :
    numbers = between low high := by
  cases numbers with
  | nil => cases head
  | cons first rest =>
    obtain rfl : first = low := Option.some.inj head
    have values := toInt_of_contiguous steps
    have final : high.toInt = first.toInt + rest.length := by
      have same := congrArg List.getLast? values
      rw [List.getLast?_map, last, List.getLast?_map, List.getLast?_range] at same
      simpa using same
    refine (List.map_injective_iff.mpr fun i j => Int32.toInt_inj.mp) ?_
    rw [values, between, List.map_map,
      show (high.toInt - first.toInt + 1).toNat = rest.length + 1 by omega]
    refine List.map_congr_left fun k inside => (@toInt_ofInt_between first high k ?_).symm
    rw [List.mem_range] at inside
    omega

theorem mergeSort_between {numbers : List Int32} {low high : Int32}
    (perm : numbers.Perm (between low high)) : numbers.mergeSort = between low high := by
  have sorted : numbers.mergeSort.Pairwise (· ≤ ·) := by
    have ordered : numbers.mergeSort.Pairwise fun a b => decide (a ≤ b) = true :=
      List.pairwise_mergeSort (fun a b c => by simpa using Int32.le_trans)
        (fun a b => by simpa using Int32.le_total a b) numbers
    exact ordered.imp of_decide_eq_true
  exact List.Perm.eq_of_pairwise (fun _ _ _ _ => Int32.le_antisymm) sorted
    ((between_rising low high).imp Int32.le_of_lt) ((List.mergeSort_perm _ _).trans perm)

theorem exists_numbers {values : List String} {numbers : List Int32}
    (perm : values.Perm (numbers.map Text.int32)) :
    ∃ others : List Int32, values = others.map Text.int32 ∧ others.Perm numbers := by
  have read : ∀ i, Text.readInt32? (Text.int32 i) = some i :=
    fun i => Text.readInt32?_eq_some_iff.mpr rfl
  refine ⟨values.filterMap Text.readInt32?, ?_, ?_⟩
  · rw [List.map_filterMap]
    conv => lhs; rw [← List.filterMap_some (l := values)]
    refine List.filterMap_congr fun v member => ?_
    obtain ⟨i, -, rfl⟩ := List.mem_map.mp (perm.mem_iff.mp member)
    rw [read, Option.map_some]
  · have same := perm.filterMap Text.readInt32?
    rw [List.filterMap_map, show Text.readInt32? ∘ Text.int32 = some from funext read,
      List.filterMap_some] at same
    exact same

/-- A range is found exactly for the numerals of one. -/
theorem rangeOf?_eq_some_iff {values : List String} {low high : Int32} :
    rangeOf? values = some (low, high) ↔ Spans values low high := by
  constructor
  · intro found
    obtain ⟨numbers, read, found⟩ := Option.bind_eq_some_iff.mp found
    have perm := List.mergeSort_perm numbers (fun a b => decide (a ≤ b))
    dsimp only at found
    generalize numbers.mergeSort (fun a b => decide (a ≤ b)) = sorted at found perm
    split at found
    · rename_i range
      rw [Bool.and_eq_true, decide_eq_true_eq] at range
      obtain ⟨long, steps⟩ := range
      obtain ⟨first, head, found⟩ := Option.bind_eq_some_iff.mp found
      obtain ⟨last, final, found⟩ := Option.bind_eq_some_iff.mp found
      cases found
      obtain rfl := eq_between steps head final
      rw [length_between] at long
      refine ⟨Int32.lt_iff_toInt_lt.mpr (by omega), ?_⟩
      rw [mapM_readInt32?_eq_some_iff.mp read]
      exact perm.symm.map _
    · cases found
  · rintro ⟨less, perm⟩
    obtain ⟨numbers, same, perm⟩ := exists_numbers perm
    have long : (between low high).length > 1 := by
      rw [Int32.lt_iff_toInt_lt] at less
      rw [length_between]
      omega
    rw [rangeOf?, mapM_readInt32?_eq_some_iff.mpr same]
    simp only [Option.bind_eq_bind, Option.bind_some, mergeSort_between perm, contiguous_between,
      decide_eq_true long, Bool.and_self, if_true, head?_between less, getLast?_between less]
    rfl

end Voxel.Version
