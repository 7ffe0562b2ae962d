import Mathlib.Data.Nat.Bitwise
import Mathlib.Data.Nat.Log
import Mathlib.Order.Bounds.Basic
import Voxel.Bits

/-!
# Logarithms of machine words

`floorLog2_eq` and `ceilLog2_eq` show that the table computes the logarithms (`logarithms`). A count up
to `2 ^ 63` gets the least width whose capacity holds it, and no other count does
(`forCount_isLeast`).
-/

namespace Voxel.Bits

/-- The bits of `m` are those of `n` joined over a window of `width` places. -/
def Joins (m n width : Nat) : Prop := ∀ i, m.testBit i = true ↔ ∃ j < width, n.testBit (i + j) = true

theorem joins_refl (n : Nat) : Joins n n 1 := by
  intro i
  simp

theorem joins_double {m n width : Nat} (joins : Joins m n width) :
    Joins (m ||| m >>> width) n (2 * width) := by
  intro i
  simp only [Nat.testBit_or, Nat.testBit_shiftRight, Bool.or_eq_true, joins i, joins (width + i)]
  constructor
  · rintro (⟨j, small, set⟩ | ⟨j, small, set⟩)
    · exact ⟨j, by omega, set⟩
    · exact ⟨width + j, by omega, by rwa [show i + (width + j) = width + i + j by omega]⟩
  · rintro ⟨j, small, set⟩
    by_cases low : j < width
    · exact Or.inl ⟨j, low, set⟩
    · exact Or.inr ⟨j - width, by omega, by rwa [show width + i + (j - width) = i + j by omega]⟩

theorem joins_smear (v : UInt64) : Joins (smear v).toNat v.toNat 64 := by
  have h₀ := joins_refl v.toNat
  have h₁ := joins_double h₀
  have h₂ := joins_double h₁
  have h₃ := joins_double h₂
  have h₄ := joins_double h₃
  have h₅ := joins_double h₄
  have h₆ := joins_double h₅
  simpa [smear] using h₆

theorem toNat_ne_zero {v : UInt64} (nonzero : v ≠ 0) : v.toNat ≠ 0 :=
  fun zero => nonzero (UInt64.toNat_inj.mp zero)

theorem log2_lt_word {v : UInt64} (nonzero : v ≠ 0) : v.toNat.log2 < 64 :=
  (Nat.log2_lt (toNat_ne_zero nonzero)).mpr v.toNat_lt

theorem toNat_smear {v : UInt64} (nonzero : v ≠ 0) :
    (smear v).toNat = 2 ^ (v.toNat.log2 + 1) - 1 := by
  have positive := toNat_ne_zero nonzero
  apply Nat.eq_of_testBit_eq
  intro i
  rw [Nat.testBit_two_pow_sub_one, Bool.eq_iff_iff, joins_smear v i, decide_eq_true_eq]
  constructor
  · rintro ⟨j, _, set⟩
    have bound := (Nat.le_log2 positive).mpr (Nat.ge_two_pow_of_testBit set)
    omega
  · intro below
    have small := log2_lt_word nonzero
    refine ⟨v.toNat.log2 - i, by omega, ?_⟩
    rw [show i + (v.toNat.log2 - i) = v.toNat.log2 by omega]
    exact Nat.testBit_log2 positive

theorem toNat_highest {v : UInt64} (nonzero : v ≠ 0) : (highest v).toNat = 2 ^ v.toNat.log2 := by
  have filled := toNat_smear nonzero
  have half : (smear v >>> 1).toNat = 2 ^ v.toNat.log2 - 1 := by
    rw [UInt64.toNat_shiftRight, show (1 : UInt64).toNat % 64 = 1 from rfl,
      Nat.shiftRight_eq_div_pow, filled, Nat.pow_succ]
    omega
  have power : 0 < 2 ^ v.toNat.log2 := Nat.two_pow_pos _
  have below : smear v >>> 1 ≤ smear v := by
    rw [UInt64.le_iff_toNat_le, half, filled, Nat.pow_succ]
    omega
  rw [highest, UInt64.toNat_sub_of_le _ _ below, half, filled, Nat.pow_succ]
  omega

/-- The multiplication sends the powers of two to the slots that hold their exponents. -/
theorem exponents_slot (k : Fin 64) :
    (exponents.get ⟨(slot (UInt64.ofNat (2 ^ k.val))).toNat, slot_lt _⟩).toNat = k.val := by
  revert k
  decide +kernel

theorem floorLog2_eq {v : UInt64} (nonzero : v ≠ 0) : floorLog2 v = v.toNat.log2 := by
  have power : highest v = UInt64.ofNat (2 ^ v.toNat.log2) := by
    rw [← toNat_highest nonzero, UInt64.ofNat_toNat]
  unfold floorLog2
  simp only [power]
  exact exponents_slot ⟨v.toNat.log2, log2_lt_word nonzero⟩

theorem log2_eq_clog {n : Nat} (positive : 0 < n) : (2 * n - 1).log2 = Nat.clog 2 n := by
  have nonzero : 2 * n - 1 ≠ 0 := by omega
  apply Nat.le_antisymm
  · have fits := Nat.le_pow_clog Nat.one_lt_two n
    rw [← Nat.lt_succ_iff, Nat.succ_eq_add_one, Nat.log2_lt nonzero, Nat.pow_succ]
    omega
  · rw [Nat.clog_le_iff_le_pow Nat.one_lt_two]
    have above := Nat.lt_log2_self (n := 2 * n - 1)
    rw [Nat.pow_succ] at above
    omega

theorem ceilLog2_eq_clog {v : UInt64} (positive : 0 < v.toNat) :
    ceilLog2 v = Nat.clog 2 ((v.toNat - 1) % 2 ^ 63 + 1) := by
  -- the shift drops the top bit, and zero below it stands for all of `2 ^ 64`
  have value : (v <<< 1 - 1).toNat = 2 * ((v.toNat - 1) % 2 ^ 63 + 1) - 1 := by
    rw [UInt64.toNat_sub, UInt64.toNat_shiftLeft, show (1 : UInt64).toNat % 64 = 1 from rfl,
      Nat.shiftLeft_eq, UInt64.toNat_one]
    have small := v.toNat_lt
    omega
  have nonzero : v <<< 1 - 1 ≠ 0 := by
    intro zero
    rw [zero, UInt64.toNat_zero] at value
    omega
  rw [ceilLog2, floorLog2_eq nonzero, value, log2_eq_clog (Nat.succ_pos _)]

theorem ceilLog2_eq {v : UInt64} (positive : 0 < v.toNat) (le : v.toNat ≤ 2 ^ 63) :
    ceilLog2 v = Nat.clog 2 v.toNat := by
  rw [ceilLog2_eq_clog positive, Nat.mod_eq_of_lt (by omega), Nat.sub_add_cancel positive]

theorem forCount_eq_clog (count : UInt64) :
    forCount count = Nat.clog 2 ((count.toNat - 1) % 2 ^ 63 + 1) := by
  unfold forCount
  split
  · rename_i small
    rw [UInt64.le_iff_toNat_le, UInt64.toNat_one] at small
    exact (Nat.clog_of_right_le_one (by omega) 2).symm
  · rename_i large
    rw [UInt64.le_iff_toNat_le, UInt64.toNat_one] at large
    exact ceilLog2_eq_clog (by omega)

theorem forCount_eq {count : UInt64} (le : count.toNat ≤ 2 ^ 63) :
    forCount count = Nat.clog 2 count.toNat := by
  rw [forCount_eq_clog, Nat.mod_eq_of_lt (by omega)]
  rcases Nat.eq_zero_or_pos count.toNat with zero | positive
  · rw [zero]
    rfl
  · rw [Nat.sub_add_cancel positive]

/-! ### Least widths -/

theorem isLeast_clog (n : Nat) : IsLeast {b | n ≤ capacity b} (Nat.clog 2 n) :=
  ⟨Nat.le_pow_clog Nat.one_lt_two n, fun _ holds => Nat.clog_le_of_le_pow holds⟩

theorem forCount_lt (count : UInt64) : forCount count < 64 := by
  rw [forCount_eq_clog, Nat.lt_succ_iff, Nat.clog_le_iff_le_pow Nat.one_lt_two]
  omega

/-- A count gets the least width that holds its last index without the top bit, which is the least
width for the count itself as long as the top bit is not set. -/
theorem forCount_isLeast (count : UInt64) :
    IsLeast {b | (count.toNat - 1) % 2 ^ 63 < capacity b} (forCount count) ∧
      (IsLeast {b | count.toNat ≤ capacity b} (forCount count) ↔ count.toNat ≤ 2 ^ 63) := by
  refine ⟨?_, fun least => ?_, fun le => ?_⟩
  · rw [forCount_eq_clog]
    exact isLeast_clog _
  · -- no width that is given has room for more
    have bound : capacity (forCount count) ≤ capacity 63 :=
      Nat.pow_le_pow_right Nat.two_pos (Nat.lt_succ_iff.mp (forCount_lt count))
    exact le_trans least.1 bound
  · rw [forCount_eq le]
    exact isLeast_clog _

/-- A count past the middle of the range is taken for a small one. -/
theorem forCount_not_isLeast :
    ¬ ∀ count : UInt64, IsLeast {b | count.toNat ≤ capacity b} (forCount count) := by
  intro all
  have holds : 2 ^ 63 + 1 ≤ capacity (forCount 0x8000000000000001) := (all 0x8000000000000001).1
  rw [show forCount 0x8000000000000001 = 0 by decide] at holds
  exact absurd holds (by decide)

theorem half_le (v : UInt64) : v >>> 1 ≤ v := by
  rw [UInt64.le_iff_toNat_le, UInt64.toNat_shiftRight, Nat.shiftRight_eq_div_pow]
  exact Nat.div_le_self _ _

/-- The floor logarithm is found in the table without leaving it and without a borrow, and the
ceiling logarithm comes from it for every word whose double has room. -/
theorem logarithms (v : UInt64) :
    (v ≠ 0 → 2 ^ floorLog2 v ≤ v.toNat ∧ v.toNat < 2 ^ (floorLog2 v + 1)) ∧
    (slot (highest v)).toNat < exponents.size ∧ smear v >>> 1 ≤ smear v ∧
    (1 ≤ v.toNat → v.toNat ≤ 2 ^ 63 → IsLeast {r | v.toNat ≤ 2 ^ r} (ceilLog2 v)) := by
  refine ⟨fun nonzero => ?_, slot_lt _, half_le _, fun positive le => ?_⟩
  · rw [floorLog2_eq nonzero]
    exact ⟨Nat.log2_self_le (toNat_ne_zero nonzero), Nat.lt_log2_self⟩
  · rw [ceilLog2_eq positive le]
    exact isLeast_clog _

theorem logarithms_top : (0x8000000000000000 : UInt64) ≠ 0 ∧
    (2 ^ 63 ≤ (0x8000000000000000 : UInt64).toNat ∧ (0x8000000000000000 : UInt64).toNat < 2 ^ 64) ∧
    IsLeast {r | (0x8000000000000000 : UInt64).toNat ≤ 2 ^ r} 63 := by
  have nonzero : (0x8000000000000000 : UInt64) ≠ 0 := by decide
  obtain ⟨floor, _, _, ceiling⟩ := logarithms 0x8000000000000000
  exact ⟨nonzero, floor nonzero, ceiling (by decide) (by decide)⟩

end Voxel.Bits
