import Mathlib.Algebra.BigOperators.Group.Finset.Basic
import Mathlib.Algebra.BigOperators.Intervals
import Mathlib.Data.List.Basic
import Mathlib.Tactic.Ring
import Voxel.Radix

/-!
# Mixed radix

Numbers below the product of the sizes and lists of digits below the sizes are two forms of one
thing: `number_digits` and `digits_number` lead from each to the other and back. `digits_set` shows
that setting a digit sets it in the list, and `number_set` what a digit in the place of a zero adds.
Numbers are in the order of their digits (`digits_lt_iff`), and the sum of what the digits are worth
(`number_eq_sum`).
-/

namespace Voxel.Radix

def Within (sizes ds : List Nat) : Prop := List.Forall₂ (fun d size => d < size) ds sizes

theorem total_eq_prod (sizes : List Nat) : total sizes = sizes.prod := by
  induction sizes with
  | nil => rfl
  | cons size rest ih => rw [total, List.prod_cons, ih]

theorem length_digits (sizes : List Nat) (n : Nat) : (digits sizes n).length = sizes.length := by
  induction sizes with
  | nil => rfl
  | cons size rest ih => rw [digits, List.length_cons, List.length_cons, ih]

theorem number_digits_mod (sizes : List Nat) (n : Nat) :
    number sizes (digits sizes n) = n % total sizes := by
  induction sizes with
  | nil => exact (Nat.mod_one n).symm
  | cons size rest ih =>
    rw [digits, number, total, ih, Nat.mul_comm size, Nat.mod_mul, Nat.mul_comm]
    omega

theorem number_digits {sizes : List Nat} {n : Nat} (h : n < total sizes) :
    number sizes (digits sizes n) = n := by
  rw [number_digits_mod, Nat.mod_eq_of_lt h]

theorem number_lt {sizes ds : List Nat} (within : Within sizes ds) :
    number sizes ds < total sizes := by
  induction within with
  | nil => exact Nat.one_pos
  | @cons d size ds rest less _ ih =>
    have bound := Nat.mul_le_mul_right (total rest) (Nat.succ_le_of_lt less)
    rw [Nat.succ_mul] at bound
    rw [number, total]
    omega

theorem digits_add_mul (sizes : List Nat) (n high : Nat) :
    digits sizes (high * total sizes + n) = digits sizes n := by
  induction sizes generalizing high with
  | nil => rfl
  | cons size rest ih =>
    have shifted : high * (size * total rest) + n = high * size * total rest + n := by
      rw [Nat.mul_assoc]
    rw [digits, digits, total, shifted, ih]
    rcases Nat.eq_zero_or_pos (total rest) with zero | positive
    · rw [zero, Nat.mul_zero, Nat.zero_add]
    · rw [Nat.mul_comm (high * size), Nat.mul_add_div positive, Nat.mul_comm high,
        Nat.mul_add_mod]

theorem digits_number {sizes ds : List Nat} (within : Within sizes ds) :
    digits sizes (number sizes ds) = ds := by
  induction within with
  | nil => rfl
  | @cons d size ds rest less tail ih =>
    have bound := number_lt tail
    have positive : 0 < total rest := Nat.zero_lt_of_lt bound
    rw [number, digits, digits_add_mul, ih, Nat.mul_comm, Nat.mul_add_div positive,
      Nat.div_eq_of_lt bound, Nat.add_zero, Nat.mod_eq_of_lt less]

theorem digits_within {sizes : List Nat} (positive : ∀ size ∈ sizes, 0 < size) (n : Nat) :
    Within sizes (digits sizes n) := by
  induction sizes with
  | nil => exact List.Forall₂.nil
  | cons size rest ih =>
    refine List.Forall₂.cons (Nat.mod_lt _ (positive size List.mem_cons_self)) ?_
    exact ih fun s member => positive s (List.mem_cons_of_mem _ member)

theorem getElem?_digits {sizes : List Nat} {n place : Nat} (h : place < sizes.length) :
    (digits sizes n)[place]? = some (digit sizes n place) := by
  induction sizes generalizing place with
  | nil => cases h
  | cons size rest ih =>
    cases place with
    | zero => rfl
    | succ place =>
      rw [digits, List.getElem?_cons_succ, ih (Nat.lt_of_succ_lt_succ h)]
      rfl

theorem weight_mul_digit_le (sizes : List Nat) (n place : Nat) :
    weight sizes place * digit sizes n place ≤ n := by
  calc weight sizes place * digit sizes n place
      ≤ weight sizes place * (n / weight sizes place) := Nat.mul_le_mul_left _ (Nat.mod_le _ _)
    _ ≤ n := Nat.mul_div_le n _

theorem cast_set (sizes : List Nat) (n place d : Nat) : (set sizes n place d : Int) =
    n + weight sizes place * ((d : Int) - digit sizes n place) := by
  have below := weight_mul_digit_le sizes n place
  rw [set]
  push_cast [below]
  ring

theorem set_eq_add (sizes : List Nat) (n d : Nat) {place : Nat} (h : place < sizes.length) :
    set sizes n place d =
      n / total sizes * total sizes + number sizes ((digits sizes n).set place d) := by
  induction sizes generalizing place with
  | nil => cases h
  | cons size rest ih =>
    have high : n / total rest * total rest =
        n / (size * total rest) * (size * total rest) + n / total rest % size * total rest := by
      have split := Nat.div_add_mod (n / total rest) size
      calc n / total rest * total rest
          = (size * (n / total rest / size) + n / total rest % size) * total rest := by rw [split]
        _ = n / total rest / size * (size * total rest) + n / total rest % size * total rest := by
          ring
        _ = _ := by rw [Nat.div_div_eq_div_mul, Nat.mul_comm (total rest)]
    cases place with
    | zero =>
      have split := Nat.div_add_mod n (total rest)
      rw [Nat.mul_comm, high] at split
      rw [digits, List.set_cons_zero, number, number_digits_mod, total, set, digit, weight]
      simp only [List.getD_cons_zero, Nat.zero_add, List.drop_succ_cons, List.drop_zero]
      rw [Nat.mul_comm (total rest), Nat.mul_comm (total rest)]
      omega
    | succ place =>
      have tail := ih (Nat.lt_of_succ_lt_succ h)
      rw [digits, List.set_cons_succ, number, total]
      have same : set (size :: rest) n (place + 1) d = set rest n place d := rfl
      rw [same, tail, high, Nat.add_assoc]

/-- Setting a digit sets it in the list of digits. -/
theorem set_eq_number {sizes : List Nat} {n place : Nat} (hn : n < total sizes)
    (h : place < sizes.length) (d : Nat) :
    set sizes n place d = number sizes ((digits sizes n).set place d) := by
  rw [set_eq_add sizes n d h, Nat.div_eq_of_lt hn, Nat.zero_mul, Nat.zero_add]

theorem within_set {sizes ds : List Nat} (within : Within sizes ds) {place d : Nat}
    (less : d < sizes.getD place 1) : Within sizes (ds.set place d) := by
  induction within generalizing place with
  | nil => exact List.Forall₂.nil
  | cons head tail ih =>
    cases place with
    | zero => exact List.Forall₂.cons less tail
    | succ place => exact List.Forall₂.cons head (ih less)

theorem digits_set {sizes : List Nat} {n place d : Nat} (positive : ∀ size ∈ sizes, 0 < size)
    (hn : n < total sizes) (h : place < sizes.length) (less : d < sizes.getD place 1) :
    digits sizes (set sizes n place d) = (digits sizes n).set place d := by
  rw [set_eq_number hn h, digits_number (within_set (digits_within positive n) less)]

theorem number_set {sizes ds : List Nat} (length : ds.length = sizes.length) {place : Nat} (d : Nat)
    (zero : ds[place]? = some 0) :
    number sizes (ds.set place d) = number sizes ds + weight sizes place * d := by
  induction sizes generalizing ds place with
  | nil =>
    rw [List.length_eq_zero_iff.mp length] at zero
    cases zero
  | cons size rest ih =>
    cases ds with
    | nil => cases length
    | cons head ds =>
      cases place with
      | zero =>
        obtain rfl : head = 0 := Option.some.inj zero
        rw [List.set_cons_zero, number, number, Nat.zero_mul, Nat.zero_add, Nat.add_comm, Nat.mul_comm]
        rfl
      | succ place =>
        rw [List.set_cons_succ, number, number, ih (Nat.succ.inj length) zero, Nat.add_assoc]
        rfl

theorem number_replicate_zero (sizes : List Nat) :
    number sizes (List.replicate sizes.length 0) = 0 := by
  induction sizes with
  | nil => rfl
  | cons size rest ih =>
    rw [List.length_cons, List.replicate_succ, number, ih, Nat.zero_mul]

/-! ### Orders and sums -/

theorem digits_lt_iff {sizes : List Nat} {m n : Nat} (left : m < total sizes) (right : n < total sizes) :
    digits sizes m < digits sizes n ↔ m < n := by
  induction sizes generalizing m n with
  | nil =>
    rw [total] at left right
    exact iff_of_false (List.lt_irrefl _) (by omega)
  | cons size rest ih =>
    rw [total] at left right
    have positive : 0 < total rest := Nat.pos_of_mul_pos_left (Nat.zero_lt_of_lt left)
    have low : ∀ k, digits rest k = digits rest (k % total rest) := by
      intro k
      conv_lhs => rw [← Nat.div_add_mod' k (total rest)]
      exact digits_add_mul rest _ _
    have high : ∀ k, k < size * total rest → k / total rest % size = k / total rest := fun k less =>
      Nat.mod_eq_of_lt ((Nat.div_lt_iff_lt_mul positive).mpr less)
    rw [digits, digits, List.cons_lt_cons_iff, high m left, high n right, low m, low n,
      ih (Nat.mod_lt m positive) (Nat.mod_lt n positive)]
    have splitM := Nat.div_add_mod m (total rest)
    have splitN := Nat.div_add_mod n (total rest)
    have lowM := Nat.mod_lt m positive
    have lowN := Nat.mod_lt n positive
    constructor
    · rintro (less | ⟨same, less⟩)
      · have step := Nat.mul_le_mul_left (total rest) (Nat.succ_le_of_lt less)
        rw [Nat.mul_succ] at step
        omega
      · rw [same] at splitM
        omega
    · intro less
      obtain below | same := Nat.lt_or_eq_of_le (Nat.div_le_div_right (c := total rest) (Nat.le_of_lt less))
      · exact Or.inl below
      · rw [same] at splitM
        exact Or.inr ⟨same, by omega⟩

theorem number_eq_sum {sizes ds : List Nat} (length : ds.length = sizes.length) :
    number sizes ds = ∑ i ∈ Finset.range sizes.length, weight sizes i * ds.getD i 0 := by
  induction sizes generalizing ds with
  | nil => cases ds <;> rfl
  | cons size rest ih =>
    cases ds with
    | nil => cases length
    | cons d ds =>
      rw [number, ih (Nat.succ.inj length), List.length_cons, Finset.sum_range_succ', Nat.add_comm,
        Nat.mul_comm d]
      rfl

theorem total_drop_le {sizes : List Nat} (positive : ∀ size ∈ sizes, 0 < size) (n : Nat) :
    total (sizes.drop n) ≤ total sizes := by
  induction sizes generalizing n with
  | nil => rw [List.drop_nil]
  | cons size rest ih =>
    have ⟨first, others⟩ := List.forall_mem_cons.mp positive
    cases n with
    | zero => exact Nat.le_refl _
    | succ n => exact Nat.le_trans (ih others n) (Nat.le_mul_of_pos_left _ first)

end Voxel.Radix
