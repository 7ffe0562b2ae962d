import Mathlib.Data.Nat.Bitwise
import Mathlib.Order.Fin.Basic
import Voxel.Storage.Packed

/-!
# Packed arrays

An array is its entries: `get_set` gives the entries after a write, `toList_eq` lists them in the
order of cells, and `remap_spec` gives those of the array of another width. `get_eq` says which bits
of which word an entry is.
-/

namespace Voxel

theorem getElem?_flatMap_uniform {α β : Type} {f : α → List β} {n : Nat} (pos : 0 < n)
    (uniform : ∀ a, (f a).length = n) (l : List α) (i : Nat) :
    (l.flatMap f)[i]? = l[i / n]?.bind fun a => (f a)[i % n]? := by
  induction l generalizing i with
  | nil => rfl
  | cons a rest ih =>
    rw [List.flatMap_cons]
    by_cases first : i < n
    · rw [List.getElem?_append_left (by rw [uniform a]; exact first), Nat.div_eq_of_lt first,
        Nat.mod_eq_of_lt first]
      rfl
    · have quotient : i / n = (i - n) / n + 1 := Nat.div_eq_sub_div pos (by omega)
      have remainder : i % n = (i - n) % n := Nat.mod_eq_sub_mod (by omega)
      rw [List.getElem?_append_right (by rw [uniform a]; omega), uniform a, ih, quotient, remainder]
      rfl

namespace Cell

theorem mem_all (c : Cell) : c ∈ all := List.mem_ofFn.mpr ⟨c, rfl⟩

theorem getElem?_map_all {α : Type} (f : Cell → α) (i : Nat) :
    (all.map f)[i]? = if h : i < volume then some (f ⟨i, h⟩) else none := by
  rw [List.getElem?_map, all, List.getElem?_ofFn]
  split <;> rfl

end Cell

namespace Packed

theorem perWord_mul_le (bits : Nat) : perWord bits * bits ≤ 64 := Nat.div_mul_le_self 64 bits

theorem toNat_mask {bits : Nat} (le : bits ≤ 32) : (mask bits).toNat = 2 ^ bits - 1 := by
  have power : (1 <<< bits : Nat) < 2 ^ 64 := by
    rw [Nat.one_shiftLeft]
    exact Nat.pow_lt_pow_right (by decide) (by omega)
  have shifted : ((1 : UInt64) <<< UInt64.ofNat bits).toNat = 2 ^ bits := by
    rw [UInt64.toNat_shiftLeft, UInt64.toNat_one, UInt64.toNat_ofNat',
      Nat.mod_eq_of_lt (a := bits) (b := 2 ^ 64) (by omega),
      Nat.mod_eq_of_lt (a := bits) (by omega), Nat.mod_eq_of_lt power, Nat.one_shiftLeft]
  have positive : 0 < 2 ^ bits := Nat.two_pow_pos bits
  rw [mask, UInt64.toNat_sub_of_le, shifted, UInt64.toNat_one]
  rw [UInt64.le_iff_toNat_le, shifted, UInt64.toNat_one]
  exact positive

theorem shift_add_le (bits : Nat) (pos : 0 < bits) (le : bits ≤ 32) (c : Cell) :
    c.val % perWord bits * bits + bits ≤ 64 := by
  have inside := Nat.mod_lt c.val (perWord_pos pos le)
  have bound := Nat.mul_le_mul_right bits (Nat.succ_le_of_lt inside)
  rw [Nat.succ_mul] at bound
  exact Nat.le_trans bound (perWord_mul_le bits)

theorem toNat_shift {bits : Nat} (pos : 0 < bits) (le : bits ≤ 32) (c : Cell) :
    (shift bits c).toNat = c.val % perWord bits * bits := by
  have bound := shift_add_le bits pos le c
  rw [shift, UInt64.toNat_ofNat', Nat.mod_eq_of_lt (by omega)]

theorem cellWord_lt (p : Packed) (c : Cell) :
    c.val / perWord p.bits < Bits.wordCount volume p.bits := word_lt p.bits_pos p.bits_le c

def wordOf (p : Packed) (c : Cell) : UInt64 := p.words.get ⟨c.val / perWord p.bits, p.cellWord_lt c⟩

/-- An entry is `bits` bits of its word, above those of the cells before it in the word. -/
theorem get_eq (p : Packed) (c : Cell) :
    p.get c = (p.wordOf c).toNat >>> (c.val % perWord p.bits * p.bits) % 2 ^ p.bits := by
  have bound := shift_add_le p.bits p.bits_pos p.bits_le c
  have pos := p.bits_pos
  rw [get, wordOf, UInt64.toNat_and, UInt64.toNat_shiftRight, toNat_mask p.bits_le,
    toNat_shift p.bits_pos p.bits_le, Nat.mod_eq_of_lt (b := 64) (by omega),
    Nat.and_two_pow_sub_one_eq_mod]
  rfl

theorem get_lt (p : Packed) (c : Cell) : p.get c < Bits.capacity p.bits := by
  rw [get_eq]
  exact Nat.mod_lt _ (Nat.two_pow_pos _)

theorem testBit_set_word {bits : Nat} (pos : 0 < bits) (le : bits ≤ 32) (c : Cell)
    (word : UInt64) (value : Nat) {i : Nat} (small : i < 64) :
    ((word &&& ~~~(mask bits <<< shift bits c)) |||
      (UInt64.ofNat value &&& mask bits) <<< shift bits c).toNat.testBit i =
    if c.val % perWord bits * bits ≤ i ∧ i < c.val % perWord bits * bits + bits then
      value.testBit (i - c.val % perWord bits * bits)
    else word.toNat.testBit i := by
  have bound := shift_add_le bits pos le c
  rw [UInt64.toNat_or, UInt64.toNat_and, UInt64.toNat_not, UInt64.toNat_shiftLeft,
    UInt64.toNat_shiftLeft, UInt64.toNat_and, toNat_mask le, toNat_shift pos le,
    UInt64.toNat_ofNat', Nat.mod_eq_of_lt (a := c.val % perWord bits * bits) (by omega)]
  rw [Nat.sub_right_comm, Nat.sub_sub, show UInt64.size = 2 ^ 64 from rfl, Nat.testBit_or,
    Nat.testBit_and, Nat.testBit_two_pow_sub_succ (Nat.mod_lt _ (by decide))]
  simp only [Nat.testBit_mod_two_pow, Nat.testBit_shiftLeft, Nat.testBit_and,
    Nat.testBit_two_pow_sub_one, small, decide_true, Bool.true_and]
  by_cases above : c.val % perWord bits * bits ≤ i
  · by_cases below : i < c.val % perWord bits * bits + bits
    · have near : i - c.val % perWord bits * bits < bits := by omega
      have place : i - c.val % perWord bits * bits < 64 := by omega
      simp [above, below, near, place]
    · have far : ¬ i - c.val % perWord bits * bits < bits := by omega
      simp [below, far]
  · simp [above]

theorem testBit_get (p : Packed) (c : Cell) (j : Nat) :
    (p.get c).testBit j =
      (decide (j < p.bits) && (p.wordOf c).toNat.testBit (c.val % perWord p.bits * p.bits + j)) := by
  rw [get_eq, Nat.testBit_mod_two_pow, Nat.testBit_shiftRight]

theorem entries_apart {bits k l i : Nat} (different : k ≠ l) (inside : i < bits) :
    ¬ (k * bits ≤ l * bits + i ∧ l * bits + i < k * bits + bits) := by
  rintro ⟨low, high⟩
  rcases Nat.lt_or_gt_of_ne different with less | greater
  · have gap := Nat.mul_le_mul_right bits (Nat.succ_le_of_lt less)
    rw [Nat.succ_mul] at gap
    omega
  · have gap := Nat.mul_le_mul_right bits (Nat.succ_le_of_lt greater)
    rw [Nat.succ_mul] at gap
    omega

theorem wordOf_set (p : Packed) (c d : Cell) (value : Nat) :
    (p.set c value).wordOf d =
      if c.val / perWord p.bits = d.val / perWord p.bits then
        (p.wordOf c &&& ~~~(mask p.bits <<< shift p.bits c)) |||
          (UInt64.ofNat value &&& mask p.bits) <<< shift p.bits c
      else p.wordOf d := by
  have inside := word_lt p.bits_pos p.bits_le d
  exact Vector.getElem_set (word_lt p.bits_pos p.bits_le c) inside

theorem get_set {p : Packed} {c d : Cell} {value : Nat} (fits : value < Bits.capacity p.bits) :
    (p.set c value).get d = if d = c then value else p.get d := by
  have pos := p.bits_pos
  have bound := shift_add_le p.bits p.bits_pos p.bits_le d
  apply Nat.eq_of_testBit_eq
  intro j
  rw [testBit_get, bits_set, wordOf_set]
  by_cases inside : j < p.bits
  · by_cases together : c.val / perWord p.bits = d.val / perWord p.bits
    · rw [if_pos together, testBit_set_word p.bits_pos p.bits_le c _ _ (by omega)]
      by_cases same : d = c
      · subst same
        simp [inside]
      · have different : c.val % perWord p.bits ≠ d.val % perWord p.bits := by
          intro equal
          have left := Nat.div_add_mod c.val (perWord p.bits)
          rw [together, equal, Nat.div_add_mod] at left
          exact same (Fin.ext left)
        have word : p.wordOf c = p.wordOf d := by simp only [wordOf, together]
        rw [if_neg (entries_apart different inside), if_neg same, testBit_get, word]
    · have same : d ≠ c := fun equal => together (equal ▸ rfl)
      rw [if_neg together, if_neg same, testBit_get]
  · have beyond : (if d = c then value else p.get d).testBit j = false := by
      apply Nat.testBit_lt_two_pow
      have room : 2 ^ p.bits ≤ 2 ^ j := Nat.pow_le_pow_right (by decide) (by omega)
      split
      · exact Nat.lt_of_lt_of_le fits room
      · exact Nat.lt_of_lt_of_le (p.get_lt d) room
    simp [inside, beyond]

theorem get_zero (bits : Nat) (pos : 0 < bits) (le : bits ≤ 32) (c : Cell) :
    (zero bits pos le).get c = 0 := by
  have word : (zero bits pos le).wordOf c = 0 := Vector.getElem_replicate _
  rw [get_eq, word, UInt64.toNat_zero, Nat.zero_shiftRight, Nat.zero_mod]

theorem length_entriesOf (bits : Nat) (word : UInt64) :
    (entriesOf bits word).length = perWord bits := by
  rw [entriesOf, List.length_map, List.length_range]

theorem toList_eq (p : Packed) : p.toList = Cell.all.map p.get := by
  have per := perWord_pos p.bits_pos p.bits_le
  apply List.ext_getElem?
  intro i
  rw [Cell.getElem?_map_all, toList, List.getElem?_take]
  by_cases inside : i < volume
  · have stored := word_lt p.bits_pos p.bits_le ⟨i, inside⟩
    rw [if_pos inside, dif_pos inside, getElem?_flatMap_uniform per (length_entriesOf p.bits),
      List.getElem?_eq_getElem (by rw [Vector.length_toList]; exact stored), Option.bind_some,
      entriesOf, List.getElem?_map, List.getElem?_range (Nat.mod_lt _ per)]
    rfl
  · rw [if_neg inside, dif_neg inside]

theorem put_of_fits {p : Packed} {c : Cell} {value : Nat} (fits : value < Bits.capacity p.bits) :
    p.put c value = .ok (p.set c value) := if_pos fits

theorem foldlM_put (cells : List Cell) (p : Packed) (entry : Cell → Nat)
    (fits : ∀ c ∈ cells, entry c < Bits.capacity p.bits) :
    ∃ q, cells.foldlM (fun q c => q.put c (entry c)) p = .ok q ∧ q.bits = p.bits ∧
      ∀ c, q.get c = if c ∈ cells then entry c else p.get c := by
  induction cells generalizing p with
  | nil => exact ⟨p, rfl, rfl, fun c => (if_neg List.not_mem_nil).symm⟩
  | cons d rest ih =>
    have fit := fits d List.mem_cons_self
    obtain ⟨q, written, width, entries⟩ := ih (p.set d (entry d))
      fun c member => fits c (List.mem_cons_of_mem _ member)
    refine ⟨q, ?_, width, ?_⟩
    · rw [List.foldlM_cons, put_of_fits fit]
      exact written
    · intro c
      rw [entries, get_set fit]
      by_cases later : c ∈ rest
      · rw [if_pos later, if_pos (List.mem_cons_of_mem d later)]
      · rw [if_neg later]
        by_cases now : c = d
        · rw [now, if_pos rfl, if_pos List.mem_cons_self]
        · rw [if_neg now, if_neg (List.not_mem_cons_of_ne_of_not_mem now later)]

/-- If the new entries fit, there is an array of the new width that has them. -/
theorem remap_spec {p : Packed} {bits : Nat} {pos : 0 < bits} {le : bits ≤ 32} {f : Nat → Nat}
    (fits : ∀ c, f (p.get c) < Bits.capacity bits) :
    ∃ q, p.remap bits pos le f = .ok q ∧ q.bits = bits ∧ ∀ c, q.get c = f (p.get c) := by
  obtain ⟨q, written, width, entries⟩ := foldlM_put Cell.all (zero bits pos le)
    (fun c => f (p.get c)) fun c _ => fits c
  refine ⟨q, ?_, width, fun c => by rw [entries, if_pos (Cell.mem_all c)]⟩
  rw [remap, toList_eq, ← List.map_prod_left_eq_zip, List.foldlM_map]
  exact written

end Packed
end Voxel
