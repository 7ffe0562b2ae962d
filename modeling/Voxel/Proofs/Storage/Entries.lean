import Mathlib.Algebra.Order.Floor.Div
import Mathlib.Logic.Function.Basic
import Voxel.Proofs.Storage.Packed

/-!
# Independent entries

The entries of a packed array share words and nothing else. `Owns` says which bits belong to an entry,
`bit_set` what a write does to every bit of the array, and `eq_of_get` that the entries and the bits
between them are all there is to an array.
-/

namespace Voxel.Packed

/-- A bit of the array, by its word and its place in the word. Past either end there are none. -/
def bit (p : Packed) (w i : Nat) : Bool := (p.words[w]?.getD 0).toNat.testBit i

/-- The bit belongs to the entry of the cell. -/
def Owns (bits : Nat) (c : Cell) (w i : Nat) : Prop :=
  c.val / perWord bits = w ∧ c.val % perWord bits * bits ≤ i ∧ i < c.val % perWord bits * bits + bits

instance (bits : Nat) (c : Cell) (w i : Nat) : Decidable (Owns bits c w i) :=
  inferInstanceAs (Decidable (_ ∧ _ ∧ _))

variable {p q : Packed} {bits : Nat} {c d : Cell} {w i : Nat}

/-! ### Bits and entries -/

theorem bit_wordOf (p : Packed) (c : Cell) (i : Nat) :
    p.bit (c.val / perWord p.bits) i = (p.wordOf c).toNat.testBit i := by
  rw [bit, Vector.getElem?_eq_getElem (p.cellWord_lt c)]
  rfl

theorem testBit_get_eq_bit (p : Packed) (c : Cell) (j : Nat) : (p.get c).testBit j =
    (decide (j < p.bits) && p.bit (c.val / perWord p.bits) (c.val % perWord p.bits * p.bits + j)) := by
  rw [testBit_get, bit_wordOf]

theorem bit_of_owns (owns : Owns p.bits c w i) :
    p.bit w i = (p.get c).testBit (i - c.val % perWord p.bits * p.bits) := by
  obtain ⟨rfl, low, high⟩ := owns
  have inside : i - c.val % perWord p.bits * p.bits < p.bits := by omega
  rw [testBit_get_eq_bit, decide_eq_true inside, Bool.true_and, Nat.add_sub_cancel' low]

theorem testBit_beyond (word : UInt64) (beyond : 64 ≤ i) : word.toNat.testBit i = false := by
  apply Nat.testBit_lt_two_pow
  exact Nat.lt_of_lt_of_le word.toNat_lt (Nat.pow_le_pow_right (by decide) beyond)

theorem Owns.lt_word (pos : 0 < bits) (le : bits ≤ 32) (owns : Owns bits c w i) : i < 64 :=
  Nat.lt_of_lt_of_le owns.2.2 (shift_add_le bits pos le c)

theorem Owns.unique (left : Owns bits c w i) (right : Owns bits d w i) : c = d := by
  obtain ⟨rfl, low, high⟩ := left
  obtain ⟨word, low', high'⟩ := right
  by_cases place : c.val % perWord bits = d.val % perWord bits
  · apply Fin.ext
    rw [← Nat.div_add_mod c.val (perWord bits), ← word, place, Nat.div_add_mod]
  · have inside : i - d.val % perWord bits * bits < bits := by omega
    refine absurd ?_ (entries_apart place inside)
    rw [Nat.add_sub_cancel' low']
    exact ⟨low, high⟩

/-- A write sets the bits of one entry and leaves every other bit of the array alone. -/
theorem bit_set (p : Packed) (c : Cell) (value w i : Nat) : (p.set c value).bit w i =
    if Owns p.bits c w i then value.testBit (i - c.val % perWord p.bits * p.bits) else p.bit w i := by
  by_cases here : c.val / perWord p.bits = w
  · subst here
    by_cases small : i < 64
    · have word := wordOf_set p c c value
      rw [if_pos rfl] at word
      have place := bit_wordOf (p.set c value) c i
      rw [bits_set, word, testBit_set_word p.bits_pos p.bits_le c _ _ small] at place
      rw [place, bit_wordOf]
      exact if_congr (by simp [Owns]) rfl rfl
    · have outside : ¬ Owns p.bits c (c.val / perWord p.bits) i := fun owns =>
        small (owns.lt_word p.bits_pos p.bits_le)
      have beyond := Nat.not_lt.mp small
      rw [if_neg outside, bit, bit, testBit_beyond _ beyond, testBit_beyond _ beyond]
  · have other : ¬ Owns p.bits c w i := fun owns => here owns.1
    rw [if_neg other, bit, bit]
    have kept : (p.set c value).words[w]? = p.words[w]? :=
      (Vector.getElem?_set (word_lt p.bits_pos p.bits_le c)).trans (if_neg here)
    rw [kept]

theorem eq_of_bit (width : p.bits = q.bits) (same : ∀ w i, p.bit w i = q.bit w i) : p = q := by
  obtain ⟨bits, pos, le, words⟩ := p
  obtain ⟨_, _, _, others⟩ := q
  subst width
  congr
  apply Vector.ext
  intro w inside
  apply UInt64.toNat_inj.mp
  apply Nat.eq_of_testBit_eq
  intro i
  simpa [bit, inside] using same w i

theorem eq_of_get (width : p.bits = q.bits) (entries : ∀ c, p.get c = q.get c)
    (spare : ∀ w i, (∀ c, ¬ Owns p.bits c w i) → p.bit w i = q.bit w i) : p = q := by
  apply eq_of_bit width
  intro w i
  by_cases owned : ∃ c, Owns p.bits c w i
  · obtain ⟨c, owns⟩ := owned
    rw [bit_of_owns owns, entries c, bit_of_owns (width ▸ owns), width]
  · exact spare w i (not_exists.mp owned)

/-- An array of a width that has the given entries, and nothing in the bits between them. -/
structure Holds (p : Packed) (bits : Nat) (entries : Cell → Nat) : Prop where
  width : p.bits = bits
  entries : p.get = entries
  spare : ∀ w i, (∀ c, ¬ Owns bits c w i) → p.bit w i = false

theorem Holds.unique {entries : Cell → Nat} (left : p.Holds bits entries)
    (right : q.Holds bits entries) : p = q := by
  obtain ⟨rfl, rfl, empty⟩ := left
  refine eq_of_get right.width.symm (fun c => (congrFun right.entries c).symm) fun w i none => ?_
  rw [empty w i none, right.spare w i none]

theorem bit_zero (pos : 0 < bits) (le : bits ≤ 32) (w i : Nat) : (zero bits pos le).bit w i = false := by
  rw [bit, zero, Vector.getElem?_replicate]
  split <;> simp

theorem zero_holds (pos : 0 < bits) (le : bits ≤ 32) : (zero bits pos le).Holds bits fun _ => 0 :=
  ⟨rfl, funext fun c => get_zero bits pos le c, fun w i _ => bit_zero pos le w i⟩

/-! ### Writing entries, one after the other -/

def edit (p : Packed) (edits : List (Cell × Nat)) : Except Failure Packed :=
  edits.foldlM (fun q e => q.put e.1 e.2) p

/-- The entries after some were written are those of a plain map, and no other bit is touched. -/
structure Edited (p : Packed) (edits : List (Cell × Nat)) (q : Packed) : Prop where
  width : q.bits = p.bits
  entries : q.get = edits.foldl (fun m e => Function.update m e.1 e.2) p.get
  others : ∀ w i, (∀ e ∈ edits, ¬ Owns p.bits e.1 w i) → q.bit w i = p.bit w i

theorem get_set_update {value : Nat} (fits : value < 2 ^ p.bits) :
    (p.set c value).get = Function.update p.get c value := by
  funext d
  rw [get_set fits, Function.update_apply]

theorem Edited.cons {e : Cell × Nat} {rest : List (Cell × Nat)} (fits : e.2 < 2 ^ p.bits)
    (later : (p.set e.1 e.2).Edited rest q) : p.Edited (e :: rest) q where
  width := later.width
  entries := by rw [later.entries, get_set_update fits, List.foldl_cons]
  others w i free := by
    rw [later.others w i fun x member => free x (List.mem_cons_of_mem _ member), bit_set,
      if_neg (free e List.mem_cons_self)]

theorem edit_cases (p : Packed) (edits : List (Cell × Nat)) :
    ((∀ e ∈ edits, e.2 < 2 ^ p.bits) ∧ ∃ q, p.edit edits = .ok q ∧ p.Edited edits q) ∨
    ((∃ e ∈ edits, 2 ^ p.bits ≤ e.2) ∧ p.edit edits = .error .fault) := by
  induction edits generalizing p with
  | nil => exact Or.inl ⟨by simp, p, rfl, rfl, rfl, fun _ _ _ => rfl⟩
  | cons e rest ih =>
    by_cases fits : e.2 < 2 ^ p.bits
    · have first : p.edit (e :: rest) = (p.set e.1 e.2).edit rest := by
        rw [edit, List.foldlM_cons, put_of_fits fits]
        rfl
      rw [first]
      rcases ih (p.set e.1 e.2) with ⟨all, q, run, edited⟩ | ⟨⟨x, member, large⟩, failed⟩
      · exact Or.inl ⟨List.forall_mem_cons.mpr ⟨fits, all⟩, q, run, edited.cons fits⟩
      · exact Or.inr ⟨⟨x, List.mem_cons_of_mem _ member, large⟩, failed⟩
    · have refused : p.put e.1 e.2 = .error .fault := if_neg fits
      have first : p.edit (e :: rest) = .error .fault := by
        rw [edit, List.foldlM_cons, refused]
        rfl
      exact Or.inr ⟨⟨e, List.mem_cons_self, Nat.not_lt.mp fits⟩, first⟩

/-! ### Other widths -/

theorem remap_eq_edit (p : Packed) (pos : 0 < bits) (le : bits ≤ 32) (f : Nat → Nat) :
    p.remap bits pos le f = (zero bits pos le).edit (Cell.all.map fun c => (c, f (p.get c))) := by
  rw [remap, toList_eq, ← List.map_prod_left_eq_zip, List.foldlM_map, edit, List.foldlM_map]

theorem remap_cases (p : Packed) (pos : 0 < bits) (le : bits ≤ 32) (f : Nat → Nat) :
    ((∀ c, f (p.get c) < 2 ^ bits) ∧ ∃ q, p.remap bits pos le f = .ok q ∧
      q.Holds bits fun c => f (p.get c)) ∨
    ((∃ c, 2 ^ bits ≤ f (p.get c)) ∧ p.remap bits pos le f = .error .fault) := by
  rcases edit_cases (zero bits pos le) (Cell.all.map fun c => (c, f (p.get c))) with
    ⟨all, q, run, edited⟩ | ⟨⟨e, member, large⟩, failed⟩
  · rw [← remap_eq_edit] at run
    have fits : ∀ c, f (p.get c) < 2 ^ bits := fun c => all _ (List.mem_map_of_mem (Cell.mem_all c))
    obtain ⟨moved, same, _, entries⟩ : ∃ q, p.remap bits pos le f = .ok q ∧ q.bits = bits ∧
      ∀ c, q.get c = f (p.get c) := remap_spec fits
    cases run.symm.trans same
    refine Or.inl ⟨fits, q, run, edited.width, funext entries, fun w i free => ?_⟩
    rw [edited.others w i, bit_zero]
    intro e member
    obtain ⟨c, _, rfl⟩ := List.mem_map.mp member
    exact free c
  · rw [← remap_eq_edit] at failed
    obtain ⟨c, _, rfl⟩ := List.mem_map.mp member
    exact Or.inr ⟨⟨c, large⟩, failed⟩

theorem remap_congr (same : p.get = q.get) (pos : 0 < bits) (le : bits ≤ 32) (f : Nat → Nat) :
    p.remap bits pos le f = q.remap bits pos le f := by
  rw [remap_eq_edit, remap_eq_edit, same]

/-! ### Arrays as they are made and written -/

/-- Entries are where the layout puts them, and each of them is on its own. -/
structure Independent (p : Packed) : Prop where
  inside : ∀ c : Cell, c.val / perWord p.bits < p.words.toArray.size ∧
    (shift p.bits c).toNat + p.bits ≤ 64
  shifts : ∀ k < perWord p.bits, (UInt64.ofNat (k * p.bits)).toNat + p.bits ≤ 64
  layout : ∀ c j, (p.get c).testBit j =
    (decide (j < p.bits) && p.bit (c.val / perWord p.bits) (c.val % perWord p.bits * p.bits + j))
  written : ∀ c value, value < 2 ^ p.bits → ∃ q, p.put c value = .ok q ∧ q.bits = p.bits ∧
    q.get c = value ∧ (∀ d, d ≠ c → q.get d = p.get d) ∧
    ∀ w i, ¬ Owns p.bits c w i → q.bit w i = p.bit w i
  listed : p.toList = List.ofFn p.get
  remapped : ∀ (bits : Nat) (pos : 0 < bits) (le : bits ≤ 32) (f : Nat → Nat),
    (∀ c, f (p.get c) < 2 ^ bits) → ∃ q : Packed, q.Holds bits (fun c => f (p.get c)) ∧
      (∀ t : Packed, t.Holds bits (fun c => f (p.get c)) → t = q) ∧
      ∀ s : Packed, s.get = p.get → s.remap bits pos le f = .ok q

theorem shift_of_lt {k : Nat} (inside : k < perWord bits) :
    (UInt64.ofNat (k * bits)).toNat + bits ≤ 64 := by
  have room : k * bits + bits ≤ 64 := by
    rw [← Nat.succ_mul]
    exact Nat.le_trans (Nat.mul_le_mul_right bits inside) (perWord_mul_le bits)
  rw [UInt64.toNat_ofNat', Nat.mod_eq_of_lt (by omega)]
  exact room

theorem independent (p : Packed) : p.Independent where
  inside c := by
    rw [p.words.size_toArray, toNat_shift p.bits_pos p.bits_le]
    exact ⟨p.cellWord_lt c, shift_add_le p.bits p.bits_pos p.bits_le c⟩
  shifts _ inside := shift_of_lt inside
  layout := p.testBit_get_eq_bit
  written c value fits := by
    refine ⟨p.set c value, put_of_fits fits, rfl, ?_, fun d other => ?_, fun w i other => ?_⟩
    · rw [get_set fits, if_pos rfl]
    · rw [get_set fits, if_neg other]
    · rw [bit_set, if_neg other]
  listed := by rw [toList_eq, Cell.all, List.map_ofFn, Function.comp_id]
  remapped bits pos le f fits := by
    rcases remap_cases p pos le f with ⟨_, q, run, holds⟩ | ⟨⟨c, large⟩, _⟩
    · exact ⟨q, holds, fun t other => other.unique holds, fun s same => (remap_congr same pos le f).trans run⟩
    · exact absurd (fits c) (Nat.not_lt.mpr large)

inductive Origin
  | cleared
  | words (words : Array UInt64)
  | remapped (source : Packed) (f : Nat → Nat)

namespace Origin

def array (pos : 0 < bits) (le : bits ≤ 32) : Origin → Except Failure Packed
  | cleared => .ok (zero bits pos le)
  | words ws => ofWords? bits ws
  | remapped source f => source.remap bits pos le f

/-- There are as many words as the entries need, or the new entries fit. -/
def Fits (bits : Nat) : Origin → Prop
  | cleared => True
  | words ws => ws.size = 4096 ⌈/⌉ (64 / bits)
  | remapped source f => ∀ c, f (source.get c) < 2 ^ bits

def Makes (bits : Nat) (s : Packed) : Origin → Prop
  | cleared => s.Holds bits fun _ => 0
  | words ws => s.bits = bits ∧ s.words.toArray = ws
  | remapped source f => s.Holds bits fun c => f (source.get c)

def refusal (bits : Nat) : Origin → Failure
  | words ws => .error (.invalidValue (.storage (.wordCount (4096 ⌈/⌉ (64 / bits)) bits ws.size)))
  | _ => .fault

theorem Makes.width {s : Packed} {o : Origin} (makes : o.Makes bits s) : s.bits = bits := by
  cases o with
  | cleared => exact Holds.width makes
  | words ws => exact makes.1
  | remapped source f => exact Holds.width makes

theorem array_cases (pos : 0 < bits) (le : bits ≤ 32) (o : Origin) :
    (o.Fits bits ∧ ∃ s, o.array pos le = .ok s ∧ o.Makes bits s) ∨
    (¬ o.Fits bits ∧ o.array pos le = .error (o.refusal bits)) := by
  cases o with
  | cleared => exact Or.inl ⟨trivial, _, rfl, zero_holds pos le⟩
  | words ws =>
    rw [array, ofWords?, dif_pos ⟨pos, le⟩]
    by_cases size : ws.size = 4096 ⌈/⌉ (64 / bits)
    · exact Or.inl ⟨size, _, dif_pos size, rfl, rfl⟩
    · exact Or.inr ⟨size, dif_neg size⟩
  | remapped source f =>
    rcases remap_cases source pos le f with ⟨fits, s, run, holds⟩ | ⟨⟨c, large⟩, failed⟩
    · exact Or.inl ⟨fits, s, run, holds⟩
    · exact Or.inr ⟨fun fits => Nat.not_lt.mpr large (fits c), failed⟩

end Origin

/-- However an array is made and written, its entries stay independent. It is not made, or not written,
only if there are too few or too many words or a value does not fit. -/
theorem made_independent (pos : 0 < bits) (le : bits ≤ 32) (o : Origin) (edits : List (Cell × Nat)) :
    (¬ o.Fits bits ∧ o.array pos le = .error (o.refusal bits)) ∨
    (o.Fits bits ∧ ∃ s, o.array pos le = .ok s ∧ o.Makes bits s ∧
      (((∃ e ∈ edits, 2 ^ bits ≤ e.2) ∧ s.edit edits = .error .fault) ∨
      ((∀ e ∈ edits, e.2 < 2 ^ bits) ∧
        ∃ p, s.edit edits = .ok p ∧ s.Edited edits p ∧ p.Independent))) := by
  rcases o.array_cases pos le with ⟨fits, s, made, makes⟩ | refused
  · refine Or.inr ⟨fits, s, made, makes, ?_⟩
    rcases makes.width ▸ edit_cases s edits with ⟨small, p, run, edited⟩ | failed
    · exact Or.inr ⟨small, p, run, edited, p.independent⟩
    · exact Or.inl failed
  · exact Or.inl refused

theorem fives_independent : 0 < 5 ∧ 5 ≤ 32 ∧ ∃ s p : Packed,
    ofWords? 5 (Array.replicate 342 (-1)) = .ok s ∧ s.edit [(11, 0), (12, 21)] = .ok p ∧
    p.get 11 = 0 ∧ p.get 12 = 21 ∧ p.bit 0 60 = true ∧ p.Independent := by
  obtain ⟨wrong, _⟩ | ⟨_, s, made, ⟨width, given⟩, ⟨⟨e, member, large⟩, _⟩ | ⟨_, p, run, edited, alone⟩⟩ :=
    made_independent (by decide : 0 < 5) (by decide : 5 ≤ 32)
      (.words (Array.replicate 342 (-1))) [(11, 0), (12, 21)]
  · exact absurd Array.size_replicate wrong
  · have small : ∀ e ∈ [((11 : Cell), 0), (12, 21)], e.2 < 2 ^ 5 := by decide
    exact absurd (small e member) (Nat.not_lt.mpr large)
  · refine ⟨by decide, by decide, s, p, made, run, ?_, ?_, ?_, alone⟩
    · rw [edited.entries]
      rfl
    · rw [edited.entries]
      rfl
    · have first : s.words[0]? = some (-1 : UInt64) := by
        rw [← Vector.getElem?_toArray, given]
        simp
      rw [edited.others 0 60 (by rw [width]; decide), bit, first]
      rfl

end Voxel.Packed
