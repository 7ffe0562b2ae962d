import Mathlib.Data.List.InsertIdx
import Mathlib.Data.UInt
import Voxel.Outcome
import Voxel.Storage.Palette

/-!
# Palettes

In a sound palette the sorted list holds the same pairs as the list by index, in rising order, and no
index is too wide for it. `indexOf?_eq_some_iff` shows that bisection finds the index of every state.
`insert_cases` says what comes of putting a state in, and `rebuilt_spec` that another width changes no
index.
-/

namespace Voxel.Palette

def Rising (pairs : List (StateId × Nat)) : Prop := pairs.Pairwise fun a b => a.1 < b.1

structure Sound (p : Palette) : Prop where
  narrow : p.bits ≤ maxBits
  rising : Rising p.sorted.toList
  listed : ∀ id i, (id, i) ∈ p.sorted.toList ↔ p.ids[i]? = some id
  room : p.size ≤ p.capacity

/-! ### Bisection -/

/-- The states before a place are below `id`, and no state from it on is. -/
structure Splits (sorted : Array (StateId × Nat)) (id : StateId) (below above : Nat) : Prop where
  less : ∀ i (h : i < sorted.size), i < below → sorted[i].1 < id
  notLess : ∀ i (h : i < sorted.size), above ≤ i → ¬ sorted[i].1 < id

theorem lowerBound_splits {sorted : Array (StateId × Nat)} {id : StateId} {low high : Nat}
    (rising : Rising sorted.toList) (h : high ≤ sorted.size) (splits : Splits sorted id low high)
    (ordered : low ≤ high) :
    Splits sorted id (lowerBound sorted id low high h) (lowerBound sorted id low high h) := by
  have apart : ∀ i j (hi : i < sorted.size) (hj : j < sorted.size), i < j →
      sorted[i].1 < sorted[j].1 := fun i j hi hj less =>
    List.pairwise_iff_getElem.mp rising i j hi hj less
  fun_induction lowerBound sorted id low high h with
  | case1 low high h less middle inside small ih =>
    refine ih ⟨fun i hi before => ?_, splits.notLess⟩ (by omega)
    rcases Nat.lt_or_eq_of_le (Nat.lt_succ_iff.mp before) with earlier | same
    · exact UInt32.lt_trans (apart i middle hi inside earlier) small
    · subst same
      exact small
  | case2 low high h less middle inside large ih =>
    refine ih ⟨splits.less, fun i hi after before => large ?_⟩ (by omega)
    rcases Nat.lt_or_eq_of_le after with later | same
    · exact UInt32.lt_trans (apart middle i inside hi later) before
    · subst same
      exact before
  | case3 low high h done =>
    have same : low = high := by omega
    exact ⟨splits.less, same ▸ splits.notLess⟩

theorem place_splits {p : Palette} (sound : p.Sound) (id : StateId) :
    Splits p.sorted id (p.place id) (p.place id) := by
  refine lowerBound_splits sound.rising (Nat.le_refl _) ⟨?_, ?_⟩ (Nat.zero_le _)
  · intro i _ before
    omega
  · intro i inside after
    omega

/-! ### Looking up -/

theorem indexOf?_eq_some_iff {p : Palette} (sound : p.Sound) {id : StateId} {index : Nat} :
    p.indexOf? id = some index ↔ p.ids[index]? = some id := by
  have splits := place_splits sound id
  rw [← sound.listed]
  unfold indexOf?
  constructor
  · intro found
    split at found
    · rename_i state i stored
      split at found
      · rename_i same
        cases found
        rw [← same, Array.mem_toList_iff]
        exact Array.mem_of_getElem? stored
      · cases found
    · cases found
  · intro member
    obtain ⟨i, inside, stored⟩ := List.mem_iff_getElem.mp member
    rw [Array.getElem_toList] at stored
    rw [Array.length_toList] at inside
    -- the state is neither before nor after the place
    have notBefore : ¬ i < p.place id := by
      intro before
      have less := splits.less i inside before
      rw [stored] at less
      exact UInt32.lt_irrefl _ less
    have notAfter : ¬ p.place id < i := by
      intro after
      have place := Nat.lt_trans after inside
      have less := List.pairwise_iff_getElem.mp sound.rising (p.place id) i place inside after
      rw [Array.getElem_toList, Array.getElem_toList, stored] at less
      exact splits.notLess (p.place id) place (Nat.le_refl _) less
    have same : p.place id = i := by omega
    rw [same, Array.getElem?_eq_getElem inside, stored]
    simp

theorem indexOf?_eq_none_iff {p : Palette} (sound : p.Sound) {id : StateId} :
    p.indexOf? id = none ↔ id ∉ p.ids := by
  constructor
  · intro absent member
    obtain ⟨index, inside, stored⟩ := Array.mem_iff_getElem.mp member
    have found := (indexOf?_eq_some_iff sound).mpr (Array.getElem?_eq_some_iff.mpr ⟨inside, stored⟩)
    rw [absent] at found
    cases found
  · intro absent
    cases found : p.indexOf? id with
    | none => rfl
    | some index =>
      exact absurd (Array.mem_of_getElem? ((indexOf?_eq_some_iff sound).mp found)) absent

theorem index_unique {p : Palette} (sound : p.Sound) {id : StateId} {i j : Nat}
    (left : p.ids[i]? = some id) (right : p.ids[j]? = some id) : i = j := by
  rw [← indexOf?_eq_some_iff sound] at left right
  exact Option.some.inj (left.symm.trans right)

theorem nodup_ids {p : Palette} (sound : p.Sound) : p.ids.toList.Nodup := by
  rw [List.nodup_iff_getElem?_ne_getElem?]
  intro i j less inside same
  rw [Array.length_toList] at inside
  rw [Array.getElem?_toList, Array.getElem?_toList] at same
  have stored := Array.getElem?_eq_getElem inside
  have equal := index_unique sound (same.trans stored) stored
  omega

/-! ### Putting states in -/

theorem empty_sound {bits : Nat} (le : bits ≤ maxBits) : (empty bits).Sound :=
  ⟨le, List.Pairwise.nil, fun id i => by simp [empty], Nat.zero_le _⟩

theorem narrowed_size {p : Palette} (sound : p.Sound) (room : p.size < p.capacity) :
    narrowed p.size = p.size := by
  have short : p.size < 2 ^ maxBits :=
    Nat.lt_of_lt_of_le room (Nat.pow_le_pow_right (by decide) sound.narrow)
  rw [narrowed, UInt16.toNat_ofNat']
  exact Nat.mod_eq_of_lt short

@[simp] theorem ids_push (p : Palette) (id : StateId) : (p.push id).ids = p.ids.push id := rfl

@[simp] theorem bits_push (p : Palette) (id : StateId) : (p.push id).bits = p.bits := rfl

@[simp] theorem size_push (p : Palette) (id : StateId) : (p.push id).size = p.size + 1 :=
  Array.size_push _

theorem rising_insertIdx {p : Palette} (sound : p.Sound) {id : StateId} (absent : id ∉ p.ids)
    (index : Nat) :
    Rising (p.sorted.insertIdx (p.place id) (id, index) (p.place_le id)).toList := by
  have splits := place_splits sound id
  have stranger : ∀ i (h : i < p.sorted.size), p.sorted[i].1 ≠ id := by
    intro i inside same
    have member : (id, p.sorted[i].2) ∈ p.sorted.toList := by
      rw [← same, Array.mem_toList_iff]
      exact Array.getElem_mem inside
    exact absent (Array.mem_of_getElem? ((sound.listed _ _).mp member))
  unfold Rising
  rw [List.pairwise_iff_getElem]
  intro i j hi hj less
  simp only [Array.getElem_toList]
  rw [Array.length_toList, Array.size_insertIdx] at hi hj
  rw [Array.getElem_insertIdx, Array.getElem_insertIdx]
  have order := List.pairwise_iff_getElem.mp sound.rising
  simp only [Array.getElem_toList, Array.length_toList] at order
  rcases Nat.lt_trichotomy i (p.place id) with before | at_ | after
  · rw [dif_pos before]
    rcases Nat.lt_trichotomy j (p.place id) with jBefore | jAt | jAfter
    · rw [dif_pos jBefore]
      exact order i j _ _ less
    · rw [dif_neg (by omega), dif_pos jAt]
      exact splits.less i _ before
    · rw [dif_neg (by omega), dif_neg (by omega)]
      exact order i (j - 1) _ _ (by omega)
  · rw [dif_neg (by omega), dif_pos at_, dif_neg (by omega), dif_neg (by omega)]
    have large := splits.notLess (j - 1) (by omega) (by omega)
    exact UInt32.lt_of_le_of_ne (UInt32.not_lt.mp large) (stranger _ _).symm
  · rw [dif_neg (by omega), dif_neg (by omega), dif_neg (by omega), dif_neg (by omega)]
    exact order (i - 1) (j - 1) _ _ (by omega)

theorem push_sound {p : Palette} (sound : p.Sound) {id : StateId} (absent : id ∉ p.ids)
    (room : p.size < p.capacity) : (p.push id).Sound := by
  refine ⟨sound.narrow, rising_insertIdx sound absent _, ?_, by rw [size_push]; exact room⟩
  intro state i
  rw [Array.mem_toList_iff, push, Array.mem_insertIdx, ← Array.mem_toList_iff, sound.listed,
    Array.getElem?_push, Prod.mk.injEq, narrowed_size sound room]
  constructor
  · rintro (⟨rfl, rfl⟩ | stored)
    · simp [size]
    · have inside := (Array.getElem?_eq_some_iff.mp stored).1
      rw [if_neg (by omega)]
      exact stored
  · intro stored
    split at stored
    · rename_i last
      exact Or.inl ⟨(Option.some.inj stored).symm, last⟩
    · exact Or.inr stored

/-- Putting a state in finds it, adds it as the last state, or finds no room for it. -/
theorem insert_cases {p : Palette} (sound : p.Sound) (id : StateId) :
    (∃ index, p.insert id = .present index ∧ p.ids[index]? = some id) ∨
    (p.insert id = .inserted p.size (p.push id) ∧ id ∉ p.ids ∧ p.size < p.capacity) ∨
    (p.insert id = .full ∧ id ∉ p.ids ∧ p.size = p.capacity) := by
  unfold insert
  cases found : p.indexOf? id with
  | some index => exact Or.inl ⟨index, rfl, (indexOf?_eq_some_iff sound).mp found⟩
  | none =>
    have absent := (indexOf?_eq_none_iff sound).mp found
    by_cases full : p.capacity ≤ p.size
    · exact Or.inr (Or.inr ⟨if_pos full, absent, Nat.le_antisymm sound.room full⟩)
    · exact Or.inr (Or.inl ⟨if_neg full, absent, by omega⟩)

theorem adding_of_room {p : Palette} (sound : p.Sound) {id : StateId} (absent : id ∉ p.ids)
    (room : p.size < p.capacity) : p.adding id = p.push id := by
  unfold adding
  rcases insert_cases sound id with ⟨index, _, stored⟩ | ⟨same, _⟩ | ⟨_, _, full⟩
  · exact absurd (Array.mem_of_getElem? stored) absent
  · rw [same]
  · omega

theorem singleton_eq {id : StateId} {bits : Nat} (le : bits ≤ maxBits) :
    singleton id bits = (empty bits).push id :=
  adding_of_room (empty_sound le) (by simp [empty]) (Nat.two_pow_pos bits)

theorem singleton_sound (id : StateId) {bits : Nat} (le : bits ≤ maxBits) :
    (singleton id bits).Sound := by
  rw [singleton_eq le]
  exact push_sound (empty_sound le) (by simp [empty]) (Nat.two_pow_pos bits)

/-! ### Other widths -/

theorem foldl_adding (states : List StateId) {p : Palette} (sound : p.Sound)
    (distinct : states.Nodup) (absent : ∀ id ∈ states, id ∉ p.ids)
    (room : p.size + states.length ≤ p.capacity) :
    (states.foldl adding p).Sound ∧ (states.foldl adding p).ids = p.ids ++ states.toArray ∧
      (states.foldl adding p).bits = p.bits := by
  induction states generalizing p with
  | nil => exact ⟨sound, by simp, rfl⟩
  | cons id rest ih =>
    rw [List.nodup_cons] at distinct
    rw [List.length_cons] at room
    have fresh := absent id List.mem_cons_self
    have added := adding_of_room sound fresh (by omega)
    have later : ∀ state ∈ rest, state ∉ (p.push id).ids := by
      intro state member
      rw [ids_push, Array.mem_push]
      rintro (old | same)
      · exact absent state (List.mem_cons_of_mem _ member) old
      · exact distinct.1 (same ▸ member)
    rw [List.foldl_cons, added]
    obtain ⟨soundRest, ids, bits⟩ := ih (push_sound sound fresh (by omega)) distinct.2 later
      (by rw [size_push, capacity, bits_push]; exact Nat.le_trans (by omega) room)
    exact ⟨soundRest, by rw [ids, ids_push]; simp, bits⟩

/-- A width with room for the states gives a palette with the same states at the same indices. -/
theorem rebuilt_spec {p : Palette} (sound : p.Sound) {bits : Nat}
    (room : p.size ≤ Bits.capacity bits) (le : bits ≤ maxBits) :
    ∃ q, p.rebuilt bits = .ok q ∧ q.Sound ∧ q.ids = p.ids ∧ q.bits = bits := by
  obtain ⟨soundAll, ids, width⟩ := foldl_adding p.ids.toList (empty_sound le)
    (nodup_ids sound) (fun _ _ => by simp [empty])
    (by rw [Array.length_toList]; exact Nat.le_trans (Nat.le_of_eq (Nat.zero_add _)) room)
  rw [Array.foldl_toList] at soundAll ids width
  refine ⟨_, ?_, soundAll, ?_, width⟩
  · unfold rebuilt ofBits
    rw [if_neg (by omega), if_pos le]
    rfl
  · rw [ids]
    simp [empty]

end Voxel.Palette
