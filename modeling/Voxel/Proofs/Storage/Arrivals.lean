import Voxel.Proofs.Storage.Palette

/-!
# States in the order of their arrival

Whatever is put into a palette, it holds the states that came first, each once and as many as its
width numbers: `Holds.step` puts in one more state and `filled_holds` any number of them.
`Gives` looks back to the moment at which a state got its index, and `filled_answers` says what
a palette answers after all of that.
-/

namespace Voxel.Palette

def filled (bits : Nat) (ids : List StateId) : Palette := ids.foldl adding (empty bits)

/-- The distinct states of a list in the order in which they come, up to the number a width allows. -/
def arrivals (bits : Nat) (ids : List StateId) : List StateId := ids.eraseDups.take (2 ^ bits)

/-- One of the states put in was new at that moment, and got an index. -/
def Gives (bits : Nat) (ids : List StateId) (id : StateId) (index : Nat) : Prop :=
  ∃ early late q, ids = early ++ id :: late ∧ (filled bits early).insert id = .inserted index q

theorem filled_snoc (bits : Nat) (ids : List StateId) (id : StateId) :
    filled bits (ids ++ [id]) = (filled bits ids).adding id := by
  simp [filled]

/-! ### States that come again, that come first, and that come too late -/

theorem eraseDups_snoc (ids : List StateId) (id : StateId) :
    (ids ++ [id]).eraseDups = if id ∈ ids then ids.eraseDups else ids.eraseDups ++ [id] := by
  rw [List.eraseDups_append]
  split <;> rename_i came <;> simp [List.removeAll, came, List.eraseDups_cons]

theorem arrivals_snoc_of_mem {bits : Nat} {ids : List StateId} {id : StateId}
    (member : id ∈ arrivals bits ids) : arrivals bits (ids ++ [id]) = arrivals bits ids := by
  have came : id ∈ ids := List.mem_eraseDups.mp (List.mem_of_mem_take member)
  rw [arrivals, eraseDups_snoc, if_pos came, arrivals]

theorem arrivals_snoc_of_full {bits : Nat} {ids : List StateId}
    (full : (arrivals bits ids).length = 2 ^ bits) (id : StateId) :
    arrivals bits (ids ++ [id]) = arrivals bits ids := by
  rw [arrivals, List.length_take] at full
  rw [arrivals, eraseDups_snoc, arrivals]
  split
  · rfl
  · exact List.take_append_of_le_length (by omega)

theorem arrivals_snoc_of_room {bits : Nat} {ids : List StateId} {id : StateId}
    (absent : id ∉ arrivals bits ids) (room : (arrivals bits ids).length < 2 ^ bits) :
    arrivals bits (ids ++ [id]) = arrivals bits ids ++ [id] := by
  have few : ids.eraseDups.length < 2 ^ bits := by
    rw [arrivals, List.length_take] at room
    omega
  have all : arrivals bits ids = ids.eraseDups := List.take_of_length_le (Nat.le_of_lt few)
  rw [all, List.mem_eraseDups] at absent
  rw [all, arrivals, eraseDups_snoc, if_neg absent]
  apply List.take_of_length_le
  rw [List.length_append]
  exact few

/-! ### Putting states in, one after the other -/

/-- A palette holds just the given states, under their places in the list. -/
structure Holds (p : Palette) (bits : Nat) (held : List StateId) : Prop where
  sound : p.Sound
  width : p.bits = bits
  ids : p.ids.toList = held

variable {p q : Palette} {bits : Nat} {held ids : List StateId} {id : StateId}

theorem Holds.mem_iff (holds : p.Holds bits held) : id ∈ p.ids ↔ id ∈ held := by
  rw [← holds.ids, Array.mem_toList_iff]

theorem Holds.size_eq (holds : p.Holds bits held) : p.size = held.length := by
  rw [size, ← holds.ids, Array.length_toList]

theorem Holds.capacity_eq (holds : p.Holds bits held) : p.capacity = 2 ^ bits := by
  rw [capacity, holds.width]
  rfl

theorem Holds.state?_eq (holds : p.Holds bits held) (i : Nat) : p.state? i = held[i]? := by
  rw [state?, ← holds.ids, Array.getElem?_toList]

theorem Holds.indexOf?_eq_some_iff (holds : p.Holds bits held) {i : Nat} :
    p.indexOf? id = some i ↔ held[i]? = some id := by
  rw [Palette.indexOf?_eq_some_iff holds.sound, ← holds.state?_eq]
  rfl

theorem Holds.insert_cases (holds : p.Holds bits held) (id : StateId) :
    (∃ i, p.insert id = .present i ∧ held[i]? = some id) ∨
    (p.insert id = .inserted held.length (p.adding id) ∧ id ∉ held ∧ held.length < 2 ^ bits) ∨
    (p.insert id = .full ∧ id ∉ held ∧ held.length = 2 ^ bits) := by
  rw [← holds.mem_iff, ← holds.size_eq, ← holds.capacity_eq]
  rcases Palette.insert_cases holds.sound id with ⟨i, found, stored⟩ | ⟨added, absent, room⟩ | full
  · exact Or.inl ⟨i, found, holds.state?_eq i ▸ stored⟩
  · rw [adding_of_room holds.sound absent room]
    exact Or.inr (Or.inl ⟨added, absent, room⟩)
  · exact Or.inr (Or.inr full)

/-- A palette of the states that arrived stays one when the next state is put in. -/
theorem Holds.step (holds : p.Holds bits (arrivals bits ids)) (id : StateId) :
    (p.adding id).Holds bits (arrivals bits (ids ++ [id])) := by
  rcases holds.insert_cases id with ⟨i, found, stored⟩ | ⟨_, absent, room⟩ | ⟨refused, _, full⟩
  · rw [arrivals_snoc_of_mem (List.mem_of_getElem? stored), adding, found]
    exact holds
  · have unknown : id ∉ p.ids := fun member => absent (holds.mem_iff.mp member)
    have space : p.size < p.capacity := by
      rw [holds.size_eq, holds.capacity_eq]
      exact room
    rw [arrivals_snoc_of_room absent room, adding_of_room holds.sound unknown space]
    refine ⟨push_sound holds.sound unknown space, holds.width, ?_⟩
    rw [ids_push, Array.toList_push, holds.ids]
  · rw [arrivals_snoc_of_full full, adding, refused]
    exact holds

theorem filled_holds (le : bits ≤ maxBits) (ids : List StateId) :
    (filled bits ids).Holds bits (arrivals bits ids) := by
  induction ids using List.reverseRecOn with
  | nil => exact ⟨empty_sound le, rfl, by simp [filled, empty, arrivals]⟩
  | append_singleton ids id ih =>
    rw [filled_snoc]
    exact ih.step id

theorem Holds.present_iff (holds : p.Holds bits held) {i : Nat} :
    p.insert id = .present i ↔ held[i]? = some id := by
  rw [← holds.indexOf?_eq_some_iff, insert]
  split
  · rename_i index found
    rw [found, Insertion.present.injEq, Option.some.injEq]
  · rename_i absent
    rw [absent]
    split <;> simp

theorem Holds.full_iff (holds : p.Holds bits held) :
    p.insert id = .full ↔ id ∉ held ∧ p.size = 2 ^ bits := by
  rw [holds.size_eq]
  rcases holds.insert_cases id with ⟨i, found, stored⟩ | ⟨added, _, room⟩ | ⟨refused, full⟩
  · simp [found, List.mem_of_getElem? stored]
  · simp [added, Nat.ne_of_lt room]
  · simp [refused, full]

theorem Holds.inserted_iff (holds : p.Holds bits held) {i : Nat} : p.insert id = .inserted i q ↔
    id ∉ held ∧ p.size < 2 ^ bits ∧ i = p.size ∧ q = p.adding id := by
  rw [holds.size_eq]
  rcases holds.insert_cases id with ⟨i, found, stored⟩ | ⟨added, absent, room⟩ | ⟨refused, _, full⟩
  · simp [found, List.mem_of_getElem? stored]
  · simp [added, absent, room, eq_comm]
  · simp [refused, full]

/-! ### The moment of arrival -/

theorem gives_snoc {other : StateId} {index : Nat} : Gives bits (ids ++ [other]) id index ↔
    Gives bits ids id index ∨ other = id ∧ ∃ q, (filled bits ids).insert id = .inserted index q := by
  constructor
  · rintro ⟨early, late, q, split, added⟩
    rcases List.eq_nil_or_concat late with rfl | ⟨rest, last, rfl⟩
    · obtain ⟨rfl, same⟩ := List.append_inj' split rfl
      exact Or.inr ⟨List.singleton_inj.mp same, q, added⟩
    · rw [List.concat_eq_append, ← List.cons_append, ← List.append_assoc] at split
      obtain ⟨rfl, _⟩ := List.append_inj' split rfl
      exact Or.inl ⟨early, rest, q, rfl, added⟩
  · rintro (⟨early, late, q, rfl, added⟩ | ⟨rfl, q, added⟩)
    · exact ⟨early, late ++ [other], q, by simp, added⟩
    · exact ⟨ids, [], q, rfl, added⟩

theorem eq_of_inserted {i : Nat} (added : p.insert id = .inserted i q) : i = p.size ∧ q = p.push id := by
  unfold insert at added
  split at added
  · cases added
  · split at added
    · cases added
    · cases added
      exact ⟨rfl, rfl⟩

theorem adding_of_not_inserted (other : ∀ i q, p.insert id ≠ .inserted i q) : p.adding id = p := by
  unfold adding
  split
  · rename_i i q added
    exact absurd added (other i q)
  · rfl

theorem gives_iff (ids : List StateId) {index : Nat} :
    Gives bits ids id index ↔ (filled bits ids).state? index = some id := by
  induction ids using List.reverseRecOn with
  | nil => simp [Gives, filled, empty, state?]
  | append_singleton ids other ih =>
    rw [gives_snoc, ih, filled_snoc]
    by_cases placed : ∃ i q, (filled bits ids).insert other = .inserted i q
    · obtain ⟨i, q, added⟩ := placed
      obtain ⟨rfl, rfl⟩ := eq_of_inserted added
      rw [adding, added, state?, state?, ids_push, Array.getElem?_push]
      split
      · rename_i last
        rw [Array.getElem?_eq_none (Nat.le_of_eq last.symm), Option.some.injEq]
        refine (or_iff_right (Option.some_ne_none id).symm).trans (and_iff_left_of_imp ?_)
        rintro rfl
        rw [last]
        exact ⟨_, added⟩
      · rename_i earlier
        refine or_iff_left ?_
        rintro ⟨rfl, q, later⟩
        rw [added] at later
        cases later
        exact earlier rfl
    · have none : ¬ (other = id ∧ ∃ q, (filled bits ids).insert id = .inserted index q) := by
        rintro ⟨rfl, q, added⟩
        exact placed ⟨index, q, added⟩
      rw [or_iff_left none, adding_of_not_inserted fun i q added => placed ⟨i, q, added⟩]

/-! ### What a palette answers -/

/-- What is seen of a palette that states were put into. -/
structure Answers (p : Palette) (bits : Nat) (ids : List StateId) : Prop where
  size : p.size = (arrivals bits ids).length
  state : ∀ i, p.state? i = (arrivals bits ids)[i]?
  index : ∀ id i, p.indexOf? id = some i ↔ p.state? i = some id
  rising : p.sorted.toList.Pairwise fun a b => a.1 < b.1
  listed : ∀ id i, (id, i) ∈ p.sorted.toList ↔ p.state? i = some id
  given : ∀ id i, Gives bits ids id i ↔ p.state? i = some id
  present : ∀ id i, p.insert id = .present i ↔ Gives bits ids id i
  full : ∀ id, p.insert id = .full ↔ id ∉ arrivals bits ids ∧ p.size = 2 ^ bits
  inserted : ∀ id i q, p.insert id = .inserted i q ↔
    id ∉ arrivals bits ids ∧ p.size < 2 ^ bits ∧ i = p.size ∧ q = filled bits (ids ++ [id])
  unchanged : ∀ id, (∀ i q, p.insert id ≠ .inserted i q) → filled bits (ids ++ [id]) = p
  rebuilt : ∀ w ≤ 16, p.size ≤ 2 ^ w → ∃ q, p.rebuilt w = .ok q ∧ q.capacity = 2 ^ w ∧
    (∀ i, q.state? i = p.state? i) ∧ (∀ id, q.indexOf? id = p.indexOf? id) ∧
    q = filled w (arrivals bits ids)

theorem Holds.rebuilt_eq (holds : p.Holds bits held) {w : Nat} (le : w ≤ maxBits)
    (room : p.size ≤ 2 ^ w) : p.rebuilt w = .ok (filled w held) ∧ (filled w held).Holds w held := by
  obtain ⟨q, run, sound, ids, width⟩ := rebuilt_spec holds.sound room le
  have same : p.rebuilt w = .ok (filled w held) := by
    have roomy : ¬ Bits.capacity w < p.size := Nat.not_lt.mpr room
    rw [rebuilt, if_neg roomy, ofBits, if_pos le, filled, ← holds.ids, Array.foldl_toList]
    rfl
  cases run.symm.trans same
  exact ⟨same, sound, width, ids ▸ holds.ids⟩

/-- However many states were put into a new palette, it answers in the order of their arrival. -/
theorem filled_answers (le : bits ≤ 16) (ids : List StateId) :
    ofBits bits = .ok (empty bits) ∧ (filled bits ids).Answers bits ids := by
  have holds := filled_holds le ids
  refine ⟨if_pos le, holds.size_eq, holds.state?_eq, fun id i => ?_, holds.sound.rising,
    holds.sound.listed, fun id i => ?_, fun id i => ?_, fun id => holds.full_iff, fun id i q => ?_,
    fun id other => ?_, fun w narrow room => ?_⟩
  · rw [holds.indexOf?_eq_some_iff, holds.state?_eq]
  · rw [gives_iff]
  · rw [holds.present_iff, gives_iff, holds.state?_eq]
  · rw [holds.inserted_iff, filled_snoc]
  · rw [filled_snoc, adding_of_not_inserted other]
  · obtain ⟨run, moved⟩ := holds.rebuilt_eq narrow room
    refine ⟨_, run, moved.capacity_eq, fun i => ?_, fun id => Option.ext fun i => ?_, rfl⟩
    · rw [moved.state?_eq, holds.state?_eq]
    · rw [moved.indexOf?_eq_some_iff, holds.indexOf?_eq_some_iff]

theorem pair_answers : 1 ≤ 16 ∧ (filled 1 [0, 5]).insert 6 = .full ∧
    (filled 1 [0, 5]).insert 5 = .present 1 ∧ (filled 1 [0, 5, 6]).state? 2 = none ∧
    ∃ q, (filled 1 [0, 5]).rebuilt 2 = .ok q ∧ q.indexOf? 5 = some 1 ∧
      q.insert 6 = .inserted 2 (filled 2 [0, 5, 6]) := by
  have two := (filled_answers (by decide : 1 ≤ 16) [0, 5]).2
  have three := (filled_answers (by decide : 1 ≤ 16) [0, 5, 6]).2
  have wide := (filled_answers (by decide : 2 ≤ 16) [0, 5]).2
  have held : arrivals 1 [0, 5] = [0, 5] := by decide
  obtain ⟨q, run, _, states, indices, rfl⟩ := two.rebuilt 2 (by decide) (by rw [two.size]; decide)
  rw [held] at run states indices
  refine ⟨by decide, (two.full 6).mpr ⟨by decide, by rw [two.size]; decide⟩, ?_, ?_, _, run, ?_, ?_⟩
  · rw [two.present, two.given, two.state]
    decide
  · rw [three.state]
    decide
  · rw [wide.index, wide.state]
    decide
  · rw [wide.inserted, wide.size]
    exact ⟨by decide, by decide, by decide, rfl⟩

end Voxel.Palette
