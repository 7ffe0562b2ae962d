/-!
Numbers in a mixed radix, most significant digit first. With sizes `[a, b, c]` the digits
`[x, y, z]` stand for `(x * b + y) * c + z`. Numbers below the product of the sizes correspond to
the lists of digits, each below its size. Setting a digit leaves the others. What comes of it is
listed for all numbers, places and digits in a table of moves, where it stands at a known slot.
-/
namespace Voxel.Radix

def total : List Nat → Nat
  | [] => 1
  | size :: rest => size * total rest

/-- What one step of the digit at a place is worth: the product of the sizes after it. -/
def weight (sizes : List Nat) (place : Nat) : Nat := total (sizes.drop (place + 1))

def digit (sizes : List Nat) (n place : Nat) : Nat := n / weight sizes place % sizes.getD place 1

def digits : List Nat → Nat → List Nat
  | [], _ => []
  | size :: rest, n => n / total rest % size :: digits rest n

/-- The number that digits stand for. -/
def number : List Nat → List Nat → Nat
  | _ :: rest, d :: ds => d * total rest + number rest ds
  | _, _ => 0

/-- The number with the digit at a place replaced. -/
def set (sizes : List Nat) (n place d : Nat) : Nat :=
  n - weight sizes place * digit sizes n place + weight sizes place * d

theorem total_pos {sizes : List Nat} (h : ∀ s ∈ sizes, 0 < s) : 0 < total sizes := by
  induction sizes with
  | nil => simp [total]
  | cons s rest ih =>
    simp only [total]
    exact Nat.mul_pos (h s (by simp)) (ih fun t ht => h t (by simp [ht]))

theorem total_eq {sizes : List Nat} {place : Nat} (h : place < sizes.length) :
    total sizes = total (sizes.take place) * (sizes.getD place 1 * weight sizes place) := by
  induction sizes generalizing place with
  | nil => simp at h
  | cons s rest ih =>
    cases place with
    | zero => simp [total, weight]
    | succ place =>
      have := @ih place (by simpa using h)
      simp only [weight] at this
      simp [total, weight, this, Nat.mul_assoc]

theorem set_lt {sizes : List Nat} {n place d : Nat} (hn : n < total sizes)
    (hp : place < sizes.length) (hd : d < sizes.getD place 1) :
    set sizes n place d < total sizes := by
  rw [total_eq hp] at hn ⊢
  unfold set digit
  generalize total (sizes.take place) = high at *
  generalize sizes.getD place 1 = size at *
  generalize weight sizes place = w at *
  have hw : 0 < w := by
    rcases Nat.eq_zero_or_pos w with h | h
    · simp [h] at hn
    · exact h
  have hq : n / w / size < high := by
    rw [Nat.div_div_eq_div_mul, Nat.mul_comm w, Nat.div_lt_iff_lt_mul (Nat.mul_pos (by omega) hw)]
    exact hn
  have low := Nat.mod_lt n hw
  have h₁ := Nat.div_add_mod n w
  have h₂ : w * (n / w) = w * (size * (n / w / size)) + w * (n / w % size) := by
    rw [← Nat.mul_add, Nat.div_add_mod]
  have h₃ : w * d + w ≤ w * size := by
    rw [← Nat.mul_succ]
    exact Nat.mul_le_mul_left w hd
  have h₄ : w * (size * (n / w / size)) + w * size ≤ high * (size * w) := by
    have := Nat.mul_le_mul_right (size * w) hq
    rw [Nat.succ_mul] at this
    have e : w * (size * (n / w / size)) = n / w / size * (size * w) := by
      rw [Nat.mul_left_comm, Nat.mul_comm w, ← Nat.mul_assoc, Nat.mul_comm size, Nat.mul_assoc]
    rw [e, Nat.mul_comm w size]
    exact this
  omega

/-! ### Moves -/

def rowLength : List Nat → Nat
  | [] => 0
  | size :: rest => size + rowLength rest

def pushPlace (sizes : List Nat) (n : Nat) (moves : Array Nat) (place : Nat) : Array Nat :=
  let worth := weight sizes place
  let stripped := n - worth * digit sizes n place
  (List.range (sizes.getD place 1)).foldl (fun moves d => moves.push (stripped + worth * d)) moves

def pushMoves (sizes : List Nat) (moves : Array Nat) (n : Nat) : Array Nat :=
  (List.range sizes.length).foldl (pushPlace sizes n) moves

/-- What each number becomes when one digit is replaced. The numbers have a row each, and the rows a
part for each place with an entry for each digit. -/
def moves (sizes : List Nat) : Array Nat :=
  (List.range (total sizes)).foldl (pushMoves sizes)
    (Array.emptyWithCapacity (total sizes * rowLength sizes))

/-- Where the number with the digit at a place replaced stands among the moves. -/
def slot (sizes : List Nat) (n place d : Nat) : Nat :=
  n * rowLength sizes + rowLength (sizes.take place) + d

theorem toList_foldl {α β : Type} {step : Array β → α → Array β} {row : α → List β}
    (appends : ∀ items x, (step items x).toList = items.toList ++ row x) (xs : List α)
    (items : Array β) : (xs.foldl step items).toList = items.toList ++ xs.flatMap row := by
  induction xs generalizing items with
  | nil => simp
  | cons x rest ih => rw [List.foldl_cons, ih, appends, List.flatMap_cons, List.append_assoc]

def movesAt (sizes : List Nat) (n place : Nat) : List Nat :=
  (List.range (sizes.getD place 1)).map (set sizes n place)

def movesOf (sizes : List Nat) (n : Nat) : List Nat :=
  (List.range sizes.length).flatMap (movesAt sizes n)

theorem toList_pushPlace (sizes : List Nat) (n : Nat) (moves : Array Nat) (place : Nat) :
    (pushPlace sizes n moves place).toList = moves.toList ++ movesAt sizes n place := by
  have appends : ∀ (items : Array Nat) d,
      (items.push (set sizes n place d)).toList = items.toList ++ [set sizes n place d] :=
    fun _ _ => Array.toList_push
  rw [movesAt, List.map_eq_flatMap]
  exact toList_foldl appends _ moves

theorem toList_moves (sizes : List Nat) :
    (moves sizes).toList = (List.range (total sizes)).flatMap (movesOf sizes) := by
  have rows : ∀ items n, (pushMoves sizes items n).toList = items.toList ++ movesOf sizes n :=
    fun items n => toList_foldl (toList_pushPlace sizes n) _ items
  rw [moves, toList_foldl rows]
  rfl

theorem getElem?_flatMap_range {α : Type} (row : Nat → List α) {count i j : Nat} (inside : i < count)
    (within : j < (row i).length) :
    ((List.range count).flatMap row)[((List.range i).flatMap row).length + j]? = (row i)[j]? := by
  obtain ⟨rest, rfl⟩ := Nat.exists_eq_add_of_lt inside
  rw [Nat.add_assoc, List.range_add, List.flatMap_append,
    List.getElem?_append_right (Nat.le_add_right _ _), Nat.add_sub_cancel_left,
    List.range_succ_eq_map, List.map_cons, List.flatMap_cons, Nat.add_zero,
    List.getElem?_append_left within]

theorem length_movesAt (sizes : List Nat) (n place : Nat) :
    (movesAt sizes n place).length = sizes.getD place 1 := by
  rw [movesAt, List.length_map, List.length_range]

theorem length_flatMap_movesAt (sizes : List Nat) (n : Nat) {place : Nat}
    (le : place ≤ sizes.length) :
    ((List.range place).flatMap (movesAt sizes n)).length = rowLength (sizes.take place) := by
  have total : ∀ l, rowLength l = l.sum := by
    intro l
    induction l with
    | nil => rfl
    | cons size rest ih => rw [rowLength, List.sum_cons, ih]
  rw [List.length_flatMap, total]
  refine congrArg List.sum (List.ext_getElem ?_ fun i h _ => ?_)
  · rw [List.length_map, List.length_range, List.length_take, Nat.min_eq_left le]
  · rw [List.length_map, List.length_range] at h
    rw [List.getElem_map, List.getElem_range, length_movesAt, List.getElem_take,
      List.getD_eq_getElem?_getD, List.getElem?_eq_getElem (Nat.lt_of_lt_of_le h le), Option.getD_some]

theorem length_flatMap_movesOf (sizes : List Nat) (n : Nat) :
    ((List.range n).flatMap (movesOf sizes)).length = n * rowLength sizes := by
  have each : ∀ m, (movesOf sizes m).length = rowLength sizes := fun m => by
    rw [movesOf, length_flatMap_movesAt sizes m (Nat.le_refl _), List.take_length]
  rw [List.length_flatMap, List.map_congr_left fun m _ => each m, List.map_const', List.length_range,
    List.sum_replicate_nat]

theorem getElem?_moves {sizes : List Nat} {n place d : Nat} (hn : n < total sizes)
    (hp : place < sizes.length) (hd : d < sizes.getD place 1) :
    (moves sizes)[slot sizes n place d]? = some (set sizes n place d) := by
  have inPart : (movesAt sizes n place)[d]? = some (set sizes n place d) := by
    rw [movesAt, List.getElem?_map, List.getElem?_range hd]
    rfl
  have inRow : (movesOf sizes n)[rowLength (sizes.take place) + d]? = some (set sizes n place d) := by
    rw [← length_flatMap_movesAt sizes n (Nat.le_of_lt hp), movesOf,
      getElem?_flatMap_range _ hp (length_movesAt sizes n place ▸ hd), inPart]
  have within := (List.getElem?_eq_some_iff.mp inRow).1
  rw [← Array.getElem?_toList, toList_moves, slot, Nat.add_assoc, ← length_flatMap_movesOf sizes n,
    getElem?_flatMap_range _ hn within, inRow]

end Voxel.Radix
