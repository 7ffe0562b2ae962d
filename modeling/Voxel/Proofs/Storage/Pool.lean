import Voxel.Storage.Pool

/-!
# Buffers on loan

A pool accounts for every buffer that it lends, whatever is lent, copied, written and given back.
`Shelves.Filed` says that buffers wait on the shelf of their length, so that one lent again is as long as
was asked. `Balanced.step` is one step of a run and `run_accounts` the whole of it.
-/

namespace Voxel

namespace OrderedMap

variable {κ : Type} [DecidableEq κ]

theorem length_flatMap_put {α : Type} (k : κ) (items : List α) (es : List (κ × List α)) :
    ((put k items es).flatMap Prod.snd).length +
        ((es.find? fun e => e.1 = k).map fun e => e.2.length).getD 0 =
      (es.flatMap Prod.snd).length + items.length := by
  induction es with
  | nil => simp [put]
  | cons e rest ih =>
    by_cases same : e.1 = k
    · simp only [put, same, if_true, List.flatMap_cons, List.length_append, List.find?_cons,
        decide_true, Option.map_some, Option.getD_some]
      omega
    · simp only [put, same, if_false, List.flatMap_cons, List.length_append, List.find?_cons,
        decide_false]
      omega

end OrderedMap

namespace Shelves

variable {α : Type}

def Filed (s : Shelves α) : Prop := ∀ n, ∀ b ∈ s.shelf n, b.size = n

theorem length_insert (s : Shelves α) (n : Nat) (buffers : List (Array α)) :
    Shelves.length ⟨s.byLength.insert n buffers⟩ + (s.shelf n).length = s.length + buffers.length := by
  have replaced : ((s.byLength.entries.find? fun e => e.1 = n).map fun e => e.2.length).getD 0 =
      (s.shelf n).length := by
    unfold shelf OrderedMap.find?
    cases s.byLength.entries.find? fun e => e.1 = n <;> rfl
  have total := OrderedMap.length_flatMap_put n buffers s.byLength.entries
  rw [replaced] at total
  exact total

theorem shelf_insert (s : Shelves α) (n m : Nat) (buffers : List (Array α)) :
    Shelves.shelf ⟨s.byLength.insert n buffers⟩ m = if m = n then buffers else s.shelf m := by
  rw [shelf, OrderedMap.find?_insert]
  split <;> rfl

theorem length_put (s : Shelves α) (b : Array α) : (s.put b).length = s.length + 1 := by
  have replaced := s.length_insert b.size (b :: s.shelf b.size)
  rw [List.length_cons] at replaced
  unfold put
  omega

theorem Filed.put {s : Shelves α} (filed : s.Filed) (b : Array α) : (s.put b).Filed := by
  intro n c there
  rw [Shelves.put, shelf_insert] at there
  split at there
  · rename_i here
    rcases List.mem_cons.mp there with rfl | old
    · exact here.symm
    · exact here ▸ filed b.size c old
  · exact filed n c there

/-- What is taken was on the shelf of the length that was asked for, and is not there any more. -/
theorem take?_cases (s : Shelves α) (n : Nat) :
    (∃ b rest, s.shelf n = b :: rest ∧ s.take? n = some (b, ⟨s.byLength.insert n rest⟩)) ∨
    (s.shelf n = [] ∧ s.take? n = none) := by
  unfold shelf take?
  match s.byLength.find? n with
  | some (b :: rest) => exact Or.inl ⟨b, rest, rfl, rfl⟩
  | some [] => exact Or.inr ⟨rfl, rfl⟩
  | none => exact Or.inr ⟨rfl, rfl⟩

theorem length_take {s t : Shelves α} {n : Nat} {b : Array α} (taken : s.take? n = some (b, t)) :
    t.length + 1 = s.length := by
  obtain ⟨c, rest, shelf, took⟩ | ⟨_, none⟩ := s.take?_cases n
  · rw [took] at taken
    cases taken
    have replaced := s.length_insert n rest
    rw [shelf, List.length_cons] at replaced
    omega
  · rw [none] at taken
    cases taken

theorem Filed.take {s t : Shelves α} {n : Nat} {b : Array α} (filed : s.Filed)
    (taken : s.take? n = some (b, t)) : b.size = n ∧ t.Filed := by
  obtain ⟨c, rest, shelf, took⟩ | ⟨_, none⟩ := s.take?_cases n
  · rw [took] at taken
    cases taken
    refine ⟨filed n b (shelf ▸ List.mem_cons_self), fun m d there => ?_⟩
    rw [shelf_insert] at there
    split at there
    · rename_i here
      exact here ▸ filed n d (shelf ▸ List.mem_cons_of_mem _ there)
    · exact filed m d there
  · rw [none] at taken
    cases taken

end Shelves

namespace Pool

variable {α : Type} {p : Pool α}

theorem overwrite_eq {buffer items : Array α} (size : buffer.size = items.size) :
    overwrite buffer items = items := by
  unfold overwrite
  refine Array.ext (by rw [Array.size_mapIdx, size]) fun i left right => ?_
  rw [Array.getElem_mapIdx, Array.getD_eq_getD_getElem?, Array.getElem?_eq_getElem right]
  rfl

/-! ### One buffer -/

/-- The counts are right, the shelves are in order and hold no more than they may. -/
structure Balanced (p : Pool α) (capacity live : Nat) : Prop where
  limit : p.capacity = capacity
  balance : p.acquired = p.released + live
  idle_capacity : p.idle.length ≤ capacity
  idle_released : p.idle.length ≤ p.released
  filed : p.idle.Filed

variable {capacity live : Nat}

theorem fresh_balanced (capacity : Nat) : (fresh capacity : Pool α).Balanced capacity 0 :=
  ⟨rfl, rfl, Nat.zero_le _, Nat.le_refl 0, fun _ _ absent => nomatch absent⟩

theorem Balanced.release (balanced : p.Balanced capacity (live + 1)) (b : Array α) :
    (p.release b).Balanced capacity live := by
  obtain ⟨limit, balance, idle_capacity, idle_released, filed⟩ := balanced
  have lent : (p.release b).acquired = p.acquired := rfl
  have counted : (p.release b).released = p.released + 1 := rfl
  by_cases room : p.idle.length < p.capacity
  · have idle : (p.release b).idle = p.idle.put b := if_pos room
    have more := p.idle.length_put b
    rw [← idle] at more
    exact ⟨limit, by omega, by omega, by omega, idle ▸ filed.put b⟩
  · have idle : (p.release b).idle = p.idle := if_neg room
    exact ⟨limit, by omega, idle ▸ idle_capacity, by rw [idle]; omega, idle ▸ filed⟩

variable [Inhabited α]

theorem Balanced.acquire (balanced : p.Balanced capacity live) (n : Nat) :
    (p.acquire n).1.Balanced capacity (live + 1) ∧ (p.acquire n).2 = Array.replicate n default ∧
      (p.acquire n).1.acquired = p.acquired + 1 := by
  obtain ⟨limit, balance, idle_capacity, idle_released, filed⟩ := balanced
  have count : p.acquired + 1 = p.released + (live + 1) := by omega
  unfold Pool.acquire
  cases taken : p.idle.take? n with
  | some lent =>
    obtain ⟨b, idle⟩ := lent
    have fewer := Shelves.length_take taken
    obtain ⟨size, filed⟩ := filed.take taken
    have within : idle.length ≤ capacity := by omega
    have returned : idle.length ≤ p.released := by omega
    -- whatever is in the buffer, every item of it is cleared
    have cleared : b.map (fun _ => default) = Array.replicate n (default : α) :=
      Array.ext (by simp [size]) (by simp)
    exact ⟨⟨limit, count, within, returned, filed⟩, cleared, rfl⟩
  | none => exact ⟨⟨limit, count, idle_capacity, idle_released, filed⟩, rfl, rfl⟩

theorem Balanced.acquireCopy (balanced : p.Balanced capacity live) (items : Array α) :
    (p.acquireCopy items).1.Balanced capacity (live + 1) ∧ (p.acquireCopy items).2 = items ∧
      (p.acquireCopy items).1.acquired = p.acquired + 1 := by
  obtain ⟨after, lent, counted⟩ := balanced.acquire items.size
  have size : (p.acquire items.size).2.size = items.size := by rw [lent, Array.size_replicate]
  exact ⟨after, overwrite_eq size, counted⟩

end Pool

/-! ### Runs -/

/-- A pool with the buffers that it lent and that were not given back. -/
structure Lending (α : Type) where
  pool : Pool α
  live : List (Array α)

namespace Lending

variable {α : Type}

inductive Act (α : Type)
  | acquire (length : Nat)
  | acquireCopy (items : Array α)
  | clone (place : Nat)
  | write (place index : Nat) (item : α)
  | drop (place : Nat)

def start (capacity : Nat) : Lending α := ⟨.fresh capacity, []⟩

def lend (x : Lending α) (lent : Pool α × Array α) : Lending α × Option (Array α) :=
  (⟨lent.1, x.live ++ [lent.2]⟩, some lent.2)

variable [Inhabited α]

/-- The lending after something was done, with the buffer that was lent. -/
def step (x : Lending α) : Act α → Lending α × Option (Array α)
  | .acquire length => x.lend (x.pool.acquire length)
  | .acquireCopy items => x.lend (x.pool.acquireCopy items)
  | .clone place =>
    match x.live[place]? with
    | some b => x.lend (x.pool.acquireCopy b)
    | none => (x, none)
  | .write place index item =>
    ({ x with live := x.live.modify place (·.setIfInBounds index item) }, none)
  | .drop place =>
    match x.live[place]? with
    | some b => (⟨x.pool.release b, x.live.eraseIdx place⟩, none)
    | none => (x, none)

def run (x : Lending α) (acts : List (Act α)) : Lending α := acts.foldl (fun y a => (y.step a).1) x

/-- The pool counts the buffers on loan, after so many steps at most. -/
structure Sound (x : Lending α) (capacity steps : Nat) : Prop where
  balanced : x.pool.Balanced capacity x.live.length
  acquired_le : x.pool.acquired ≤ steps

variable {x : Lending α} {capacity steps : Nat}

omit [Inhabited α] in
theorem Sound.lend (sound : x.Sound capacity steps) {lent : Pool α × Array α}
    (balanced : lent.1.Balanced capacity (x.live.length + 1))
    (counted : lent.1.acquired = x.pool.acquired + 1) :
    (x.lend lent).1.Sound capacity (steps + 1) := by
  refine ⟨?_, ?_⟩
  · rw [Lending.lend, List.length_append]
    exact balanced
  · rw [Lending.lend, counted]
    exact Nat.succ_le_succ sound.acquired_le

theorem step_clone {place : Nat} {b : Array α} (there : x.live[place]? = some b) :
    x.step (.clone place) = x.lend (x.pool.acquireCopy b) := by
  rw [step, there]

theorem Sound.step (sound : x.Sound capacity steps) (a : Act α) :
    (x.step a).1.Sound capacity (steps + 1) := by
  have kept : x.Sound capacity (steps + 1) := ⟨sound.balanced, Nat.le_succ_of_le sound.acquired_le⟩
  cases a with
  | acquire n =>
    obtain ⟨balanced, _, counted⟩ := sound.balanced.acquire n
    exact sound.lend balanced counted
  | acquireCopy items =>
    obtain ⟨balanced, _, counted⟩ := sound.balanced.acquireCopy items
    exact sound.lend balanced counted
  | clone place =>
    cases there : x.live[place]? with
    | some b =>
      obtain ⟨balanced, _, counted⟩ := sound.balanced.acquireCopy b
      rw [step_clone there]
      exact sound.lend balanced counted
    | none =>
      simp only [Lending.step, there]
      exact kept
  | write place index item =>
    refine ⟨?_, kept.acquired_le⟩
    rw [Lending.step, List.length_modify]
    exact kept.balanced
  | drop place =>
    cases there : x.live[place]? with
    | some b =>
      have inside : place < x.live.length := (List.getElem?_eq_some_iff.mp there).1
      have one_less : (x.live.eraseIdx place).length + 1 = x.live.length := by
        rw [List.length_eraseIdx_of_lt inside]
        omega
      simp only [Lending.step, there]
      exact ⟨(one_less ▸ sound.balanced).release b, kept.acquired_le⟩
    | none =>
      simp only [Lending.step, there]
      exact kept

theorem Sound.run (sound : x.Sound capacity steps) (acts : List (Act α)) :
    (x.run acts).Sound capacity (steps + acts.length) := by
  induction acts generalizing x steps with
  | nil => exact sound
  | cons a rest ih =>
    rw [List.length_cons, Nat.add_comm rest.length, ← Nat.add_assoc]
    exact ih (sound.step a)

/-- What is seen of a pool and its buffers after so many steps. The counts never exceed the steps, so
they fit into a machine word for as long as the steps do. -/
structure Accounts (x : Lending α) (capacity steps : Nat) : Prop where
  balance : x.pool.acquired = x.pool.released + x.live.length
  outstanding : x.pool.outstanding = x.live.length
  acquired_le : x.pool.acquired ≤ steps
  idle_capacity : x.pool.idle.length ≤ capacity
  idle_released : x.pool.idle.length ≤ x.pool.released
  filed : ∀ n, ∀ b ∈ x.pool.idle.shelf n, b.size = n
  acquire : ∀ n, ∃ pool, x.step (.acquire n) =
    (⟨pool, x.live ++ [Array.replicate n default]⟩, some (Array.replicate n default))
  acquireCopy : ∀ items, ∃ pool, x.step (.acquireCopy items) =
    (⟨pool, x.live ++ [items]⟩, some items)
  clone : ∀ place b, x.live[place]? = some b →
    ∃ pool, x.step (.clone place) = (⟨pool, x.live ++ [b]⟩, some b)

theorem Sound.accounts (sound : x.Sound capacity steps) : x.Accounts capacity steps where
  balance := sound.balanced.balance
  outstanding := by
    rw [Pool.outstanding, sound.balanced.balance, Nat.add_sub_cancel_left]
  acquired_le := sound.acquired_le
  idle_capacity := sound.balanced.idle_capacity
  idle_released := sound.balanced.idle_released
  filed := sound.balanced.filed
  acquire n := by
    obtain ⟨_, lent, _⟩ := sound.balanced.acquire n
    exact ⟨_, by rw [Lending.step, Lending.lend, lent]⟩
  acquireCopy items := by
    obtain ⟨_, lent, _⟩ := sound.balanced.acquireCopy items
    exact ⟨_, by rw [Lending.step, Lending.lend, lent]⟩
  clone place b there := by
    obtain ⟨_, lent, _⟩ := sound.balanced.acquireCopy b
    exact ⟨_, by rw [step_clone there, Lending.lend, lent]⟩

/-- A pool accounts for its buffers throughout every run. -/
theorem run_accounts (capacity : Nat) (acts : List (Act α)) :
    ((start capacity).run acts).Accounts capacity acts.length := by
  have first : (start capacity : Lending α).Sound capacity 0 :=
    ⟨Pool.fresh_balanced capacity, Nat.le_refl 0⟩
  have sound := first.run acts
  rw [Nat.zero_add] at sound
  exact sound.accounts

end Lending
end Voxel
