import Voxel.Proofs.Storage.Legacy
import Voxel.Proofs.Storage.Pool
import Voxel.Storage.Basic
import Voxel.Storage.Depot

/-!
# Buffers in use

Operations tell their pool of each buffer that they take or give back. `Event.Trail` follows the number in
use through such events, and never lets a buffer go back that was not in use. `Report.Uses` is what an
operation owes its pool: as many in use as its outcome has, or, if it fails, as many as before.
`Storage.write_uses` shows it for writes. A flat storage has one buffer however often it grows
(`Flat.store_uses`), and a storage in the old layout two, or three once it has high bits (`Legacy.put_uses`).
-/

namespace Voxel

/-- Events by which the number of buffers in use goes from one number to another. -/
inductive Event.Trail : Nat → List Event → Nat → Prop
  | done (n : Nat) : Trail n [] n
  | logged {n m : Nat} {r : Log.Record} {es : List Event} (rest : Trail n es m) :
      Trail n (.logged r :: es) m
  | acquired {n m length : Nat} {es : List Event} (rest : Trail (n + 1) es m) :
      Trail n (.acquired length :: es) m
  | released {n m length : Nat} {es : List Event} (rest : Trail n es m) :
      Trail (n + 1) (.released length :: es) m

theorem Event.Trail.append {n m k : Nat} {es fs : List Event} (first : Trail n es m)
    (second : Trail m fs k) : Trail n (es ++ fs) k := by
  induction first with
  | done => exact second
  | logged _ ih => exact .logged (ih second)
  | acquired _ ih => exact .acquired (ih second)
  | released _ ih => exact .released (ih second)

namespace Report

variable {α β : Type}

/-- The number of buffers in use goes from one to what the outcome needs, or ends where it began. -/
def Uses (x : Report α) (before : Nat) (after : α → Nat) : Prop :=
  Event.Trail before x.events.toList
    (match x.result with
    | .ok a => after a
    | .error _ => before)

section

variable {n : Nat} {after : α → Nat}

theorem uses_pure {a : α} (same : after a = n) : (pure a : Report α).Uses n after := same ▸ .done _

theorem uses_fail (e : Failure) : (fail e : Report α).Uses n after := .done n

theorem uses_lift {x : Except Failure α} (same : ∀ a, x = .ok a → after a = n) :
    (liftM x : Report α).Uses n after := by
  cases x with
  | ok a => exact same a rfl ▸ .done _
  | error e => exact .done n

theorem uses_liftError {x : Except BlockError α} (same : ∀ a, x = .ok a → after a = n) :
    (liftM x : Report α).Uses n after := by
  cases x with
  | ok a => exact same a rfl ▸ .done _
  | error e => exact .done n

theorem Uses.bind {x : Report β} {f : β → Report α} (first : x.Uses n fun _ => n)
    (rest : ∀ b, x.result = .ok b → (f b).Uses n after) : (x >>= f).Uses n after := by
  obtain ⟨events, _ | b⟩ := x
  · exact first
  · show Event.Trail n (events ++ (f b).events).toList _
    rw [Array.toList_append]
    exact first.append (rest b rfl)

/-- What comes after an operation may not fail, if that has changed what is in use. -/
theorem Uses.bind_total {mid : β → Nat} {x : Report β} {f : β → Report α} (first : x.Uses n mid)
    (rest : ∀ b, x.result = .ok b → ∃ a, f b = pure a ∧ after a = mid b) : (x >>= f).Uses n after := by
  obtain ⟨events, _ | b⟩ := x
  · exact first
  · obtain ⟨a, done, same⟩ := rest b rfl
    show (⟨events ++ (f b).events, (f b).result⟩ : Report α).Uses n after
    rw [done]
    show Event.Trail n (events ++ #[]).toList (after a)
    rw [Array.append_empty, same]
    exact first

theorem Uses.map {x : Report β} {g : β → α} (uses : x.Uses n fun b => after (g b)) :
    (g <$> x).Uses n after := by
  obtain ⟨events, _ | b⟩ := x
  · exact uses
  · show Event.Trail n (events ++ #[]).toList _
    rw [Array.append_empty]
    exact uses

end

end Report

/-! ### Writes -/

/-- However often it grows, a flat storage has one buffer: it takes the new one and gives the old one back. -/
theorem Flat.store_uses (r : Registry) (s : Flat) (c : Cell) (id : StateId) (n : Nat) :
    (s.store r c id).Uses n fun _ => n := by
  fun_induction Flat.store r s c id with
  | case1 s e failed => exact Report.uses_fail e
  | case2 s t placed => exact Report.uses_pure rfl
  | case3 s full e failed => exact Report.uses_fail e
  | case4 s full g grown ih =>
    show Event.Trail n (#[Event.acquired g.storage.cells.words.size] ++
      (#[Event.logged ⟨.debug, g.message⟩] ++
        (#[Event.released s.cells.words.size] ++ (store r g.storage c id).events))).toList _
    simp only [Array.toList_append, List.cons_append, List.nil_append]
    exact .acquired (.logged (.released ih))

theorem Flat.write_uses (r : Registry) (s : Flat) (c : Cell) (id : StateId) (n : Nat) :
    (s.write r c id).Uses n fun _ => n := by
  rw [write]
  split
  · exact s.store_uses r c id n
  · exact Report.uses_fail _

namespace Legacy

def count (s : Legacy) : Nat := if s.hasHigh then 3 else 2

variable (s : Legacy) (p : Position) (n : Nat)

theorem setId_uses (id : UInt16) : (s.setId p id).Uses (n + s.count) fun t => n + t.count := by
  refine Report.Uses.bind (Report.uses_liftError fun _ _ => rfl) fun _ _ => ?_
  refine Report.Uses.bind (Report.uses_lift fun _ _ => rfl) fun c _ => ?_
  have raised := s.hasHigh_putId c id
  dsimp only
  split
  · rename_i first
    obtain ⟨now, before⟩ := Bool.and_eq_true_iff.mp first
    have two : s.count = 2 := by rw [count, if_neg (by simpa using before)]
    have three : (s.putId c id).count = 3 := by rw [count, if_pos now]
    rw [two]
    show Event.Trail (n + 2) [Event.acquired halfVolume] (n + (s.putId c id).count)
    rw [three]
    exact .acquired (.done (n + 3))
  · rename_i same
    have same : (s.putId c id).hasHigh = s.hasHigh := by
      rw [Bool.eq_iff_iff]
      refine ⟨fun now => by_contra fun before => same ?_, fun before => raised.mpr (Or.inl before)⟩
      rw [now, Bool.eq_false_iff.mpr before]
      rfl
    exact Report.uses_pure (by rw [count, same, count])

theorem setData_uses (data : UInt8) : (s.setData p data).Uses (n + s.count) fun t => n + t.count := by
  refine Report.Uses.bind (Report.uses_liftError fun _ _ => rfl) fun _ _ => ?_
  refine Report.Uses.bind (Report.uses_lift fun _ _ => rfl) fun c _ => ?_
  exact Report.uses_pure rfl

theorem setPair_uses (x : LegacyPair) : (s.setPair p x).Uses (n + s.count) fun t => n + t.count := by
  refine Report.Uses.bind (Report.uses_liftError fun _ _ => rfl) fun _ _ => ?_
  refine (s.setId_uses p n x.id).bind_total fun t numbered => ?_
  -- a cell that the block number went to is there for the data as well
  rw [result_setId] at numbered
  split at numbered
  · obtain ⟨c, inside, rfl⟩ := Outcome.map_ok numbered
    rw [inside]
    exact ⟨_, rfl, rfl⟩
  · cases numbered

theorem put_uses (e : Entry) : (s.put p e).Uses (n + s.count) fun t => n + t.count := by
  cases e with
  | pair x => exact s.setPair_uses p n x
  | number id => exact s.setId_uses p n id
  | data bits => exact s.setData_uses p n bits

theorem write_uses (r : Registry) (id : StateId) :
    (s.write r p id).Uses (n + s.count) fun t => n + t.count := by
  refine Report.Uses.bind (Report.uses_liftError fun _ _ => rfl) fun t _ => ?_
  split
  · exact s.setPair_uses p n _
  · exact Report.uses_fail _

end Legacy

namespace Layout

def width : Layout → Width
  | flat _ => .word
  | legacy _ => .byte

theorem length_buffers_word {l : Layout} (word : l.width = .word) : l.buffers.length = 1 := by
  cases l with
  | flat s => rfl
  | legacy s => cases word

@[simp] theorem length_buffers_legacy (s : Legacy) : (legacy s).buffers.length = s.count := by
  show ([volume, halfVolume] ++ if s.hasHigh then [halfVolume] else []).length = s.count
  rw [Legacy.count]
  split <;> rfl

theorem write_uses (home : Registry) (l : Layout) (p : Position) (id : StateId) (n : Nat) :
    (l.write home p id).Uses (n + l.buffers.length) fun m => n + m.buffers.length := by
  cases l with
  | flat s =>
    refine Report.Uses.bind (Report.uses_lift fun _ _ => rfl) fun c _ => Report.Uses.map ?_
    exact s.write_uses home c id (n + 1)
  | legacy s =>
    refine Report.Uses.map ?_
    simp only [length_buffers_legacy]
    exact s.write_uses p n home id

theorem width_write {home : Registry} {l m : Layout} {p : Position} {id : StateId}
    (wrote : (l.write home p id).result = .ok m) : m.width = l.width := by
  cases l with
  | flat s =>
    rw [write, Report.result_bind] at wrote
    obtain ⟨c, _, wrote⟩ := Outcome.bind_ok wrote
    rw [Report.result_map] at wrote
    obtain ⟨t, _, rfl⟩ := Outcome.map_ok wrote
    rfl
  | legacy s =>
    rw [write, Report.result_map] at wrote
    obtain ⟨t, _, rfl⟩ := Outcome.map_ok wrote
    rfl

theorem width_clone {l m : Layout} (cloned : l.clone = .ok m) : m.width = l.width := by
  cases l with
  | flat s =>
    obtain ⟨t, _, rfl⟩ := Outcome.map_ok cloned
    rfl
  | legacy s =>
    cases cloned
    rfl

end Layout

namespace Storage

variable (f : Frame) (s : Storage) (p : Position) (n : Nat)

theorem write_uses (id : StateId) : (s.write f p id).Uses (n + s.layout.buffers.length)
    fun t => n + t.layout.buffers.length := by
  unfold write
  split
  · exact (s.layout.write_uses f.home p id n).bind_total fun _ _ => ⟨_, rfl, rfl⟩
  · dsimp only
    split
    · exact Report.uses_fail _
    · exact (s.layout.write_uses f.home p _ n).bind_total fun _ _ => ⟨_, rfl, rfl⟩

theorem writeState_uses (t : BlockState) : (s.writeState f p t).Uses (n + s.layout.buffers.length)
    fun t => n + t.layout.buffers.length := by
  unfold writeState
  split
  · exact s.write_uses f p n _
  · exact Report.uses_fail _

variable {f s p}

theorem width_write {id : StateId} {t : Storage} (wrote : (s.write f p id).result = .ok t) :
    t.layout.width = s.layout.width := by
  unfold write at wrote
  split at wrote
  · rw [Report.result_bind] at wrote
    obtain ⟨m, written, same⟩ := Outcome.bind_ok wrote
    cases same
    exact Layout.width_write written
  · dsimp only at wrote
    split at wrote
    · cases wrote
    · rw [Report.result_bind] at wrote
      obtain ⟨m, written, same⟩ := Outcome.bind_ok wrote
      cases same
      exact Layout.width_write written

theorem width_writeState {u : BlockState} {t : Storage} (wrote : (s.writeState f p u).result = .ok t) :
    t.layout.width = s.layout.width := by
  unfold writeState at wrote
  split at wrote
  · exact width_write wrote
  · cases wrote

end Storage

/-! ### Pools -/

namespace Depot

def Has (d : Depot) (r : PoolRef) : Prop := r.place < (d.pools r.width).size

theorem pools_replace (d : Depot) (w : Width) (ps : Array (Pool w.Item)) :
    (d.replace w ps).pools w = ps := by
  cases w <;> rfl

theorem pools_replace_other (d : Depot) {v w : Width} (other : v ≠ w) (ps : Array (Pool w.Item)) :
    (d.replace w ps).pools v = d.pools v := by
  cases v <;> cases w <;> first | rfl | exact absurd rfl other

section

variable (d : Depot) (r q : PoolRef) (f : Pool r.width.Item → Pool r.width.Item)

theorem has_modify : (d.modify r f).Has q ↔ d.Has q := by
  obtain ⟨v, place⟩ := q
  unfold Has modify
  by_cases same : v = r.width
  · subst same
    rw [pools_replace, Array.size_modify]
  · rw [pools_replace_other d same]

variable {d r q}

theorem pool_modify (here : d.Has r) : (d.modify r f).pool r = f (d.pool r) := by
  unfold Has at here
  rw [pool, modify, pools_replace, Array.getElem?_modify, if_pos rfl, pool,
    Array.getElem?_eq_getElem here]
  rfl

theorem pool_modify_other (other : q ≠ r) : (d.modify r f).pool q = d.pool q := by
  obtain ⟨v, place⟩ := q
  unfold pool modify
  by_cases same : v = r.width
  · subst same
    have apart : r.place ≠ place := fun equal => other (equal ▸ rfl)
    rw [pools_replace, Array.getElem?_modify, if_neg apart]
  · rw [pools_replace_other d same]

end

/-! ### New pools -/

section

variable (d : Depot) (w : Width) (capacity : Nat)

theorem has_add : (d.add w capacity).1.Has (d.add w capacity).2 := by
  rw [Has, add, pools_replace, Array.size_push]
  exact Nat.lt_succ_self _

theorem not_has_add : ¬ d.Has (d.add w capacity).2 := Nat.lt_irrefl _

theorem has_add_of_has {q : PoolRef} (here : d.Has q) : (d.add w capacity).1.Has q := by
  obtain ⟨v, place⟩ := q
  unfold Has at here ⊢
  by_cases same : v = w
  · subst same
    rw [add, pools_replace, Array.size_push]
    exact Nat.lt_succ_of_lt here
  · rw [add, pools_replace_other d same]
    exact here

theorem pool_add : (d.add w capacity).1.pool (d.add w capacity).2 = .fresh capacity := by
  rw [pool, add, pools_replace, Array.getElem?_push_size]
  rfl

theorem pool_add_other {q : PoolRef} (other : q ≠ (d.add w capacity).2) :
    (d.add w capacity).1.pool q = d.pool q := by
  obtain ⟨v, place⟩ := q
  unfold pool
  by_cases same : v = w
  · subst same
    have apart : place ≠ (d.pools v).size := fun equal => other (equal ▸ rfl)
    rw [add, pools_replace, Array.getElem?_push, if_neg apart]
  · rw [add, pools_replace_other d same]

end

/-! ### Buffers lent and given back -/

/-- A pool goes from one number of buffers in use to another, and no other pool changes. -/
structure Turns (r : PoolRef) (n m : Nat) (d e : Depot) : Prop where
  has : ∀ q, d.Has q → e.Has q
  others : ∀ q, q ≠ r → e.pool q = d.pool q
  balanced : ∀ capacity, (d.pool r).Balanced capacity n → (e.pool r).Balanced capacity m

section

variable {d e f : Depot} {r : PoolRef} {n m k : Nat}

theorem Turns.refl (r : PoolRef) (n : Nat) (d : Depot) : Turns r n n d d :=
  ⟨fun _ here => here, fun _ _ => rfl, fun _ balanced => balanced⟩

theorem Turns.trans (first : Turns r n m d e) (second : Turns r m k e f) : Turns r n k d f :=
  ⟨fun q here => second.has q (first.has q here),
    fun q other => (second.others q other).trans (first.others q other),
    fun capacity balanced => second.balanced capacity (first.balanced capacity balanced)⟩

variable (here : d.Has r)
include here

theorem acquire_turns (n length : Nat) : Turns r n (n + 1) d (d.acquire r length) := by
  refine ⟨fun q there => ?_, fun q other => pool_modify_other _ other, fun capacity balanced => ?_⟩
  · rw [acquire, has_modify]
    exact there
  · rw [acquire, pool_modify _ here]
    exact (balanced.acquire length).1

theorem release_turns (n length : Nat) : Turns r (n + 1) n d (d.release r length) := by
  refine ⟨fun q there => ?_, fun q other => pool_modify_other _ other, fun capacity balanced => ?_⟩
  · rw [release, has_modify]
    exact there
  · rw [release, pool_modify _ here]
    exact balanced.release _

theorem acquireAll_turns (lengths : List Nat) (n : Nat) :
    Turns r n (n + lengths.length) d (lengths.foldl (fun d k => d.acquire r k) d) := by
  induction lengths generalizing d n with
  | nil => exact .refl r n d
  | cons k rest ih =>
    have first := acquire_turns here n k
    rw [List.foldl_cons, List.length_cons, Nat.add_comm rest.length, ← Nat.add_assoc]
    exact first.trans (ih (first.has r here) (n + 1))

theorem releaseAll_turns (lengths : List Nat) (n : Nat) :
    Turns r (n + lengths.length) n d (lengths.foldl (fun d k => d.release r k) d) := by
  induction lengths generalizing d with
  | nil => exact .refl r n d
  | cons k rest ih =>
    have first := release_turns here (n + rest.length) k
    exact first.trans (ih (first.has r here))

theorem book_turns {es : List Event} (trail : Event.Trail n es m) :
    Turns r n m d (es.foldl (book r) d) := by
  induction trail generalizing d with
  | done n => exact .refl r n d
  | logged _ ih => exact ih here
  | @acquired n _ length _ _ ih =>
    have first := acquire_turns here n length
    exact first.trans (ih (first.has r here))
  | @released n _ length _ _ ih =>
    have first := release_turns here n length
    exact first.trans (ih (first.has r here))

end

end Depot

end Voxel
