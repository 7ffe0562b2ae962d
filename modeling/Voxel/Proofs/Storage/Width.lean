import Mathlib.Data.Finset.Card
import Voxel.Proofs.Storage.Room

/-!
# Widths of flat storages

How wide the entries of a flat storage are depends on the set of states that were ever written to it.
`Carries` ties a storage to that set, and `Carries.write` puts one more state into both. `run_width`
is a whole run: a palette of the least width for its states, and after it numbers, which stay.
-/

namespace Voxel

namespace Palette

variable {p q : Palette} {id : StateId}

def states (p : Palette) : Finset StateId := p.ids.toList.toFinset

theorem mem_states : id ∈ p.states ↔ id ∈ p.ids := by simp [states]

theorem card_states (sound : p.Sound) : p.states.card = p.size := by
  rw [states, List.toFinset_card_of_nodup (nodup_ids sound), Array.length_toList, size]

theorem states_push (p : Palette) (id : StateId) : (p.push id).states = Insert.insert id p.states := by
  ext state
  simp only [mem_states, ids_push, Array.mem_push, Finset.mem_insert, or_comm]

theorem states_adding (sound : p.Sound) (room : id ∈ p.ids ∨ p.size < p.capacity) :
    (p.adding id).states = Insert.insert id p.states := by
  unfold adding
  rcases insert_cases sound id with ⟨index, present, stored⟩ | ⟨added, _, _⟩ | ⟨_, absent, full⟩
  · rw [present]
    exact (Finset.insert_eq_self.mpr (mem_states.mpr (Array.mem_of_getElem? stored))).symm
  · rw [added]
    exact states_push p id
  · exact absurd room (by simp [absent, full])

end Palette

namespace Flat

/-- The width of indices that tell a number of states apart. -/
def paletteBits (count : Nat) : Nat := max minBits (Nat.clog 2 count)

theorem paletteBits_succ {count : Nat} (room : count < 2 ^ paletteBits count) :
    paletteBits (count + 1) = paletteBits count := by
  have le : Nat.clog 2 (count + 1) ≤ paletteBits count := Nat.clog_le_of_le_pow room
  have mono : Nat.clog 2 count ≤ Nat.clog 2 (count + 1) := Nat.clog_mono_right 2 (Nat.le_succ _)
  unfold paletteBits at le ⊢
  omega

theorem paletteBits_full {bits : Nat} (lower : minBits ≤ bits) :
    paletteBits (2 ^ bits + 1) = bits + 1 := by
  have le : Nat.clog 2 (2 ^ bits + 1) ≤ bits + 1 := by
    apply Nat.clog_le_of_le_pow
    have := Nat.two_pow_pos bits
    omega
  have above : bits < Nat.clog 2 (2 ^ bits + 1) :=
    (Nat.lt_clog_iff_pow_lt Nat.one_lt_two).mpr (Nat.lt_succ_self _)
  unfold paletteBits
  omega

/-! ### What a storage has room for -/

/-- The room of a storage is that of a set of states. -/
inductive Carries (s : Flat) (used : Finset StateId) : Prop
  | paletted (p : Palette) (encoding : s.encoding = .paletted p) (states : p.states = used)
      (width : s.bits = paletteBits used.card)
  | direct (encoding : s.encoding = .direct) (many : volume < used.card)
      (wide : ∀ id ∈ used, id.toNat < Bits.capacity s.bits)

theorem fresh_carries (r : Registry) : (fresh r).Carries {r.air.runtimeId} := by
  refine .paletted (.singleton r.air.runtimeId minBits) rfl ?_ ?_
  · rw [Palette.singleton_eq (by decide), Palette.states_push]
    rfl
  · rw [Finset.card_singleton, paletteBits, Nat.clog_one_right]
    rfl

/-! ### One more state -/

section

variable {s t : Flat} {content : Cell → StateId} {used : Finset StateId} {c : Cell} {id : StateId}
  (shows : s.Shows content) (carries : s.Carries used)
include shows carries

theorem Carries.put (room : s.HasRoom id) (placed : s.put? c id = .ok (some t)) :
    t.Carries (insert id used) := by
  obtain ⟨bits, after⟩ := put?_ok placed
  unfold HasRoom at room
  cases carries with
  | paletted p encoding states width =>
    rw [encoding] at room after
    obtain ⟨sound, capacity, _, _⟩ := shows.palette encoding
    refine .paletted _ after ?_ ?_
    · rw [Palette.states_adding sound room, states]
    · rw [bits, width]
      by_cases old : id ∈ used
      · rw [Finset.insert_eq_self.mpr old]
      · -- a new state takes the place that is free
        have absent : id ∉ p.ids := fun member => old (states ▸ Palette.mem_states.mpr member)
        have count : used.card = p.size := states ▸ Palette.card_states sound
        have free := room.resolve_left absent
        rw [Finset.card_insert_of_notMem old, paletteBits_succ]
        rw [← width, count, ← capacity]
        exact free
  | direct encoding many wide =>
    rw [encoding] at room after
    refine .direct after ?_ fun a member => ?_
    · exact Nat.lt_of_lt_of_le many (Finset.card_le_card (Finset.subset_insert id used))
    · rw [bits]
      rcases Finset.mem_insert.mp member with rfl | old
      · exact room
      · exact wide a old

theorem Carries.grown {r : Registry} {g : Flat} (enlarges : s.Enlarges r id g)
    (grownShows : g.Shows content) (known : ∀ a ∈ insert id used, r.index.hasRuntimeId a = true)
    (placed : g.put? c id = .ok (some t)) : t.Carries (insert id used) := by
  obtain ⟨bits, after⟩ := put?_ok placed
  have more : used.card ≤ (insert id used).card := Finset.card_le_card (Finset.subset_insert id used)
  cases carries with
  | paletted p encoding states width =>
    obtain ⟨sound, _, lower, _⟩ := shows.palette encoding
    have count : used.card = p.size := states ▸ Palette.card_states sound
    have new : id ∉ p.ids → id ∉ used := fun absent old => absent (Palette.mem_states.mp (states ▸ old))
    cases enlarges with
    | palette before absent full narrow larger wide _ same room =>
      cases encoding.symm.trans before
      obtain ⟨soundQ, capacity, _, _⟩ := grownShows.palette larger
      rw [larger] at after
      refine .paletted _ after ?_ ?_
      · rw [Palette.states_adding soundQ (Or.inr (capacity ▸ room)), Palette.states, same, ← states,
          Palette.states]
      · rw [bits, wide, Finset.card_insert_of_notMem (new absent), count, full, paletteBits_full lower]
    | numbers before absent full widest direct _ _ fits =>
      cases encoding.symm.trans before
      rw [direct] at after
      refine .direct after ?_ fun a member => ?_
      · rw [Finset.card_insert_of_notMem (new absent), count, full, widest]
        decide
      · exact bits ▸ fits a (known a member)
    | wider before => cases encoding.symm.trans before
  | direct encoding many _ =>
    cases enlarges with
    | palette before => cases encoding.symm.trans before
    | numbers before => cases encoding.symm.trans before
    | wider _ _ direct _ _ fits =>
      rw [direct] at after
      exact .direct after (Nat.lt_of_lt_of_le many more) fun a member => bits ▸ fits a (known a member)

end

/-! ### Writes and clones -/

/-- Entries that have become no narrower, and are still numbers if they were. -/
structure Widens (s t : Flat) : Prop where
  bits : s.bits ≤ t.bits
  direct : s.isDirect = true → t.isDirect = true

theorem Widens.refl (s : Flat) : s.Widens s := ⟨Nat.le_refl _, id⟩

theorem Widens.trans {s t u : Flat} (first : s.Widens t) (second : t.Widens u) : s.Widens u :=
  ⟨Nat.le_trans first.bits second.bits, fun direct => second.direct (first.direct direct)⟩

theorem widens_of_put {s t : Flat} {c : Cell} {id : StateId} (placed : s.put? c id = .ok (some t)) :
    s.Widens t := by
  obtain ⟨bits, after⟩ := put?_ok placed
  refine ⟨Nat.le_of_eq bits.symm, ?_⟩
  unfold isDirect
  rw [after]
  cases s.encoding <;> simp [Encoding.adding]

theorem Enlarges.widens {r : Registry} {s t : Flat} {id : StateId} (enlarges : s.Enlarges r id t)
    (wider : s.bits < t.bits) : s.Widens t := by
  refine ⟨Nat.le_of_lt wider, ?_⟩
  unfold isDirect
  cases enlarges with
  | palette before => simp [before]
  | numbers before => simp [before]
  | wider _ _ after => simp [after]

section

variable {r : Registry} {s t : Flat} {content : Cell → StateId} {used : Finset StateId} {c : Cell}
  {id : StateId} (shows : s.Shows content) (carries : s.Carries used)
include shows carries

theorem Carries.write (limit : r.index.limit ≤ UInt32.size)
    (registered : ∀ c, r.index.hasRuntimeId (content c) = true)
    (known : ∀ a ∈ insert id used, r.index.hasRuntimeId a = true)
    (wrote : (write r s c id).result = .ok t) : t.Carries (insert id used) ∧ s.Widens t := by
  rw [Flat.write, if_pos (known id (Finset.mem_insert_self id used))] at wrote
  obtain ⟨u, stored, _⟩ := store_spec limit shows registered c id
  cases wrote.symm.trans stored.result
  cases stored with
  | atOnce room placed => exact ⟨carries.put shows room placed, widens_of_put placed⟩
  | @grown g full _ grown grownShows room placed =>
    have enlarges := shows.enlarges limit full (grow_ok grown) grownShows room
    exact ⟨carries.grown shows enlarges grownShows known placed,
      (enlarges.widens g.wider).trans (widens_of_put placed)⟩

theorem Carries.clone (cloned : s.clone = .ok t) : t.Carries used ∧ s.Widens t := by
  rcases clone_cases shows with ⟨p, q, encoding, copied, _, ids, _⟩ | ⟨_, copied⟩
  · cases cloned.symm.trans copied
    cases carries with
    | paletted _ same states width =>
      cases encoding.symm.trans same
      refine ⟨.paletted q rfl ?_ width, Nat.le_refl _, fun direct => ?_⟩
      · rw [Palette.states, ids]
        exact states
      · rw [isDirect, encoding] at direct
        cases direct
    | direct same => cases encoding.symm.trans same
  · cases cloned.symm.trans copied
    exact ⟨carries, .refl s⟩

end

/-- The width of a storage is what a set of states needs. -/
structure HasWidth (s : Flat) (used : Finset StateId) : Prop where
  few : used.card ≤ 4096 → s.isDirect = false ∧ s.paletteSize? = some used.card ∧
    s.bits = max 4 (Nat.clog 2 used.card)
  many : 4096 < used.card → s.isDirect = true ∧ s.paletteSize? = none ∧
    13 ≤ s.bits ∧ s.bits ≤ 32 ∧ ∀ id ∈ used, id.toNat < 2 ^ s.bits

theorem Carries.hasWidth {s : Flat} {content : Cell → StateId} {used : Finset StateId}
    (shows : s.Shows content) (carries : s.Carries used) : s.HasWidth used := by
  cases carries with
  | paletted p encoding states width =>
    obtain ⟨sound, capacity, _, upper⟩ := shows.palette encoding
    have count : used.card = p.size := states ▸ Palette.card_states sound
    have le : used.card ≤ 4096 := by
      rw [count]
      refine Nat.le_trans (capacity ▸ sound.room) ?_
      exact Nat.pow_le_pow_right (by decide) upper
    refine ⟨fun _ => ⟨by rw [isDirect, encoding], ?_, width⟩, fun many => absurd le (by omega)⟩
    rw [paletteSize?, encoding, count]
  | direct encoding many wide =>
    refine ⟨fun few => absurd many (Nat.not_lt.mpr few), fun _ => ⟨by rw [isDirect, encoding],
      by rw [paletteSize?, encoding], ?_, s.cells.bits_le, wide⟩⟩
    cases shows with
    | paletted _ other => cases encoding.symm.trans other
    | direct _ lower => exact lower

end Flat

/-! ### A whole run -/

namespace Scene

def wrote (x : Scene) (a : Act) : Finset StateId :=
  match a, (x.step a).2 with
  | .write _ id, .ok () => {id}
  | _, _ => ∅

/-- The states that are written in a run. -/
def used (x : Scene) : List Act → Finset StateId
  | [] => ∅
  | a :: rest => x.wrote a ∪ (x.step a).1.used rest

structure Fitted (x : Scene) (s : Flat) (states : Finset StateId) : Prop where
  sound : x.Sound
  storage : x.storage = .plain (.flat s)
  carries : s.Carries states
  known : ∀ id ∈ states, x.registry.index.hasRuntimeId id = true

variable {x : Scene} {s : Flat} {states : Finset StateId}

theorem Fitted.shows (fitted : x.Fitted s states) : s.Shows x.written := by
  obtain ⟨t, storage, shows⟩ := fitted.sound.storage
  cases fitted.storage.symm.trans storage
  exact shows

theorem fresh_fitted {r : Registry} (sound : r.Sound) :
    (fresh r).Fitted (Flat.fresh r) {r.air.runtimeId} where
  sound := start_sound sound .fresh
  storage := rfl
  carries := Flat.fresh_carries r
  known _ member := Finset.mem_singleton.mp member ▸ sound.knows_air

theorem Fitted.write (fitted : x.Fitted s states) (p : Position) (id : StateId) :
    ∃ t, (x.step (.write p id)).1.Fitted t (x.wrote (.write p id) ∪ states) ∧ s.Widens t := by
  have after := fitted.sound.step (.write p id)
  unfold wrote
  cases inside : p.cell with
  | error e =>
    rw [step_of_error (fitted.storage ▸ result_write_outside s inside id)]
    exact ⟨s, by simpa using fitted, .refl s⟩
  | ok c =>
    cases known : x.registry.index.hasRuntimeId id with
    | false =>
      rw [fitted.sound.write_unknown inside known]
      exact ⟨s, by simpa using fitted, .refl s⟩
    | true =>
      have limit := fitted.sound.registry.index.limit_le
      have all : ∀ a ∈ insert id states, x.registry.index.hasRuntimeId a = true :=
        Finset.forall_mem_insert _ _ _ |>.mpr ⟨known, fitted.known⟩
      obtain ⟨t, wrote, _⟩ :=
        (Flat.write_spec limit fitted.shows fitted.sound.registered c id).1 known
      obtain ⟨carries, widens⟩ :=
        fitted.carries.write fitted.shows limit fitted.sound.registered all wrote
      rw [step_write_flat fitted.storage inside wrote] at after ⊢
      exact ⟨t, ⟨after, rfl, carries, all⟩, widens⟩

/-- An act leaves a storage with room for what it wrote. -/
theorem Fitted.step (fitted : x.Fitted s states) (a : Act) :
    ∃ t, (x.step a).1.Fitted t (x.wrote a ∪ states) ∧ s.Widens t := by
  have after := fitted.sound.step a
  cases a with
  | write p id => exact fitted.write p id
  | clone =>
    obtain ⟨t, copied, _⟩ := Flat.clone_spec fitted.shows
    obtain ⟨carries, widens⟩ := fitted.carries.clone fitted.shows copied
    have same : x.wrote .clone ∪ states = states := Finset.empty_union states
    rw [same]
    rw [step_clone_flat fitted.storage copied] at after ⊢
    exact ⟨t, ⟨after, rfl, carries, fitted.known⟩, widens⟩
  | register d =>
    obtain ⟨r, registered, _, knows⟩ := fitted.sound.registers d
    have same : x.wrote (.register d) ∪ states = states := Finset.empty_union states
    rw [same]
    rw [registered] at after ⊢
    exact ⟨s, ⟨after, fitted.storage, fitted.carries,
      fun id member => knows id (fitted.known id member)⟩, .refl s⟩

theorem Fitted.run (fitted : x.Fitted s states) (acts : List Act) :
    ∃ t, (x.run acts).Fitted t (x.used acts ∪ states) ∧ s.Widens t := by
  induction acts generalizing x s states with
  | nil => exact ⟨s, by simpa [used, Scene.run] using fitted, .refl s⟩
  | cons a rest ih =>
    obtain ⟨t, next, first⟩ := fitted.step a
    obtain ⟨u, last, later⟩ := ih next
    refine ⟨u, ?_, first.trans later⟩
    have states : x.used (a :: rest) ∪ states = (x.step a).1.used rest ∪ (x.wrote a ∪ states) := by
      rw [used, Finset.union_comm (x.wrote a), Finset.union_assoc]
    rw [states]
    exact last

/-- The width of a storage in a run is that of the states which were written to it, and of air. -/
theorem run_width {r : Registry} (built : r.Built) (acts : List Act) :
    ∃ s, ((fresh r).run acts).storage = .plain (.flat s) ∧
      s.HasWidth (insert r.air.runtimeId ((fresh r).used acts)) ∧
      ∀ more, ∃ t, ((fresh r).run (acts ++ more)).storage = .plain (.flat t) ∧ s.Widens t := by
  obtain ⟨s, fitted, _⟩ := (fresh_fitted built.sound).run acts
  refine ⟨s, fitted.storage, ?_, fun more => ?_⟩
  · rw [Finset.insert_eq, Finset.union_comm]
    exact fitted.carries.hasWidth fitted.shows
  · obtain ⟨t, later, widens⟩ := fitted.run more
    refine ⟨t, ?_, widens⟩
    rw [run, List.foldl_append]
    exact later.storage

theorem run_width_lamp : ∃ r, Registry.Global r ∧ ∃ s,
    ((fresh r).run [.register ⟨.standard "lamp", [], none, none⟩, .write ⟨15, 7, 3⟩ 1]).storage =
      .plain (.flat s) ∧
    s.HasWidth (insert r.air.runtimeId
      ((fresh r).used [.register ⟨.standard "lamp", [], none, none⟩, .write ⟨15, 7, 3⟩ 1])) := by
  obtain ⟨r, made⟩ := Registry.newGlobal_ok 0
  obtain ⟨s, storage, width, _⟩ := run_width (.isGlobal (.start made))
    [.register ⟨.standard "lamp", [], none, none⟩, .write ⟨15, 7, 3⟩ 1]
  exact ⟨r, .start made, s, storage, width⟩

end Scene

end Voxel
