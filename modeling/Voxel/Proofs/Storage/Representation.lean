import Mathlib.Data.Set.Card
import Voxel.Proofs.Storage.Width

/-!
# How flat storages are represented

`WellFormed` is all that ties the parts of a flat storage to each other and to its registry: entries
to the palette, the two directions of the palette to each other, widths to what is stored. A run
keeps it because no step but a write of a registered state adds to the palette. It makes the number of
cells without air, which is counted over bare entries, that of the states they stand for.
-/

namespace Voxel

/-! ### The parts of a storage -/

namespace Palette

/-- The two lists of a palette are inverse to each other. -/
structure TwoWay (p : Palette) : Prop where
  distinct : p.ids.toList.Nodup
  rising : p.sorted.toList.Pairwise fun a b => a.1 < b.1
  listed : ∀ id i, (id, i) ∈ p.sorted.toList ↔ p.ids[i]? = some id
  inverse : ∀ id i, p.state? i = some id ↔ p.indexOf? id = some i
  short : ∀ id i, (id, i) ∈ p.sorted.toList → (UInt16.ofNat i).toNat = i

theorem Sound.twoWay {p : Palette} (sound : p.Sound) : p.TwoWay where
  distinct := nodup_ids sound
  rising := sound.rising
  listed := sound.listed
  inverse _ _ := (indexOf?_eq_some_iff sound).symm
  short id i member := by
    have inside : i < p.size := (Array.getElem?_eq_some_iff.mp ((sound.listed id i).mp member)).1
    have few : p.size ≤ 2 ^ 16 := Nat.le_trans sound.room (Bits.capacity_mono sound.narrow)
    rw [UInt16.toNat_ofNat']
    exact Nat.mod_eq_of_lt (Nat.lt_of_lt_of_le inside few)

theorem states_adding_subset (p : Palette) (id : StateId) :
    (p.adding id).states ⊆ Insert.insert id p.states := by
  unfold adding insert
  split
  · rename_i q added
    split at added
    · cases added
    · split at added
      · cases added
      · cases added
        exact (states_push p id).subset
  · exact Finset.subset_insert id p.states

end Palette

namespace Flat

def states (s : Flat) : Finset StateId :=
  match s.encoding with
  | .paletted p => p.states
  | .direct => ∅

/-- The parts of a storage fit each other, and what it holds is registered. -/
inductive WellFormed (r : Registry) (s : Flat) : Prop
  | paletted (p : Palette) (encoding : s.encoding = .paletted p) (width : p.bits = s.bits)
      (lower : 4 ≤ s.bits) (upper : s.bits ≤ 12) (nonempty : 1 ≤ p.size) (room : p.size ≤ 2 ^ s.bits)
      (known : ∀ id ∈ p.ids, r.index.hasRuntimeId id = true) (twoWay : p.TwoWay)
      (entries : ∀ c, s.cells.get c < p.size)
  | direct (encoding : s.encoding = .direct) (lower : 13 ≤ s.bits) (upper : s.bits ≤ 32)
      (entries : ∀ c, ∃ id : StateId, s.cells.get c = id.toNat ∧ r.index.hasRuntimeId id = true ∧
        id.toNat < 2 ^ s.bits)

section

variable {r : Registry} {s t : Flat} {content : Cell → StateId} {c : Cell} {id : StateId}

theorem Shows.wellFormed (shows : s.Shows content)
    (registered : ∀ c, r.index.hasRuntimeId (content c) = true)
    (known : ∀ id ∈ s.states, r.index.hasRuntimeId id = true) : s.WellFormed r := by
  cases shows with
  | paletted p encoding sound width lower upper shown =>
    have inside : ∀ c, s.cells.get c < p.size := fun c => (Array.getElem?_eq_some_iff.mp (shown c)).1
    refine .paletted p encoding width lower upper ?_ (width ▸ sound.room) (fun id member => ?_)
      sound.twoWay inside
    · exact Nat.lt_of_le_of_lt (Nat.zero_le _) (inside ⟨0, by decide⟩)
    · refine known id ?_
      rw [states, encoding]
      exact Palette.mem_states.mpr member
  | direct encoding lower shown =>
    refine .direct encoding lower s.cells.bits_le fun c => ⟨content c, shown c, registered c, ?_⟩
    exact shown c ▸ s.cells.get_lt c

/-! ### The cells that are not air -/

theorem length_filter_all (p : Cell → Prop) [DecidablePred p] :
    (Cell.all.filter p).length = {c | p c}.ncard := by
  have distinct : Cell.all.Nodup := List.nodup_ofFn.mpr Function.injective_id
  rw [← List.toFinset_card_of_nodup (distinct.filter _), ← Set.ncard_coe_finset]
  congr 1
  ext c
  simp [Cell.mem_all]

theorem Shows.nonAir (shows : s.Shows content) (r : Registry) :
    s.nonAir r = {c | s.read c ≠ .ok r.air.runtimeId}.ncard := by
  have count : ∀ entry, (∀ c, s.cells.get c ≠ entry ↔ content c ≠ r.air.runtimeId) →
      (s.cells.toList.filter (· ≠ entry)).length =
        (Cell.all.filter (content · ≠ r.air.runtimeId)).length := by
    intro entry same
    rw [Packed.toList_eq, List.filter_map, List.length_map]
    refine congrArg List.length (List.filter_congr fun c _ => ?_)
    exact decide_eq_decide.mpr (same c)
  have read : ∀ c, s.read c ≠ .ok r.air.runtimeId ↔ content c ≠ r.air.runtimeId := by
    intro c
    rw [shows.read, ne_eq, Except.ok.injEq]
  simp only [read]
  rw [← length_filter_all, Flat.nonAir]
  cases shows with
  | paletted p encoding sound width lower upper shown =>
    rw [encoding]
    dsimp only
    split
    · rename_i index found
      have stored := (Palette.indexOf?_eq_some_iff sound).mp found
      refine count index fun c => not_congr ⟨fun same => ?_, fun same => ?_⟩
      · exact Option.some.inj ((shown c).symm.trans (same ▸ stored))
      · exact Palette.index_unique sound (shown c) (same ▸ stored)
    · rename_i absent
      have air := (Palette.indexOf?_eq_none_iff sound).mp absent
      have all : ∀ c ∈ Cell.all, decide (content c ≠ r.air.runtimeId) = true := fun c _ =>
        decide_eq_true fun same => air (same ▸ Array.mem_of_getElem? (shown c))
      rw [List.filter_eq_self.mpr all, Cell.all, List.length_ofFn]
  | direct encoding lower shown =>
    rw [encoding]
    refine count _ fun c => not_congr ?_
    rw [shown c, UInt32.toNat_inj]

/-! ### States that get into a palette -/

theorem states_put (placed : s.put? c id = .ok (some t)) : t.states ⊆ insert id s.states := by
  obtain ⟨_, after⟩ := put?_ok placed
  unfold states
  rw [after]
  cases s.encoding with
  | paletted p => exact Palette.states_adding_subset p id
  | direct => exact Finset.empty_subset _

theorem Enlarges.states (enlarges : s.Enlarges r id t) : t.states ⊆ s.states := by
  unfold Flat.states
  cases enlarges with
  | palette before _ _ _ after _ _ states =>
    rw [before, after]
    exact Finset.subset_of_eq (congrArg (fun ids => ids.toList.toFinset) states)
  | numbers _ _ _ _ after => rw [after]; exact Finset.empty_subset _
  | wider _ _ after => rw [after]; exact Finset.empty_subset _

theorem Stores.states (stores : s.Stores r c id) (wrote : (s.write r c id).result = .ok t) :
    t.states ⊆ insert id s.states := by
  cases stores with
  | atOnce first run =>
    rw [run] at wrote
    cases wrote
    exact states_put first
  | grown _ _ enlarges second run =>
    rw [run] at wrote
    cases wrote
    exact (states_put second).trans (Finset.insert_subset_insert id enlarges.states)

theorem Shows.states_clone (shows : s.Shows content) (copied : s.clone = .ok t) :
    t.states = s.states := by
  unfold states
  rcases clone_cases shows with ⟨p, q, encoding, cloned, _, ids, _⟩ | ⟨_, cloned⟩
  · cases copied.symm.trans cloned
    rw [encoding]
    exact congrArg (fun ids => ids.toList.toFinset) ids
  · cases copied.symm.trans cloned
    rfl

theorem states_fresh (r : Registry) : (fresh r).states = {r.air.runtimeId} := by
  show (Palette.singleton r.air.runtimeId minBits).states = _
  rw [Palette.singleton_eq (by decide), Palette.states_push]
  rfl

theorem states_ofPacked (sound : r.Sound) {entries : List PaletteEntry} {words : Array UInt64}
    (h : ofPacked r entries words = .ok s) : ∀ id ∈ s.states, r.index.hasRuntimeId id = true := by
  rcases ofPacked_cases r entries words with ⟨importable, _⟩ | ⟨_, e, refused, _⟩
  swap
  · rw [h] at refused
    cases refused
  rw [ofPacked_eq importable.nonempty importable.length_le] at h
  obtain ⟨raw, _, h⟩ := Outcome.bind_ok h
  obtain ⟨⟨p, indices⟩, taken, h⟩ := Outcome.bind_ok h
  dsimp only at h
  split at h
  · cases h
  obtain ⟨cells, _, h⟩ := Outcome.bind_ok h
  obtain rfl := Except.ok.inj h
  have bits : indexBits entries ≤ Palette.maxBits :=
    Nat.le_trans (indexBits_le importable.length_le) (by decide)
  rcases @resolveAll_cases r _ entries bits (length_le_capacity entries) with
    ⟨q, js, ids, run, all, resolved⟩ | ⟨_, _, _, _, failed⟩
  · cases run.symm.trans taken
    intro id member
    have stored : id ∈ ids := (resolved.members id).mp (Palette.mem_states.mp member)
    obtain ⟨e, _, found⟩ := forall₂_of_mem all.flip stored
    obtain ⟨t, known, rfl⟩ := PaletteEntry.resolve_eq_ok_iff.mp found
    exact sound.knows_ofTexts known
  · rw [taken] at failed
    cases failed

end

end Flat

/-! ### Runs -/

namespace Scene

inductive Becomes (x : Scene) : Scene → Prop
  | same : x.Becomes x
  | written {s t : Flat} {c : Cell} {id : StateId} (before : x.storage = .plain (.flat s))
      (known : x.registry.index.hasRuntimeId id = true)
      (wrote : (s.write x.registry c id).result = .ok t) :
      x.Becomes ⟨x.registry, .plain (.flat t), Function.update x.written c id⟩
  | cloned {s t : Flat} (before : x.storage = .plain (.flat s)) (copied : s.clone = .ok t) :
      x.Becomes { x with storage := .plain (.flat t) }
  | registered {r : Registry} (grows : ∀ id, x.registry.index.hasRuntimeId id = true →
      r.index.hasRuntimeId id = true) : x.Becomes { x with registry := r }

variable {x : Scene}

theorem Sound.becomes (sound : x.Sound) (a : Act) : x.Becomes (x.step a).1 := by
  obtain ⟨s, flat, shows⟩ := sound.storage
  cases a with
  | write p id =>
    cases inside : p.cell with
    | error e =>
      rw [step_of_error (flat ▸ result_write_outside s inside id)]
      exact .same
    | ok c =>
      cases known : x.registry.index.hasRuntimeId id with
      | false =>
        rw [sound.write_unknown inside known]
        exact .same
      | true =>
        obtain ⟨t, wrote, _⟩ := (Flat.write_spec sound.registry.index.limit_le shows
          sound.registered c id).1 known
        rw [step_write_flat flat inside wrote]
        exact .written flat known wrote
  | clone =>
    obtain ⟨t, copied, _⟩ := Flat.clone_spec shows
    rw [step_clone_flat flat copied]
    exact .cloned flat copied
  | register d =>
    obtain ⟨r, registered, _, grows⟩ := sound.registers d
    rw [registered]
    exact .registered grows

structure Kept (x : Scene) : Prop where
  sound : x.Sound
  known : ∃ s : Flat, x.storage = .plain (.flat s) ∧
    ∀ id ∈ s.states, x.registry.index.hasRuntimeId id = true

theorem start_kept {r : Registry} (sound : r.Sound) {s : Flat} {content : Cell → StateId}
    (origin : Origin r s content) : (start r s content).Kept := by
  refine ⟨start_sound sound origin, s, rfl, ?_⟩
  cases origin with
  | fresh =>
    intro id member
    rw [Flat.states_fresh, Finset.mem_singleton] at member
    exact member ▸ sound.knows_air
  | packed h => exact Flat.states_ofPacked sound h

theorem Kept.step (kept : x.Kept) (a : Act) : (x.step a).1.Kept := by
  refine ⟨kept.sound.step a, ?_⟩
  obtain ⟨s, storage, known⟩ := kept.known
  obtain ⟨_, other, shows⟩ := kept.sound.storage
  cases storage.symm.trans other
  have becomes := kept.sound.becomes a
  generalize (x.step a).1 = y at becomes
  cases becomes with
  | same => exact ⟨s, storage, known⟩
  | @written _ t c id before registered wrote =>
    cases storage.symm.trans before
    have stores := shows.stores kept.sound.registry.index.limit_le kept.sound.registered registered c
    refine ⟨t, rfl, fun a member => ?_⟩
    rcases Finset.mem_insert.mp (stores.states wrote member) with rfl | old
    · exact registered
    · exact known a old
  | @cloned _ t before copied =>
    cases storage.symm.trans before
    exact ⟨t, rfl, shows.states_clone copied ▸ known⟩
  | registered grows => exact ⟨s, storage, fun id member => grows id (known id member)⟩

theorem Kept.run (kept : x.Kept) (acts : List Act) : (x.run acts).Kept := by
  induction acts generalizing x with
  | nil => exact kept
  | cons a rest ih => exact ih (kept.step a)

/-- Throughout a run a storage stays well-formed, and counts the cells that do not read as air. -/
theorem run_wellFormed {r : Registry} (built : r.Built) {s : Flat} {content : Cell → StateId}
    (origin : Origin r s content) (acts : List Act) :
    ∃ t, ((start r s content).run acts).storage = .plain (.flat t) ∧
      t.WellFormed ((start r s content).run acts).registry ∧
      t.nonAir ((start r s content).run acts).registry =
        {c | t.read c ≠ .ok ((start r s content).run acts).registry.air.runtimeId}.ncard := by
  have kept := (start_kept built.sound origin).run acts
  obtain ⟨t, storage, known⟩ := kept.known
  obtain ⟨_, other, shows⟩ := kept.sound.storage
  cases storage.symm.trans other
  exact ⟨t, storage, shows.wellFormed kept.sound.registered known, shows.nonAir _⟩

theorem run_wellFormed_lamp : ∃ r, Registry.Global r ∧ ∃ t,
    ((fresh r).run lampActs).storage = .plain (.flat t) ∧
    t.WellFormed ((fresh r).run lampActs).registry ∧
    t.nonAir ((fresh r).run lampActs).registry =
      {c | t.read c ≠ .ok ((fresh r).run lampActs).registry.air.runtimeId}.ncard := by
  obtain ⟨r, made⟩ := Registry.newGlobal_ok 0
  exact ⟨r, .start made, run_wellFormed (.isGlobal (.start made)) .fresh lampActs⟩

end Scene

end Voxel
