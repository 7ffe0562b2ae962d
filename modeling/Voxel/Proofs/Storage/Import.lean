import Mathlib.Algebra.Order.Floor.Div
import Mathlib.Data.Nat.Digits.Defs
import Voxel.Proofs.Block.State
import Voxel.Proofs.Storage.Flat
import Voxel.Storage.Basic
import Voxel.Storage.Import

/-!
# Imported palettes

`ofPacked_cases` says which palettes and words describe a layer, and what the layer then holds. The
palette as it is given may repeat states; `Resolved` ties it to the palette of distinct states that
the storage keeps. `toArray_wordsOfBytes` reads bytes as words.
-/

namespace Voxel

/-! ### Resolving a palette -/

theorem Registry.stateOfTexts_error {r : Registry} {name : Name} {texts : List (String × String)}
    {e : BlockError} (h : r.stateOfTexts name texts = .error e) : e.isInvalidValue = true := by
  rcases Outcome.bind_error h with unknown | ⟨k, _, refused⟩
  · unfold Index.kind at unknown
    split at unknown
    · cases unknown
    · cases unknown
      rfl
  · obtain ⟨misuse, rfl⟩ := BlockKind.stateOfTexts_error refused
    rfl

namespace PaletteEntry

theorem resolve_eq_ok_iff {r : Registry} {e : PaletteEntry} {id : StateId} :
    e.resolve r = .ok id ↔ ∃ t, r.stateOfTexts e.name e.values.entries = .ok t ∧ t.runtimeId = id := by
  constructor
  · exact Outcome.map_ok
  · rintro ⟨t, found, rfl⟩
    rw [resolve, found]
    rfl

theorem resolve_error {r : Registry} {e : PaletteEntry} {cause : BlockError}
    (h : e.resolve r = .error cause) : r.stateOfTexts e.name e.values.entries = .error cause := by
  unfold resolve at h
  cases found : r.stateOfTexts e.name e.values.entries with
  | error other => rw [found] at h; cases h; rfl
  | ok t => rw [found] at h; cases h

end PaletteEntry

namespace Flat

/-- Indices lead to states in order, and a palette holds just these states. -/
structure Resolved (bits : Nat) (ids : List StateId) (p : Palette) (indices : Array Nat) : Prop where
  sound : p.Sound
  width : p.bits = bits
  size_le : p.size ≤ ids.length
  members : ∀ id, id ∈ p.ids ↔ id ∈ ids
  indexed : indices.toList.map (fun i => p.ids[i]?) = ids.map some

theorem resolved_empty {bits : Nat} (le : bits ≤ Palette.maxBits) : Resolved bits [] (.empty bits) #[] :=
  ⟨Palette.empty_sound le, rfl, Nat.zero_le _, fun id => by simp [Palette.empty], rfl⟩

theorem Resolved.snoc {bits : Nat} {ids : List StateId} {p : Palette} {indices : Array Nat}
    (resolved : Resolved bits ids p indices) (room : ids.length < Bits.capacity bits)
    (id : StateId) :
    (∃ i, p.insert id = .present i ∧ Resolved bits (ids ++ [id]) p (indices.push i)) ∨
    (p.insert id = .inserted p.size (p.push id) ∧
      Resolved bits (ids ++ [id]) (p.push id) (indices.push p.size)) := by
  obtain ⟨sound, width, size_le, members, indexed⟩ := resolved
  rcases Palette.insert_cases sound id with
    ⟨i, found, stored⟩ | ⟨added, absent, space⟩ | ⟨_, _, full⟩
  · refine Or.inl ⟨i, found, sound, width, ?_, fun state => ?_, ?_⟩
    · rw [List.length_append]
      omega
    · rw [members, List.mem_append, List.mem_singleton]
      refine ⟨Or.inl, ?_⟩
      rintro (old | rfl)
      · exact old
      · exact (members state).mp (Array.mem_of_getElem? stored)
    · rw [Array.toList_push, List.map_append, List.map_append, indexed, List.map_singleton, stored]
      rfl
  · refine Or.inr ⟨added, Palette.push_sound sound absent space, width, ?_, fun state => ?_, ?_⟩
    · rw [Palette.size_push, List.length_append]
      exact Nat.succ_le_succ size_le
    · rw [Palette.ids_push, Array.mem_push, members, List.mem_append, List.mem_singleton]
    · -- the indices before stay what they were
      have kept : indices.toList.map (fun i => (p.push id).ids[i]?) = ids.map some := by
        rw [← indexed]
        refine List.map_congr_left fun i member => ?_
        have stored : p.ids[i]? ∈ ids.map some := indexed ▸ List.mem_map_of_mem member
        obtain ⟨state, _, same⟩ := List.mem_map.mp stored
        have inside := (Array.getElem?_eq_some_iff.mp same.symm).1
        rw [Palette.ids_push, Array.getElem?_push, if_neg (Nat.ne_of_lt inside)]
      have last : (p.push id).ids[p.size]? = some id := Array.getElem?_push_size
      rw [Array.toList_push, List.map_append, List.map_append, kept, List.map_singleton, last]
      rfl
  · rw [Palette.capacity, width] at full
    omega

def resolveStep (r : Registry) (bits : Nat) (state : Palette × Array Nat) (e : PaletteEntry) :
    Except Failure (Palette × Array Nat) := do
  let id ← e.resolve r
  match state.1.insert id with
  | .present index => return (state.1, state.2.push index)
  | .inserted index q => return (q, state.2.push index)
  | .full => .error (.error (.capacityExceeded bits))

theorem resolveAll_eq (r : Registry) (bits : Nat) (entries : List PaletteEntry) :
    resolveAll r bits entries =
      Palette.ofBits bits >>= fun p => entries.foldlM (resolveStep r bits) (p, #[]) := rfl

theorem resolveStep_ok {r : Registry} {bits : Nat} {ids : List StateId} {p : Palette}
    {indices : Array Nat} (resolved : Resolved bits ids p indices)
    (room : ids.length < Bits.capacity bits) {e : PaletteEntry} {id : StateId}
    (state : e.resolve r = .ok id) : ∃ q i, resolveStep r bits (p, indices) e = .ok (q, indices.push i) ∧
      Resolved bits (ids ++ [id]) q (indices.push i) := by
  unfold resolveStep
  rw [state]
  rcases resolved.snoc room id with ⟨i, found, more⟩ | ⟨added, more⟩
  · refine ⟨p, i, ?_, more⟩
    simp only [found, Failure.lift_ok, Outcome.ok_bind]
    rfl
  · refine ⟨p.push id, p.size, ?_, more⟩
    simp only [added, Failure.lift_ok, Outcome.ok_bind]
    rfl

theorem resolve_run {r : Registry} {bits : Nat} (entries : List PaletteEntry) {ids : List StateId}
    {p : Palette} {indices : Array Nat} (resolved : Resolved bits ids p indices)
    (room : ids.length + entries.length ≤ Bits.capacity bits) :
    (∃ q js more, entries.foldlM (resolveStep r bits) (p, indices) = .ok (q, js) ∧
      List.Forall₂ (fun e id => e.resolve r = .ok id) entries more ∧
      Resolved bits (ids ++ more) q js) ∨
    (∃ e ∈ entries, ∃ cause, e.resolve r = .error cause ∧
      entries.foldlM (resolveStep r bits) (p, indices) = .error (.error cause)) := by
  induction entries generalizing ids p indices with
  | nil => exact Or.inl ⟨p, indices, [], rfl, .nil, by rw [List.append_nil]; exact resolved⟩
  | cons e rest ih =>
    rw [List.length_cons] at room
    rw [List.foldlM_cons]
    cases state : e.resolve r with
    | error cause =>
      have failed : resolveStep r bits (p, indices) e = .error (.error cause) := by
        rw [resolveStep, state]
        rfl
      exact Or.inr ⟨e, List.mem_cons_self, cause, state, by rw [failed]; rfl⟩
    | ok id =>
      obtain ⟨q, i, next, more⟩ := resolveStep_ok resolved (by omega) state
      rw [next, Outcome.ok_bind]
      rcases ih more (by rw [List.length_append, List.length_singleton]; omega) with
        ⟨p', js, states, run, all, done⟩ | ⟨bad, member, cause, failed, run⟩
      · refine Or.inl ⟨p', js, id :: states, run, .cons state all, ?_⟩
        rw [List.append_assoc] at done
        exact done
      · exact Or.inr ⟨bad, List.mem_cons_of_mem _ member, cause, failed, run⟩

theorem state_of_resolved {r : Registry} {entries : List PaletteEntry} {ids : List StateId}
    (all : List.Forall₂ (fun e id => e.resolve r = .ok id) entries ids) {i : Nat} {e : PaletteEntry}
    (here : entries[i]? = some e) : ∃ t, ids[i]? = some t.runtimeId ∧
      r.stateOfTexts e.name e.values.entries = .ok t := by
  obtain ⟨id, there, state⟩ := forall₂_getElem? all here
  obtain ⟨t, known, rfl⟩ := PaletteEntry.resolve_eq_ok_iff.mp state
  exact ⟨t, there, known⟩

theorem resolveAll_cases {r : Registry} {bits : Nat} {entries : List PaletteEntry}
    (le : bits ≤ Palette.maxBits) (room : entries.length ≤ Bits.capacity bits) :
    (∃ p indices ids, resolveAll r bits entries = .ok (p, indices) ∧
      List.Forall₂ (fun e id => e.resolve r = .ok id) entries ids ∧ Resolved bits ids p indices) ∨
    (∃ e ∈ entries, ∃ cause, e.resolve r = .error cause ∧
      resolveAll r bits entries = .error (.error cause)) := by
  have start : Palette.ofBits bits = .ok (.empty bits) := if_pos le
  have fits : ([] : List StateId).length + entries.length ≤ Bits.capacity bits := by
    rw [List.length_nil, Nat.zero_add]
    exact room
  rw [resolveAll_eq, start, Outcome.ok_bind]
  exact resolve_run entries (resolved_empty le) fits

/-! ### Packed indices -/

/-- The width of indices into a palette: four bits, or as many as its entries need. -/
def indexBits (entries : List PaletteEntry) : Nat := max 4 (Nat.clog 2 entries.length)

/-- The index of a cell, `bits` bits of its word above those of the cells before it. -/
def indexIn (words : Array UInt64) (bits : Nat) (c : Cell) : Nat :=
  words[c.val / (64 / bits)]!.toNat / 2 ^ (c.val % (64 / bits) * bits) % 2 ^ bits

theorem importBits_eq {entries : List PaletteEntry} (le : entries.length ≤ 4096) :
    importBits entries.length = indexBits entries := by
  have value : (UInt64.ofNat entries.length).toNat = entries.length := by
    rw [UInt64.toNat_ofNat', Nat.mod_eq_of_lt (by omega)]
  rw [importBits, Bits.forCount_eq (by omega), value]
  rfl

theorem indexBits_le {entries : List PaletteEntry} (le : entries.length ≤ 4096) :
    indexBits entries ≤ maxPaletteBits := by
  refine Nat.max_le.mpr ⟨by decide, ?_⟩
  rw [Nat.clog_le_iff_le_pow Nat.one_lt_two]
  exact le

theorem length_le_capacity (entries : List PaletteEntry) :
    entries.length ≤ Bits.capacity (indexBits entries) :=
  Nat.le_trans (Nat.le_pow_clog Nat.one_lt_two _) (Bits.capacity_mono (Nat.le_max_right _ _))

theorem ofWords?_cases {bits : Nat} (pos : 0 < bits) (le : bits ≤ 32) (words : Array UInt64) :
    (words.size = 4096 ⌈/⌉ (64 / bits) ∧ ∃ raw, Packed.ofWords? bits words = .ok raw ∧
      raw.bits = bits ∧ ∀ c, raw.get c = indexIn words bits c) ∨
    (words.size ≠ 4096 ⌈/⌉ (64 / bits) ∧ ∃ misuse,
      Packed.ofWords? bits words = .error (.error (.invalidValue misuse))) := by
  unfold Packed.ofWords?
  rw [dif_pos (And.intro pos le)]
  by_cases size : words.size = 4096 ⌈/⌉ (64 / bits)
  · refine Or.inl ⟨size, _, dif_pos size, rfl, fun c => ?_⟩
    have inside : c.val / (64 / bits) < words.size := size ▸ Packed.word_lt pos le c
    rw [Packed.get_eq, Nat.shiftRight_eq_div_pow, indexIn, getElem!_pos words _ inside]
    rfl
  · exact Or.inr ⟨size, _, dif_neg size⟩

/-! ### The whole import -/

/-- A palette and words that describe a layer. -/
structure Importable (r : Registry) (entries : List PaletteEntry) (words : Array UInt64) : Prop where
  nonempty : 1 ≤ entries.length
  length_le : entries.length ≤ 4096
  size : words.size = 4096 ⌈/⌉ (64 / indexBits entries)
  resolves : ∀ e ∈ entries, ∃ t, r.stateOfTexts e.name e.values.entries = .ok t
  inside : ∀ c, indexIn words (indexBits entries) c < entries.length

def statesOf (r : Registry) (entries : List PaletteEntry) : List StateId :=
  entries.filterMap fun e => (r.stateOfTexts e.name e.values.entries).toOption.map
    BlockState.runtimeId

/-- A storage that holds what a palette and words describe. -/
structure Imported (r : Registry) (entries : List PaletteEntry) (words : Array UInt64) (s : Flat) :
    Prop where
  registry : s.registry = r.id
  cells : ∀ p c, p.cell = .ok c → ∃ e t, entries[indexIn words (indexBits entries) c]? = some e ∧
    r.stateOfTexts e.name e.values.entries = .ok t ∧
    (Layout.flat s).read r p = .ok t.runtimeId
  bits : s.bits = indexBits entries
  palette : s.paletteSize? = some (statesOf r entries).dedup.length

theorem statesOf_eq {r : Registry} {entries : List PaletteEntry} {ids : List StateId}
    (all : List.Forall₂ (fun e id => e.resolve r = .ok id) entries ids) :
    statesOf r entries = ids := by
  induction all with
  | nil => rfl
  | @cons e id rest ids state _ ih =>
    obtain ⟨t, found, same⟩ := PaletteEntry.resolve_eq_ok_iff.mp state
    have head : (r.stateOfTexts e.name e.values.entries).toOption.map BlockState.runtimeId =
        some id := by
      rw [found, ← same]
      rfl
    unfold statesOf at ih ⊢
    rw [@List.filterMap_cons_some _ _ _ e rest id head, ih]

theorem Resolved.size_eq {bits : Nat} {ids : List StateId} {p : Palette} {indices : Array Nat}
    (resolved : Resolved bits ids p indices) : p.size = ids.dedup.length := by
  have distinct := Palette.nodup_ids resolved.sound
  have same : p.ids.toList.Perm ids.dedup := by
    refine (List.perm_ext_iff_of_nodup distinct ids.nodup_dedup).mpr fun id => ?_
    rw [Array.mem_toList_iff, resolved.members, List.mem_dedup]
  rw [← same.length_eq, Array.length_toList]
  rfl

theorem Resolved.index {bits : Nat} {ids : List StateId} {p : Palette} {indices : Array Nat}
    (resolved : Resolved bits ids p indices) {i : Nat} {id : StateId} (here : ids[i]? = some id) :
    ∃ j, indices[i]? = some j ∧ p.ids[j]? = some id := by
  have same := congrArg (fun l => l[i]?) resolved.indexed
  rw [List.getElem?_map, List.getElem?_map, here, Array.getElem?_toList] at same
  cases place : indices[i]? with
  | none => rw [place] at same; cases same
  | some j =>
    rw [place] at same
    exact ⟨j, rfl, Option.some.inj same⟩

theorem Resolved.size_indices {bits : Nat} {ids : List StateId} {p : Palette} {indices : Array Nat}
    (resolved : Resolved bits ids p indices) : indices.size = ids.length := by
  have same := congrArg List.length resolved.indexed
  rw [List.length_map, List.length_map, Array.length_toList] at same
  exact same

theorem Resolved.shows {r : Registry} {ids : List StateId} {p : Palette} {indices : Array Nat}
    {raw : Packed} (resolved : Resolved raw.bits ids p indices) (lower : minBits ≤ raw.bits)
    (upper : raw.bits ≤ maxPaletteBits) (inside : ∀ c, raw.get c < ids.length) :
    ∃ cells, raw.remap raw.bits raw.bits_pos raw.bits_le (fun i => indices[i]?.getD 0) = .ok cells ∧
      cells.bits = raw.bits ∧ Shows ⟨r.id, cells, .paletted p⟩ fun c => ids[raw.get c]?.getD 0 := by
  have meant : ∀ c, ∃ j, indices[raw.get c]? = some j ∧
      p.ids[j]? = some (ids[raw.get c]?.getD 0) := by
    intro c
    have here := List.getElem?_eq_getElem (inside c)
    rw [here]
    exact resolved.index here
  have fits : ∀ c, indices[raw.get c]?.getD 0 < Bits.capacity raw.bits := by
    intro c
    obtain ⟨j, place, stored⟩ := meant c
    have below : j < p.size := (Array.getElem?_eq_some_iff.mp stored).1
    rw [place, Option.getD_some, ← resolved.width]
    exact Nat.lt_of_lt_of_le below resolved.sound.room
  obtain ⟨cells, moved, width, entries⟩ := @Packed.remap_spec raw raw.bits raw.bits_pos raw.bits_le
    (fun i => indices[i]?.getD 0) fits
  refine ⟨cells, moved, width, .paletted p rfl resolved.sound (resolved.width.trans width.symm)
    (Nat.le_trans lower (Nat.le_of_eq width.symm)) (Nat.le_trans (Nat.le_of_eq width) upper) fun c => ?_⟩
  obtain ⟨j, place, stored⟩ := meant c
  show p.ids[cells.get c]? = _
  rw [entries, place, Option.getD_some]
  exact stored

theorem find?_entry_eq_none_iff (raw : Packed) (count : Nat) :
    raw.toList.find? (fun i => count ≤ i) = none ↔ ∀ c, raw.get c < count := by
  rw [Packed.toList_eq, List.find?_eq_none]
  simp only [List.mem_map, decide_eq_true_eq, Nat.not_le]
  constructor
  · intro all c
    exact all _ ⟨c, Cell.mem_all c, rfl⟩
  · rintro all _ ⟨c, _, rfl⟩
    exact all c

theorem ofPacked_eq {r : Registry} {entries : List PaletteEntry} {words : Array UInt64}
    (nonempty : 1 ≤ entries.length) (le : entries.length ≤ 4096) :
    ofPacked r entries words = (do
      let raw ← Packed.ofWords? (indexBits entries) words
      let (palette, indices) ← resolveAll r (indexBits entries) entries
      match raw.toList.find? (indices.size ≤ ·) with
      | some index => .error (.error (.invalidValue (.storage (.paletteIndex index indices.size))))
      | none =>
        let cells ← raw.remap raw.bits raw.bits_pos raw.bits_le fun i => indices[i]?.getD 0
        return ⟨r.id, cells, .paletted palette⟩) := by
  have some_ : ¬ (entries.isEmpty || volume < entries.length) = true := by
    have bound : volume = 4096 := rfl
    rw [Bool.or_eq_true, List.isEmpty_iff_length_eq_zero, decide_eq_true_eq]
    omega
  rw [← importBits_eq le]
  exact if_neg some_

/-- A layer is imported if it can be, and then shows the states that its indices lead to. -/
theorem ofPacked_cases (r : Registry) (entries : List PaletteEntry) (words : Array UInt64) :
    (Importable r entries words ∧ ∃ s content, ofPacked r entries words = .ok s ∧
      s.Shows content ∧ s.registry = r.id ∧ s.bits = indexBits entries ∧
      s.paletteSize? = some (statesOf r entries).dedup.length ∧
      ∀ c, ∃ e t, entries[indexIn words (indexBits entries) c]? = some e ∧
        r.stateOfTexts e.name e.values.entries = .ok t ∧ content c = t.runtimeId) ∨
    (¬ Importable r entries words ∧ ∃ e, ofPacked r entries words = .error (.error e) ∧
      e.isInvalidValue = true) := by
  by_cases count : 1 ≤ entries.length ∧ entries.length ≤ 4096
  swap
  · have wrong : (entries.isEmpty || volume < entries.length) = true := by
      have bound : volume = 4096 := rfl
      rw [Bool.or_eq_true, List.isEmpty_iff_length_eq_zero, decide_eq_true_eq]
      omega
    refine Or.inr ⟨fun importable => count ⟨importable.nonempty, importable.length_le⟩,
      .invalidValue (.storage (.paletteSize volume entries.length)), ?_, rfl⟩
    rw [ofPacked, if_pos wrong]
    rfl
  obtain ⟨nonempty, le⟩ := count
  have lower : 4 ≤ indexBits entries := Nat.le_max_left _ _
  have upper := indexBits_le le
  rw [ofPacked_eq nonempty le]
  rcases ofWords?_cases (by omega) (Nat.le_trans upper (by decide)) words with
    ⟨size, raw, taken, width, indices⟩ | ⟨size, misuse, refused⟩
  swap
  · exact Or.inr ⟨fun importable => size importable.size, _, by rw [refused]; rfl, rfl⟩
  rw [taken, Outcome.ok_bind]
  rcases @resolveAll_cases r _ entries (Nat.le_trans upper (by decide)) (length_le_capacity entries)
    with ⟨p, positions, ids, run, all, resolved⟩ | ⟨e, member, cause, failed, run⟩
  swap
  · have unknown := PaletteEntry.resolve_error failed
    refine Or.inr ⟨fun importable => ?_, cause, by rw [run]; rfl,
      Registry.stateOfTexts_error unknown⟩
    obtain ⟨t, found⟩ := importable.resolves e member
    rw [unknown] at found
    cases found
  rw [run, Outcome.ok_bind]
  dsimp only
  rw [resolved.size_indices, ← all.length_eq]
  by_cases inside : ∀ c, indexIn words (indexBits entries) c < entries.length
  swap
  · have outside : ¬ ∀ c, raw.get c < entries.length := by
      intro within
      exact inside fun c => indices c ▸ within c
    cases found : raw.toList.find? (fun i => entries.length ≤ i) with
    | none => exact absurd ((find?_entry_eq_none_iff raw _).mp found) outside
    | some index => exact Or.inr ⟨fun importable => inside importable.inside, _, rfl, rfl⟩
  have within : ∀ c, raw.get c < entries.length := fun c => indices c ▸ inside c
  have found := (find?_entry_eq_none_iff raw _).mpr within
  have resolves : ∀ e ∈ entries, ∃ t, r.stateOfTexts e.name e.values.entries = .ok t := by
    intro e member
    obtain ⟨i, here⟩ := List.mem_iff_getElem?.mp member
    obtain ⟨t, _, known⟩ := state_of_resolved all here
    exact ⟨t, known⟩
  obtain ⟨cells, moved, wide, shows⟩ := Resolved.shows (r := r) (width ▸ resolved) (width ▸ lower)
    (width ▸ upper) fun c => all.length_eq ▸ within c
  refine Or.inl ⟨⟨nonempty, le, size, resolves, inside⟩, ⟨r.id, cells, .paletted p⟩, _, ?_, shows,
    rfl, wide.trans width, ?_, fun c => ?_⟩
  · rw [found]
    dsimp only
    rw [moved]
    rfl
  · rw [statesOf_eq all]
    exact congrArg some resolved.size_eq
  · have here := List.getElem?_eq_getElem (within c)
    obtain ⟨t, there, known⟩ := state_of_resolved all here
    exact ⟨_, t, indices c ▸ here, known, by rw [there]; rfl⟩

/-! ### Bytes -/

/-- The number that bytes stand for, the first of them highest. -/
def bigEndian (bytes : List UInt8) : Nat := Nat.ofDigits 256 (bytes.reverse.map UInt8.toNat)

def bigEndianWords (bytes : Array UInt8) : Array UInt64 :=
  Array.ofFn fun k : Fin (bytes.size / 8) =>
    UInt64.ofNat (bigEndian ((bytes.toList.drop (8 * k.val)).take 8))

theorem bigEndian_append (bytes : List UInt8) (x : UInt8) :
    bigEndian (bytes ++ [x]) = bigEndian bytes * 256 + x.toNat := by
  rw [bigEndian, List.reverse_append, List.reverse_singleton, List.singleton_append, List.map_cons,
    Nat.ofDigits_cons, bigEndian, Nat.mul_comm]
  exact Nat.add_comm _ _

theorem bigEndian_lt (bytes : List UInt8) : bigEndian bytes < 256 ^ bytes.length := by
  induction bytes using List.reverseRecOn with
  | nil => decide
  | append_singleton bytes x ih =>
    have small := x.toNat_lt
    rw [bigEndian_append, List.length_append, List.length_singleton, Nat.pow_succ]
    omega

theorem foldl_shift_eq (bytes : List UInt8) (le : bytes.length ≤ 8) :
    bytes.foldl (fun (w : UInt64) (x : UInt8) => w <<< 8 ||| x.toUInt64) 0 =
      UInt64.ofNat (bigEndian bytes) := by
  induction bytes using List.reverseRecOn with
  | nil => rfl
  | append_singleton bytes x ih =>
    rw [List.length_append, List.length_singleton] at le
    have bound : bigEndian bytes < 2 ^ 56 := by
      have power : 256 ^ bytes.length ≤ 256 ^ 7 := Nat.pow_le_pow_right (by decide) (by omega)
      exact Nat.lt_of_lt_of_le (bigEndian_lt bytes) power
    have small := x.toNat_lt
    rw [List.foldl_append, ih (by omega), List.foldl_cons, List.foldl_nil, bigEndian_append]
    apply UInt64.toNat_inj.mp
    rw [UInt64.toNat_or, UInt64.toNat_shiftLeft, UInt64.toNat_ofNat', UInt64.toNat_ofNat',
      UInt8.toNat_toUInt64, show (8 : UInt64).toNat % 64 = 8 from rfl, Nat.shiftLeft_eq,
      Nat.mod_eq_of_lt (by omega), Nat.mod_eq_of_lt (by omega), Nat.mod_eq_of_lt (by omega),
      Nat.mul_comm, ← Nat.two_pow_add_eq_or_of_lt small]

theorem wordsOfBytes_eq (bytes : List UInt8) :
    wordsOfBytes bytes = (List.range (bytes.length / 8)).map fun k =>
      UInt64.ofNat (bigEndian ((bytes.drop (8 * k)).take 8)) := by
  fun_induction wordsOfBytes bytes with
  | case1 a b c d e f g h rest ih =>
    have count : (a :: b :: c :: d :: e :: f :: g :: h :: rest).length / 8 = rest.length / 8 + 1 := by
      simp only [List.length_cons]
      omega
    rw [ih, count, List.range_succ_eq_map, List.map_cons, List.map_map,
      foldl_shift_eq [a, b, c, d, e, f, g, h] (Nat.le_refl 8)]
    rfl
  | case2 bytes short =>
    have length : bytes.length < 8 := by
      rcases bytes with _ | ⟨a, _ | ⟨b, _ | ⟨c, _ | ⟨d, _ | ⟨e, _ | ⟨f, _ | ⟨g, _ | ⟨h, rest⟩⟩⟩⟩⟩⟩⟩⟩
      all_goals simp only [List.length_cons, List.length_nil]
      all_goals first | omega | exact (short _ _ _ _ _ _ _ _ _ rfl).elim
    rw [Nat.div_eq_of_lt length]
    rfl

theorem toArray_wordsOfBytes (bytes : Array UInt8) :
    (wordsOfBytes bytes.toList).toArray = bigEndianWords bytes := by
  apply Array.toList_inj.mp
  apply List.ext_getElem?
  intro i
  rw [wordsOfBytes_eq, bigEndianWords, Array.getElem?_toList, Array.getElem?_toList,
    Array.getElem?_ofFn, List.getElem?_toArray, List.getElem?_map, Array.length_toList]
  by_cases inside : i < bytes.size / 8
  · rw [dif_pos inside, List.getElem?_range inside]
    rfl
  · rw [dif_neg inside, List.getElem?_eq_none (by rw [List.length_range]; omega)]
    rfl

/-- A palette and indices are imported exactly if they describe a layer, and then as that layer; any
other import is refused as a value outside of its domain. Bytes are read as the words they hold. -/
theorem import_decodes (r : Registry) (entries : List PaletteEntry) :
    (∀ words, match ofPacked r entries words with
      | .ok s => Importable r entries words ∧ Imported r entries words s
      | .error f => ¬ Importable r entries words ∧ ∃ e, f = .error e ∧ e.isInvalidValue = true) ∧
    (∀ bytes : Array UInt8, if bytes.size % 8 = 0
      then ofPackedBytes r entries bytes = ofPacked r entries (bigEndianWords bytes)
      else ∃ misuse, ofPackedBytes r entries bytes = .error (.error (.invalidValue misuse))) := by
  constructor
  · intro words
    rcases ofPacked_cases r entries words with
      ⟨importable, s, content, run, shows, registry, bits, palette, meant⟩ | ⟨other, e, run, invalid⟩
    · rw [run]
      refine ⟨importable, registry, fun p c inside => ?_, bits, palette⟩
      obtain ⟨entry, t, here, known, same⟩ := meant c
      refine ⟨entry, t, here, known, ?_⟩
      rw [Layout.read_flat inside, shows.read, same]
      rfl
    · rw [run]
      exact ⟨other, e, rfl, invalid⟩
  · intro bytes
    split
    · rename_i whole
      rw [ofPackedBytes, if_neg (not_not_intro whole), toArray_wordsOfBytes]
    · rename_i broken
      exact ⟨_, if_pos broken⟩

end Flat
end Voxel
