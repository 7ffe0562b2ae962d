import Mathlib.Logic.Function.Basic
import Voxel.Proofs.Bits
import Voxel.Proofs.Registry.Index
import Voxel.Proofs.Storage.Packed
import Voxel.Proofs.Storage.Palette
import Voxel.Storage.Flat

/-!
# Flat storages

`Shows` ties a storage to the states of its cells, in whatever encoding. `put?_spec` and `grow_spec`
say what one attempt to write and one growth do. A growth always makes the room that was missing, so a
state is `Placed` at the first attempt or at the second, and `write_spec` finds every write of a
registered state to succeed.
-/

namespace Voxel

theorem Bits.lt_capacity_forCount {n : Nat} {count : UInt64} (le : count.toNat ≤ 2 ^ 63)
    (less : n < count.toNat) : n < Bits.capacity (Bits.forCount count) := by
  rw [Bits.forCount_eq le]
  exact Nat.lt_of_lt_of_le less (Nat.le_pow_clog Nat.one_lt_two _)

theorem Bits.capacity_mono {a b : Nat} (le : a ≤ b) : Bits.capacity a ≤ Bits.capacity b :=
  Nat.pow_le_pow_right (by decide) le

namespace Flat

/-- The cells of a storage hold the given states. -/
inductive Shows (s : Flat) (content : Cell → StateId) : Prop
  | paletted (p : Palette) (encoding : s.encoding = .paletted p) (sound : p.Sound)
      (width : p.bits = s.bits) (lower : minBits ≤ s.bits) (upper : s.bits ≤ maxPaletteBits)
      (shown : ∀ c, p.ids[s.cells.get c]? = some (content c))
  | direct (encoding : s.encoding = .direct) (lower : minDirectBits ≤ s.bits)
      (shown : ∀ c, s.cells.get c = (content c).toNat)

def Sound (r : Registry) (s : Flat) : Prop :=
  ∃ content, s.Shows content ∧ ∀ c, r.index.hasRuntimeId (content c) = true

theorem Shows.read {s : Flat} {content : Cell → StateId} (shows : s.Shows content) (c : Cell) :
    s.read c = .ok (content c) := by
  unfold Flat.read Flat.decode
  cases shows with
  | paletted p encoding sound width lower upper shown =>
    rw [encoding]
    simp only [Palette.state?, shown c]
  | direct encoding lower shown =>
    rw [encoding, shown c, UInt32.ofNat_toNat]

theorem fresh_shows (r : Registry) : (fresh r).Shows fun _ => r.air.runtimeId := by
  have upper : minBits ≤ maxPaletteBits := by decide
  have narrow : minBits ≤ Palette.maxBits := by decide
  refine .paletted (.singleton r.air.runtimeId minBits) rfl (Palette.singleton_sound _ narrow) ?_
    (Nat.le_refl _) upper ?_
  · rw [Palette.singleton_eq narrow]
    rfl
  · intro c
    rw [Palette.singleton_eq narrow, fresh, Packed.get_zero]
    rfl

/-! ### One attempt to write -/

/-- The storage can take a state without growing. -/
def HasRoom (s : Flat) (id : StateId) : Prop :=
  match s.encoding with
  | .paletted p => id ∈ p.ids ∨ p.size < p.capacity
  | .direct => id.toNat < Bits.capacity s.bits

theorem update_shown (Shown : Nat → StateId → Prop) {cells : Packed} {c : Cell} {value : Nat}
    {content : Cell → StateId} {id : StateId} (fits : value < Bits.capacity cells.bits)
    (shown : ∀ d, Shown (cells.get d) (content d)) (new : Shown value id) (d : Cell) :
    Shown ((cells.set c value).get d) (Function.update content c id d) := by
  rw [Packed.get_set fits]
  by_cases same : d = c
  · subst same
    rw [if_pos rfl, Function.update_self]
    exact new
  · rw [if_neg same, Function.update_of_ne same]
    exact shown d

theorem put?_spec {s : Flat} {content : Cell → StateId} (shows : s.Shows content) (c : Cell)
    {id : StateId} (room : s.HasRoom id) :
    ∃ t, s.put? c id = .ok (some t) ∧ t.registry = s.registry ∧
      t.Shows (Function.update content c id) := by
  obtain ⟨registry, cells, encoding⟩ := s
  cases shows with
  | paletted p same sound width lower upper shown =>
    cases same
    have capacity : p.capacity = Bits.capacity cells.bits := congrArg Bits.capacity width
    rcases Palette.insert_cases sound id with
      ⟨index, found, stored⟩ | ⟨added, absent, space⟩ | ⟨_, absent, full⟩
    · have inside := (Array.getElem?_eq_some_iff.mp stored).1
      have fits : index < Bits.capacity cells.bits :=
        capacity ▸ Nat.lt_of_lt_of_le inside sound.room
      refine ⟨⟨registry, cells.set c index, .paletted p⟩, ?_, rfl,
        .paletted p rfl sound width lower upper ?_⟩
      · simp only [put?, found, Packed.put_of_fits fits]
        rfl
      · exact update_shown (fun entry state => p.ids[entry]? = some state) fits shown stored
    · have fits : p.size < Bits.capacity cells.bits := capacity ▸ space
      refine ⟨⟨registry, cells.set c p.size, .paletted (p.push id)⟩, ?_, rfl,
        .paletted (p.push id) rfl (Palette.push_sound sound absent space) width lower upper ?_⟩
      · simp only [put?, added, Packed.put_of_fits fits]
        rfl
      · refine update_shown (fun entry state => (p.push id).ids[entry]? = some state) fits
          (fun d => ?_) ?_
        · have inside : cells.get d < p.ids.size := (Array.getElem?_eq_some_iff.mp (shown d)).1
          rw [Palette.ids_push, Array.getElem?_push, if_neg (Nat.ne_of_lt inside)]
          exact shown d
        · exact Array.getElem?_push_size
    · rcases room with member | space
      · exact absurd member absent
      · omega
  | direct same lower shown =>
    cases same
    have fits : id.toNat < Bits.capacity cells.bits := room
    refine ⟨⟨registry, cells.set c id.toNat, .direct⟩, ?_, rfl, .direct rfl lower ?_⟩
    · simp only [put?, Flat.bits, if_pos fits, Packed.put_of_fits fits]
      rfl
    · exact update_shown (fun entry state => entry = state.toNat) fits shown rfl

theorem put?_eq_none {s : Flat} {content : Cell → StateId} (shows : s.Shows content) (c : Cell)
    {id : StateId} (full : ¬ s.HasRoom id) : s.put? c id = .ok none := by
  unfold HasRoom at full
  cases shows with
  | paletted p encoding sound width lower upper shown =>
    simp only [encoding, not_or] at full
    simp only [put?, encoding]
    rcases Palette.insert_cases sound id with ⟨index, _, stored⟩ | ⟨_, _, space⟩ | ⟨none, _⟩
    · exact absurd (Array.mem_of_getElem? stored) full.1
    · exact absurd space full.2
    · rw [none]
  | direct encoding lower shown =>
    simp only [encoding] at full
    simp only [put?, encoding, if_neg full]

/-! ### Growth -/

theorem toNat_maxRuntimeId {x : Index} (limit : x.limit ≤ UInt32.size) :
    x.maxRuntimeId.toNat = x.limit - 1 := by
  rw [Index.maxRuntimeId, UInt32.toNat_ofNat', Nat.mod_eq_of_lt]
  have size : UInt32.size = 2 ^ 32 := rfl
  omega

theorem toNat_highest (a b : StateId) :
    ((max a b).toUInt64 + 1).toNat = max a.toNat b.toNat + 1 := by
  have bound := (max a b).toNat_lt
  have value : (max a b).toNat = max a.toNat b.toNat := by
    rw [UInt32.max_def, Nat.max_def]
    simp only [UInt32.le_iff_toNat_le]
    split <;> rfl
  rw [UInt64.toNat_add, UInt32.toNat_toUInt64, UInt64.toNat_one, value, Nat.mod_eq_of_lt]
  omega

theorem minDirectBits_le (r : Registry) (incoming : StateId) :
    minDirectBits ≤ directBits r incoming := Nat.le_max_left _ _

theorem directBits_le (r : Registry) (incoming : StateId) : directBits r incoming ≤ maxBits := by
  have highest := toNat_highest r.index.maxRuntimeId incoming
  have left := r.index.maxRuntimeId.toNat_lt
  have right := incoming.toNat_lt
  refine Nat.max_le.mpr ⟨by decide, ?_⟩
  rw [Bits.forCount_eq (by omega), highest]
  apply Nat.clog_le_of_le_pow
  show _ ≤ 2 ^ 32
  omega

theorem lt_capacity_directBits {r : Registry} {incoming : StateId} {n : Nat}
    (le : n ≤ max r.index.maxRuntimeId.toNat incoming.toNat) :
    n < Bits.capacity (directBits r incoming) := by
  have highest := toNat_highest r.index.maxRuntimeId incoming
  have left := r.index.maxRuntimeId.toNat_lt
  have right := incoming.toNat_lt
  have wide : Bits.forCount ((max r.index.maxRuntimeId incoming).toUInt64 + 1) ≤
      directBits r incoming := Nat.le_max_right _ _
  refine Nat.lt_of_lt_of_le (Bits.lt_capacity_forCount ?_ ?_) (Bits.capacity_mono wide)
  · omega
  · omega

theorem registered_lt_capacity {r : Registry} (limit : r.index.limit ≤ UInt32.size)
    {id : StateId} (known : r.index.hasRuntimeId id) (incoming : StateId) :
    id.toNat < Bits.capacity (directBits r incoming) := by
  have below := Index.lt_limit_of_hasRuntimeId known
  apply lt_capacity_directBits
  rw [toNat_maxRuntimeId limit]
  omega

theorem widen_spec (s : Flat) {bits : Nat} (wider : s.bits < bits) (le : bits ≤ maxBits)
    (f : Nat → Nat) (encoding : Encoding) (message : String)
    (fits : ∀ c, f (s.cells.get c) < Bits.capacity bits) :
    ∃ g, s.widen bits wider le f encoding message = .ok g ∧ g.storage.registry = s.registry ∧
      g.storage.encoding = encoding ∧ g.storage.bits = bits ∧
      ∀ c, g.storage.cells.get c = f (s.cells.get c) := by
  obtain ⟨q, moved, width, entries⟩ :=
    @Packed.remap_spec s.cells bits (Nat.zero_lt_of_lt wider) le f fits
  unfold widen
  split
  · rename_i cells same
    obtain rfl := Except.ok.inj (same.symm.trans moved)
    exact ⟨_, rfl, rfl, rfl, width, entries⟩
  · rename_i e failed
    rw [moved] at failed
    cases failed

def Grows (r : Registry) (s : Flat) (content : Cell → StateId) (id : StateId) : Prop :=
  ∃ g, grow r s id = .ok g ∧ g.storage.registry = s.registry ∧ g.storage.Shows content ∧
    g.storage.HasRoom id

theorem grows_palette {r : Registry} {s : Flat} {p : Palette} {content : Cell → StateId}
    {id : StateId} (encoding : s.encoding = .paletted p) (sound : p.Sound)
    (width : p.bits = s.bits) (lower : minBits ≤ s.bits) (narrow : s.bits < maxPaletteBits)
    (shown : ∀ c, p.ids[s.cells.get c]? = some (content c)) : s.Grows r content id := by
  have roomier : p.size < Bits.capacity (s.bits + 1) := by
    refine Nat.lt_of_le_of_lt sound.room ?_
    rw [Palette.capacity, width]
    exact Nat.pow_lt_pow_right (by decide) (Nat.lt_succ_self _)
  have bound : s.bits + 1 ≤ Palette.maxBits := Nat.le_trans narrow (by decide)
  obtain ⟨q, rebuilt, soundQ, ids, bits⟩ := Palette.rebuilt_spec sound (Nat.le_of_lt roomier) bound
  -- an entry is the index of its state in both palettes
  have stays : ∀ c, ((p.state? (s.cells.get c)).bind q.indexOf?).getD 0 = s.cells.get c := by
    intro c
    have stored : q.ids[s.cells.get c]? = some (content c) := by rw [ids]; exact shown c
    rw [Palette.state?, shown c, Option.bind_some,
      (Palette.indexOf?_eq_some_iff soundQ).mpr stored, Option.getD_some]
  have fits : ∀ c, ((p.state? (s.cells.get c)).bind q.indexOf?).getD 0 <
      Bits.capacity (s.bits + 1) := by
    intro c
    rw [stays c]
    exact Nat.lt_of_lt_of_le (s.cells.get_lt c) (Bits.capacity_mono (Nat.le_succ _))
  obtain ⟨g, widened, owner, paletted, wide, entries⟩ := widen_spec s (Nat.lt_succ_self _)
    (Nat.le_trans narrow (by decide)) (fun entry => ((p.state? entry).bind q.indexOf?).getD 0)
    (.paletted q)
    s!"Grew palette from {s.bits} to {s.bits + 1} bits per block ({q.size} states)" fits
  refine ⟨g, ?_, owner, .paletted q paletted soundQ (bits.trans wide.symm) (by omega) (by omega)
    fun c => ?_, ?_⟩
  · simp only [grow, encoding, dif_pos narrow, rebuilt, Outcome.ok_bind]
    exact widened
  · rw [entries, stays, ids]
    exact shown c
  · simp only [HasRoom, paletted]
    refine Or.inr ?_
    rw [Palette.capacity, bits, Palette.size, ids]
    exact roomier

theorem grows_past_palettes {r : Registry} (limit : r.index.limit ≤ UInt32.size) {s : Flat}
    {p : Palette} {content : Cell → StateId} {id : StateId} (encoding : s.encoding = .paletted p)
    (wide : s.bits = maxPaletteBits) (shown : ∀ c, p.ids[s.cells.get c]? = some (content c))
    (registered : ∀ c, r.index.hasRuntimeId (content c)) : s.Grows r content id := by
  have lower := minDirectBits_le r id
  have wider : s.bits < directBits r id := wide ▸ lower
  have le := directBits_le r id
  have number : ∀ c, ((p.state? (s.cells.get c)).getD r.air.runtimeId).toNat =
      (content c).toNat := by
    intro c
    rw [Palette.state?, shown c, Option.getD_some]
  have fits : ∀ c, ((p.state? (s.cells.get c)).getD r.air.runtimeId).toNat <
      Bits.capacity (directBits r id) := by
    intro c
    rw [number c]
    exact registered_lt_capacity limit (registered c) id
  obtain ⟨g, widened, owner, direct, width, entries⟩ := widen_spec s wider le
    (fun entry => ((p.state? entry).getD r.air.runtimeId).toNat) .direct
    s!"Switched from a {s.bits}-bit palette to {directBits r id}-bit runtime ids" fits
  refine ⟨g, ?_, owner, .direct direct (width ▸ lower) fun c => (entries c).trans (number c), ?_⟩
  · have notNarrow : ¬ s.bits < maxPaletteBits := Nat.not_lt.mpr (Nat.le_of_eq wide.symm)
    simp only [grow, encoding, dif_neg notNarrow, dif_pos (And.intro le wider)]
    exact widened
  · simp only [HasRoom, direct, width]
    exact lt_capacity_directBits (Nat.le_max_right _ _)

theorem grows_numbers {r : Registry} {s : Flat} {content : Cell → StateId} {id : StateId}
    (encoding : s.encoding = .direct) (lower : minDirectBits ≤ s.bits)
    (shown : ∀ c, s.cells.get c = (content c).toNat)
    (narrow : ¬ id.toNat < Bits.capacity s.bits) : s.Grows r content id := by
  have short : s.bits < maxBits := by
    refine Nat.lt_of_not_le fun long => narrow ?_
    exact Nat.lt_of_lt_of_le id.toNat_lt (Bits.capacity_mono long)
  have wider : s.bits < max (directBits r id) (s.bits + 1) :=
    Nat.lt_of_lt_of_le (Nat.lt_succ_self _) (Nat.le_max_right _ _)
  have le : max (directBits r id) (s.bits + 1) ≤ maxBits := Nat.max_le.mpr ⟨directBits_le r id, short⟩
  have fits : ∀ c, s.cells.get c < Bits.capacity (max (directBits r id) (s.bits + 1)) :=
    fun c => Nat.lt_of_lt_of_le (s.cells.get_lt c) (Bits.capacity_mono (Nat.le_of_lt wider))
  obtain ⟨g, widened, owner, direct, width, entries⟩ := widen_spec s wider le (fun entry => entry)
    .direct
    s!"Widened runtime ids from {s.bits} to {max (directBits r id) (s.bits + 1)} bits" fits
  refine ⟨g, ?_, owner, .direct direct (by omega) fun c => (entries c).trans (shown c), ?_⟩
  · simp only [grow, encoding, dif_pos le]
    exact widened
  · simp only [HasRoom, direct, width]
    refine Nat.lt_of_lt_of_le (lt_capacity_directBits (Nat.le_max_right _ _))
      (Bits.capacity_mono (Nat.le_max_left _ _))

theorem grow_spec {r : Registry} (limit : r.index.limit ≤ UInt32.size) {s : Flat}
    {content : Cell → StateId} (shows : s.Shows content)
    (registered : ∀ c, r.index.hasRuntimeId (content c)) {id : StateId} (full : ¬ s.HasRoom id) :
    s.Grows r content id := by
  cases shows with
  | paletted p encoding sound width lower upper shown =>
    rcases Nat.lt_or_eq_of_le upper with narrow | wide
    · exact grows_palette encoding sound width lower narrow shown
    · exact grows_past_palettes limit encoding wide shown registered
  | direct encoding lower shown =>
    simp only [HasRoom, encoding] at full
    exact grows_numbers encoding lower shown full

/-! ### Writes -/

/-- The events of a growth: both arrays are held while the entries move. -/
def growthEvents {s : Flat} (g : Growth s) : Array Event :=
  #[.acquired g.storage.cells.words.size, .logged ⟨.debug, g.message⟩, .released s.cells.words.size]

/-- How a state gets into a storage: at once, or after one growth that made the room for it. -/
inductive Placed (r : Registry) (s : Flat) (content : Cell → StateId) (c : Cell) (id : StateId)
    (t : Flat) : Prop
  | atOnce (room : s.HasRoom id) (placed : s.put? c id = .ok (some t))
      (run : store r s c id = ⟨#[], .ok t⟩)
  | grown {g : Growth s} (full : ¬ s.HasRoom id) (first : s.put? c id = .ok none)
      (grown : grow r s id = .ok g) (shows : g.storage.Shows content) (room : g.storage.HasRoom id)
      (placed : g.storage.put? c id = .ok (some t)) (run : store r s c id = ⟨growthEvents g, .ok t⟩)

section

variable {r : Registry} {s t : Flat} {content : Cell → StateId} {c : Cell} {id : StateId}

theorem store_of_room (placed : s.put? c id = .ok (some t)) : store r s c id = ⟨#[], .ok t⟩ := by
  rw [store, placed]
  rfl

theorem store_of_grown {g : Growth s} (full : s.put? c id = .ok none) (grown : grow r s id = .ok g)
    (placed : g.storage.put? c id = .ok (some t)) : store r s c id = ⟨growthEvents g, .ok t⟩ := by
  rw [store, full]
  simp only [grown]
  rw [store_of_room placed]
  rfl

theorem Placed.result (stored : Placed r s content c id t) : (store r s c id).result = .ok t := by
  cases stored with
  | atOnce _ _ run => rw [run]
  | grown _ _ _ _ _ _ run => rw [run]

end

theorem store_spec {r : Registry} (limit : r.index.limit ≤ UInt32.size) {s : Flat}
    {content : Cell → StateId} (shows : s.Shows content)
    (registered : ∀ c, r.index.hasRuntimeId (content c)) (c : Cell) (id : StateId) :
    ∃ t, Placed r s content c id t ∧ t.registry = s.registry ∧
      t.Shows (Function.update content c id) := by
  by_cases room : s.HasRoom id
  · obtain ⟨t, placed, owner, after⟩ := put?_spec shows c room
    exact ⟨t, .atOnce room placed (store_of_room placed), owner, after⟩
  · obtain ⟨g, grown, kept, grownShows, grownRoom⟩ := grow_spec limit shows registered room
    obtain ⟨t, placed, owner, after⟩ := put?_spec grownShows c grownRoom
    have first := put?_eq_none shows c room
    exact ⟨t, .grown room first grown grownShows grownRoom placed (store_of_grown first grown placed),
      owner.trans kept, after⟩

/-- A write of a registered state succeeds and changes one cell; any other write is refused. -/
theorem write_spec {r : Registry} (limit : r.index.limit ≤ UInt32.size) {s : Flat}
    {content : Cell → StateId} (shows : s.Shows content)
    (registered : ∀ c, r.index.hasRuntimeId (content c)) (c : Cell) (id : StateId) :
    (r.index.hasRuntimeId id = true → ∃ t, (write r s c id).result = .ok t ∧
      t.registry = s.registry ∧ t.Shows (Function.update content c id)) ∧
    (r.index.hasRuntimeId id = false →
      (write r s c id).result = .error (.error (.unknownRuntimeId id))) := by
  constructor
  · intro known
    rw [write, if_pos known]
    obtain ⟨t, stored, owner, after⟩ := store_spec limit shows registered c id
    exact ⟨t, stored.result, owner, after⟩
  · intro unknown
    rw [write, if_neg (by rw [unknown]; decide)]
    rfl

theorem Sound.write {r : Registry} (limit : r.index.limit ≤ UInt32.size) {s : Flat}
    (sound : s.Sound r) (c : Cell) (id : StateId) :
    (r.index.hasRuntimeId id = true ∧ ∃ t, (write r s c id).result = .ok t ∧ t.Sound r ∧
      t.read c = .ok id ∧ ∀ e, e ≠ c → t.read e = s.read e) ∨
    (r.index.hasRuntimeId id = false ∧
      (write r s c id).result = .error (.error (.unknownRuntimeId id))) := by
  obtain ⟨content, shows, registered⟩ := sound
  obtain ⟨granted, refused⟩ := write_spec limit shows registered c id
  cases known : r.index.hasRuntimeId id with
  | true =>
    obtain ⟨t, wrote, _, after⟩ := granted known
    refine Or.inl ⟨rfl, t, wrote, ⟨_, after, fun e => ?_⟩, ?_, fun e other => ?_⟩
    · rw [Function.update_apply]
      split
      · exact known
      · exact registered e
    · rw [after.read, Function.update_self]
    · rw [after.read, shows.read, Function.update_of_ne other]
  | false => exact Or.inr ⟨rfl, refused known⟩

def filled (r : Registry) (value : Cell → StateId) (done : List Cell) (c : Cell) : StateId :=
  if c ∈ done then value c else r.air.runtimeId

theorem update_filled (r : Registry) (value : Cell → StateId) (done : List Cell) (c : Cell) :
    Function.update (filled r value done) c (value c) = filled r value (done ++ [c]) := by
  funext e
  unfold filled
  by_cases same : e = c
  · subst same
    simp
  · simp [same]

theorem filled_known {r : Registry} (air : r.index.hasRuntimeId r.air.runtimeId = true)
    {value : Cell → StateId} {done : List Cell}
    (before : ∀ c ∈ done, r.index.hasRuntimeId (value c) = true) (c : Cell) :
    r.index.hasRuntimeId (filled r value done c) = true := by
  unfold filled
  split
  · rename_i member
    exact before c member
  · exact air

theorem write_filled {r : Registry} (limit : r.index.limit ≤ UInt32.size)
    (air : r.index.hasRuntimeId r.air.runtimeId = true) {value : Cell → StateId} {done : List Cell}
    {s : Flat} (shows : s.Shows (filled r value done))
    (before : ∀ c ∈ done, r.index.hasRuntimeId (value c) = true) {c : Cell}
    (known : r.index.hasRuntimeId (value c) = true) :
    ∃ t, (write r s c (value c)).result = .ok t ∧ t.registry = s.registry ∧
      t.Shows (filled r value (done ++ [c])) := by
  rw [← update_filled]
  exact (write_spec limit shows (filled_known air before) c (value c)).1 known

theorem clone_cases {s : Flat} {content : Cell → StateId} (shows : s.Shows content) :
    (∃ p q, s.encoding = .paletted p ∧ s.clone = .ok { s with encoding := .paletted q } ∧ q.Sound ∧
      q.ids = p.ids ∧ q.bits = p.bits) ∨
    (s.encoding = .direct ∧ s.clone = .ok s) := by
  cases shows with
  | paletted p encoding sound width _ upper =>
    have bound : p.bits ≤ Palette.maxBits := Nat.le_trans (width ▸ upper) (by decide)
    obtain ⟨q, rebuilt, soundQ, ids, bits⟩ := Palette.rebuilt_spec sound sound.room bound
    refine Or.inl ⟨p, q, encoding, ?_, soundQ, ids, bits⟩
    simp only [clone, encoding, rebuilt, Outcome.ok_bind]
    rfl
  | direct encoding => exact Or.inr ⟨encoding, by rw [clone, encoding]⟩

/-- A clone reads as the storage it was made from. -/
theorem clone_spec {s : Flat} {content : Cell → StateId} (shows : s.Shows content) :
    ∃ t, s.clone = .ok t ∧ t.registry = s.registry ∧ t.Shows content := by
  rcases clone_cases shows with ⟨p, q, encoding, cloned, soundQ, ids, bits⟩ | ⟨_, cloned⟩
  · refine ⟨_, cloned, rfl, ?_⟩
    cases shows with
    | paletted _ same _ width lower upper shown =>
      cases encoding.symm.trans same
      exact .paletted q rfl soundQ (bits.trans width) lower upper fun c => ids ▸ shown c
    | direct same => cases encoding.symm.trans same
  · exact ⟨s, cloned, rfl, shows⟩

end Flat
end Voxel
