import Voxel.Proofs.Storage.Run

/-!
# Room for one more state

A write to a flat storage grows it once at most. `Enlarges` says what a storage without room for a
state becomes, and `Stores` is a whole attempt with everything that it does on the way: either the
state is stored at once, or one growth makes the room and the second try succeeds. `perform_writing`
compares a write to one that changes the storage in place, the palette before the entries.
-/

namespace Voxel

namespace Flat

/-! ### One try and one growth -/

def Encoding.adding (id : StateId) : Encoding → Encoding
  | .paletted p => .paletted (p.adding id)
  | .direct => .direct

theorem put?_ok {s t : Flat} {c : Cell} {id : StateId} (placed : s.put? c id = .ok (some t)) :
    t.bits = s.bits ∧ t.encoding = Encoding.adding id s.encoding := by
  obtain ⟨registry, cells, encoding⟩ := s
  cases encoding with
  | paletted p =>
    simp only [put?] at placed
    simp only [Encoding.adding, Palette.adding]
    cases added : p.insert id with
    | full => simp [added] at placed
    | present index =>
      simp only [added] at placed
      obtain ⟨q, put, rest⟩ := Outcome.bind_ok placed
      cases rest
      exact ⟨Packed.bits_put put, rfl⟩
    | inserted index larger =>
      simp only [added] at placed
      obtain ⟨q, put, rest⟩ := Outcome.bind_ok placed
      cases rest
      exact ⟨Packed.bits_put put, rfl⟩
  | direct =>
    simp only [put?] at placed
    split at placed
    · obtain ⟨q, put, rest⟩ := Outcome.bind_ok placed
      cases rest
      exact ⟨Packed.bits_put put, rfl⟩
    · cases placed

theorem widen_ok {s : Flat} {bits : Nat} {wider : s.bits < bits} {le : bits ≤ maxBits} {f : Nat → Nat}
    {encoding : Encoding} {message : String} {g : Growth s}
    (widened : s.widen bits wider le f encoding message = .ok g) :
    g.storage.bits = bits ∧ g.storage.encoding = encoding := by
  unfold widen at widened
  split at widened
  · rename_i cells moved
    cases widened
    exact ⟨Packed.bits_remap moved, rfl⟩
  · cases widened

inductive Grown (r : Registry) (s : Flat) (id : StateId) (t : Flat) : Prop
  | palette {p q : Palette} (encoding : s.encoding = .paletted p) (narrow : s.bits < maxPaletteBits)
      (rebuilt : p.rebuilt (s.bits + 1) = .ok q) (after : t.encoding = .paletted q)
      (bits : t.bits = s.bits + 1)
  | numbers {p : Palette} (encoding : s.encoding = .paletted p) (full : maxPaletteBits ≤ s.bits)
      (after : t.encoding = .direct) (bits : t.bits = directBits r id)
  | wider (encoding : s.encoding = .direct) (after : t.encoding = .direct)
      (bits : t.bits = max (directBits r id) (s.bits + 1))

theorem grow_ok {r : Registry} {s : Flat} {id : StateId} {g : Growth s} (grown : grow r s id = .ok g) :
    Grown r s id g.storage := by
  unfold grow at grown
  split at grown
  · rename_i p encoding
    split at grown
    · rename_i narrow
      obtain ⟨q, rebuilt, widened⟩ := Outcome.bind_ok grown
      obtain ⟨bits, after⟩ := widen_ok widened
      exact .palette encoding narrow rebuilt after bits
    · rename_i full
      dsimp only at grown
      split at grown
      · obtain ⟨bits, after⟩ := widen_ok grown
        exact .numbers encoding (Nat.not_lt.mp full) after bits
      · cases grown
  · rename_i encoding
    dsimp only at grown
    split at grown
    · obtain ⟨bits, after⟩ := widen_ok grown
      exact .wider encoding after bits
    · cases grown

/-! ### Whole writes -/

theorem Shows.palette {s : Flat} {content : Cell → StateId} (shows : s.Shows content) {p : Palette}
    (encoding : s.encoding = .paletted p) :
    p.Sound ∧ p.capacity = 2 ^ s.bits ∧ minBits ≤ s.bits ∧ s.bits ≤ maxPaletteBits := by
  cases shows with
  | paletted q same sound width lower upper =>
    cases encoding.symm.trans same
    exact ⟨sound, congrArg Bits.capacity width, lower, upper⟩
  | direct same => cases encoding.symm.trans same

/-- A storage that has no room for a state, and the one it grows into, which has. -/
inductive Enlarges (r : Registry) (s : Flat) (id : StateId) (t : Flat) : Prop
  | palette {p q : Palette} (before : s.encoding = .paletted p) (absent : id ∉ p.ids)
      (full : p.size = 2 ^ s.bits) (narrow : s.bits < 12) (after : t.encoding = .paletted q)
      (bits : t.bits = s.bits + 1) (width : q.bits = t.bits) (states : q.ids = p.ids)
      (room : q.size < 2 ^ t.bits)
  | numbers {p : Palette} (before : s.encoding = .paletted p) (absent : id ∉ p.ids)
      (full : p.size = 2 ^ s.bits) (widest : s.bits = 12) (after : t.encoding = .direct)
      (lower : 13 ≤ t.bits) (upper : t.bits ≤ 32)
      (fits : ∀ a, r.index.hasRuntimeId a = true → a.toNat < 2 ^ t.bits)
      (room : id.toNat < 2 ^ t.bits)
  | wider (before : s.encoding = .direct) (narrow : 2 ^ s.bits ≤ id.toNat)
      (after : t.encoding = .direct) (wider : s.bits < t.bits) (upper : t.bits ≤ 32)
      (fits : ∀ a, r.index.hasRuntimeId a = true → a.toNat < 2 ^ t.bits)
      (room : id.toNat < 2 ^ t.bits)

/-- A write that stores its state, at the first try or at the second after one growth. -/
inductive Stores (r : Registry) (s : Flat) (c : Cell) (id : StateId) : Prop
  | atOnce {t : Flat} (first : s.put? c id = .ok (some t)) (run : s.write r c id = ⟨#[], .ok t⟩)
      (stored : t.read c = .ok id)
  | grown {g : Growth s} {t : Flat} (first : s.put? c id = .ok none) (growth : grow r s id = .ok g)
      (enlarges : s.Enlarges r id g.storage) (second : g.storage.put? c id = .ok (some t))
      (run : s.write r c id = ⟨growthEvents g, .ok t⟩) (stored : t.read c = .ok id)

section

variable {r : Registry} {s t : Flat} {content : Cell → StateId} {c : Cell} {id : StateId}

theorem Shows.enlarges (shows : s.Shows content) (limit : r.index.limit ≤ UInt32.size)
    (full : ¬ s.HasRoom id) (grown : Grown r s id t) (grownShows : t.Shows content)
    (room : t.HasRoom id) : s.Enlarges r id t := by
  unfold HasRoom at full room
  have upper : t.bits ≤ 32 := t.cells.bits_le
  have fits : ∀ a, r.index.hasRuntimeId a = true → a.toNat < Bits.capacity (directBits r id) :=
    fun a known => registered_lt_capacity limit known id
  cases grown with
  | palette before narrow rebuilt after bits =>
    rename_i p q
    obtain ⟨sound, capacity, _, _⟩ := shows.palette before
    obtain ⟨_, capacityQ, _, _⟩ := grownShows.palette after
    simp only [before, not_or, Nat.not_lt] at full
    simp only [after] at room
    have filled : p.size = 2 ^ s.bits := capacity ▸ Nat.le_antisymm sound.room full.2
    have roomy : p.size ≤ Bits.capacity (s.bits + 1) :=
      filled ▸ Bits.capacity_mono (Nat.le_succ s.bits)
    obtain ⟨_, same, _, ids, width⟩ :=
      Palette.rebuilt_spec sound roomy (Nat.le_trans narrow (by decide))
    cases rebuilt.symm.trans same
    refine .palette before full.1 filled narrow after bits (width.trans bits.symm) ids ?_
    rw [← capacityQ]
    exact room.resolve_left (ids ▸ full.1)
  | numbers before widest after bits =>
    obtain ⟨sound, capacity, _, narrow⟩ := shows.palette before
    simp only [before, not_or, Nat.not_lt] at full
    simp only [after] at room
    exact .numbers before full.1 (capacity ▸ Nat.le_antisymm sound.room full.2)
      (Nat.le_antisymm narrow widest) after (bits ▸ minDirectBits_le r id) upper (bits ▸ fits) room
  | wider before after bits =>
    simp only [before, Nat.not_lt] at full
    simp only [after] at room
    refine .wider before full after ?_ upper (fun a known => ?_) room
    · rw [bits]
      exact Nat.lt_of_lt_of_le (Nat.lt_succ_self _) (Nat.le_max_right _ _)
    · rw [bits]
      exact Nat.lt_of_lt_of_le (fits a known) (Bits.capacity_mono (Nat.le_max_left _ _))

/-- A storage of registered states stores any registered one with one growth at most. -/
theorem Shows.stores (shows : s.Shows content) (limit : r.index.limit ≤ UInt32.size)
    (registered : ∀ c, r.index.hasRuntimeId (content c) = true)
    (known : r.index.hasRuntimeId id = true) (c : Cell) : s.Stores r c id := by
  have run : s.write r c id = store r s c id := if_pos known
  obtain ⟨t, stored, _, after⟩ := store_spec limit shows registered c id
  have read : t.read c = .ok id := by rw [after.read, Function.update_self]
  cases stored with
  | atOnce _ placed stores => exact .atOnce placed (run.trans stores) read
  | grown full first grown grownShows room placed stores =>
    exact .grown first grown (shows.enlarges limit full (grow_ok grown) grownShows room) placed
      (run.trans stores) read

end

/-! ### Writes in place -/

abbrev Changes := InPlace Failure Flat

namespace Changes

open InPlace (perform perform_bind require)

def entryOf (id : StateId) : Changes (Option Nat) := do
  let s ← get
  match s.encoding with
  | .direct => return if id.toNat < Bits.capacity s.bits then some id.toNat else none
  | .paletted p =>
    match p.insert id with
    | .present index => return some index
    | .inserted index q =>
      set { s with encoding := .paletted q }
      return some index
    | .full => return none

def enter (c : Cell) (entry : Nat) : Changes Unit := do
  let cells ← require ((← get).cells.put c entry)
  modify fun s => { s with cells }

def enlarge (r : Registry) (id : StateId) : Changes Unit := do
  let g ← require (grow r (← get) id)
  set g.storage

def attempt (c : Cell) (id : StateId) : Changes Bool := do
  match ← entryOf id with
  | some entry =>
    enter c entry
    return true
  | none => return false

def storing (r : Registry) (c : Cell) (id : StateId) : Nat → Changes Unit
  | 0 => require (.error .fault)
  | tries + 1 => do
    if ← attempt c id then return
    enlarge r id
    storing r c id tries

/-- A write that grows the storage until it has stored the state, within a number of tries. -/
def writing (r : Registry) (c : Cell) (id : StateId) (tries : Nat) : Changes Unit := do
  if r.index.hasRuntimeId id then storing r c id tries
  else throw (.error (.unknownRuntimeId id))

section

variable {r : Registry} {s t : Flat} {c : Cell} {id : StateId}

theorem perform_entered {entry : Nat} {cells : Packed}
    (looked : perform s (entryOf id) = (.ok (some entry), t)) (put : t.cells.put c entry = .ok cells) :
    perform s (attempt c id) = (.ok true, { t with cells }) := by
  have entered : perform t (enter c entry) = (.ok (), { t with cells }) := by
    show perform t (require (t.cells.put c entry) >>= fun cells => modify fun t => { t with cells }) = _
    rw [put]
    rfl
  rw [attempt, perform_bind, looked]
  show perform t (enter c entry >>= fun _ => pure true) = _
  rw [perform_bind, entered]
  rfl

theorem perform_full (looked : perform s (entryOf id) = (.ok none, s)) :
    perform s (attempt c id) = (.ok false, s) := by
  rw [attempt, perform_bind, looked]
  rfl

theorem perform_attempt {o : Option Flat} (outcome : s.put? c id = .ok o) :
    perform s (attempt c id) = (.ok o.isSome, o.getD s) := by
  obtain ⟨registry, cells, encoding⟩ := s
  cases encoding with
  | direct =>
    by_cases fits : id.toNat < Bits.capacity cells.bits
    · have looked : perform (Flat.mk registry cells .direct) (entryOf id) =
          (.ok (some id.toNat), ⟨registry, cells, .direct⟩) :=
        congrArg (fun o => (Except.ok o, Flat.mk registry cells .direct)) (if_pos fits)
      obtain ⟨moved, put, rest⟩ := Outcome.bind_ok ((if_pos fits).symm.trans outcome)
      cases rest
      exact perform_entered looked put
    · have looked : perform (Flat.mk registry cells .direct) (entryOf id) =
          (.ok none, ⟨registry, cells, .direct⟩) :=
        congrArg (fun o => (Except.ok o, Flat.mk registry cells .direct)) (if_neg fits)
      obtain rfl := Except.ok.inj ((if_neg fits).symm.trans outcome)
      exact perform_full looked
  | paletted p =>
    have looked : perform (Flat.mk registry cells (.paletted p)) (entryOf id) = match p.insert id with
        | .present index => (.ok (some index), ⟨registry, cells, .paletted p⟩)
        | .inserted index q => (.ok (some index), ⟨registry, cells, .paletted q⟩)
        | .full => (.ok none, ⟨registry, cells, .paletted p⟩) := by
      show perform (Flat.mk registry cells (.paletted p)) (match p.insert id with
        | .present index => return some index
        | .inserted index q => do
          set (Flat.mk registry cells (.paletted q))
          return some index
        | .full => return none) = _
      cases p.insert id <;> rfl
    cases found : p.insert id with
    | present index =>
      simp only [found] at looked
      simp only [put?, found] at outcome
      obtain ⟨moved, put, rest⟩ := Outcome.bind_ok outcome
      cases rest
      exact perform_entered looked put
    | inserted index q =>
      simp only [found] at looked
      simp only [put?, found] at outcome
      obtain ⟨moved, put, rest⟩ := Outcome.bind_ok outcome
      cases rest
      exact perform_entered looked put
    | full =>
      simp only [found] at looked
      simp only [put?, found] at outcome
      cases outcome
      exact perform_full looked

theorem perform_stored (tries : Nat) (placed : s.put? c id = .ok (some t)) :
    perform s (storing r c id (tries + 1)) = (.ok (), t) := by
  rw [storing, perform_bind, perform_attempt placed]
  rfl

theorem perform_enlarged (tries : Nat) {g : Growth s} (full : s.put? c id = .ok none)
    (grown : grow r s id = .ok g) :
    perform s (storing r c id (tries + 1)) = perform g.storage (storing r c id tries) := by
  rw [storing, perform_bind, perform_attempt full]
  show perform s (enlarge r id >>= fun _ => storing r c id tries) = _
  have enlarged : perform s (enlarge r id) = (.ok (), g.storage) := by
    show perform s (require (grow r s id) >>= fun g => set g.storage) = _
    rw [grown]
    rfl
  rw [perform_bind, enlarged]

/-- A write in place ends with its second try at the latest, and leaves no trace when it fails. -/
theorem perform_writing {content : Cell → StateId} (shows : s.Shows content)
    (limit : r.index.limit ≤ UInt32.size)
    (registered : ∀ c, r.index.hasRuntimeId (content c) = true) (tries : Nat) :
    perform s (writing r c id (tries + 2)) = match (s.write r c id).result with
      | .ok t => (.ok (), t)
      | .error f => (.error f, s) := by
  by_cases known : r.index.hasRuntimeId id = true
  · rw [writing, if_pos known]
    cases shows.stores limit registered known c with
    | atOnce first run => rw [perform_stored _ first, run]
    | grown first growth _ second run =>
      rw [perform_enlarged _ first growth, perform_stored _ second, run]
  · rw [writing, if_neg known, write, if_neg known]
    rfl

end

end Changes

end Flat

namespace Scene

def fresh (r : Registry) : Scene := start r (Flat.fresh r) fun _ => r.air.runtimeId

/-- Throughout a run a storage takes every registered state, with one growth at most. -/
theorem run_stores {r : Registry} (built : r.Built) {s : Flat} {content : Cell → StateId}
    (origin : Origin r s content) (acts : List Act) :
    ∃ t, ((start r s content).run acts).storage = .plain (.flat t) ∧
      ∀ c id, ((start r s content).run acts).registry.index.hasRuntimeId id = true →
        t.Stores ((start r s content).run acts).registry c id := by
  have sound := (start_sound built.sound origin).run acts
  obtain ⟨t, storage, shows⟩ := sound.storage
  exact ⟨t, storage, fun c id known =>
    shows.stores sound.registry.index.limit_le sound.registered known c⟩

theorem run_inPlace {r : Registry} (built : r.Built) {s : Flat} {content : Cell → StateId}
    (origin : Origin r s content) (acts : List Act) :
    ∃ t, ((start r s content).run acts).storage = .plain (.flat t) ∧ ∀ c id tries,
      InPlace.perform t (Flat.Changes.writing ((start r s content).run acts).registry c id (tries + 2)) =
        match (t.write ((start r s content).run acts).registry c id).result with
        | .ok u => (.ok (), u)
        | .error f => (.error f, t) := by
  have sound := (start_sound built.sound origin).run acts
  obtain ⟨t, storage, shows⟩ := sound.storage
  exact ⟨t, storage, fun c id =>
    Flat.Changes.perform_writing shows sound.registry.index.limit_le sound.registered⟩

def lampActs : List Act :=
  [.write ⟨0, 0, 0⟩ 1, .register ⟨.standard "lamp", [.bool "lit" false], none, none⟩,
    .write ⟨15, 7, 3⟩ 1, .clone]

theorem run_stores_lamp : ∃ r, Registry.Global r ∧ ∃ t,
    ((fresh r).run lampActs).storage = .plain (.flat t) ∧
    ∀ c id, ((fresh r).run lampActs).registry.index.hasRuntimeId id = true →
      t.Stores ((fresh r).run lampActs).registry c id := by
  obtain ⟨r, made⟩ := Registry.newGlobal_ok 0
  exact ⟨r, .start made, run_stores (.isGlobal (.start made)) .fresh lampActs⟩

end Scene

end Voxel
