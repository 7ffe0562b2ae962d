import Mathlib.Logic.Function.Basic
import Mathlib.Tactic.Common
import Voxel.Storage.Basic

/-!
# Layers of numbers and data

A layer in the old layout is a plain map from cells to block numbers with data, however these are
spread over its three arrays. `pairAt_placed` and `hasHigh_placed` say what one write does to them,
`Holds.step` what any request does, and `run_agrees` puts a whole run together with where the layer
came from. `inPlace_eq` compares a write to one that changes the arrays one after the other.
-/

namespace Voxel

namespace Nibbles

/-! ### Halves of bytes -/

theorem toNat_low (b : UInt8) : (b &&& 0xF).toNat = b.toNat % 16 :=
  Nat.and_two_pow_sub_one_eq_mod b.toNat 4

theorem toNat_high (b : UInt8) : (b >>> 4).toNat = b.toNat / 16 :=
  Nat.shiftRight_eq_div_pow b.toNat 4

theorem toNat_top (b : UInt8) : (b &&& 0xF0).toNat = 16 * (b.toNat / 16) := by
  have all : ∀ i : Fin 256, i.val &&& 0xF0 = 16 * (i.val / 16) := by decide +kernel
  exact all ⟨b.toNat, b.toNat_lt⟩

theorem toNat_join (c : Cell) (byte value : UInt8) : (join c byte value).toNat =
    if c.val % 2 = 0 then 16 * (byte.toNat / 16) + value.toNat % 16
    else 16 * (value.toNat % 16) + byte.toNat % 16 := by
  unfold join
  split
  · have low : value.toNat % 16 < 2 ^ 4 := Nat.mod_lt _ (by decide)
    rw [UInt8.toNat_or, toNat_top, toNat_low]
    exact (Nat.two_pow_add_eq_or_of_lt low _).symm
  · have low : byte.toNat % 16 < 2 ^ 4 := Nat.mod_lt _ (by decide)
    have raised : (value <<< (4 : UInt8)).toNat = 2 ^ 4 * (value.toNat % 16) := by
      rw [UInt8.toNat_shiftLeft, Nat.shiftLeft_eq]
      show value.toNat * 16 % 256 = 16 * (value.toNat % 16)
      omega
    rw [UInt8.toNat_or, toNat_low, raised, Nat.or_comm]
    exact (Nat.two_pow_add_eq_or_of_lt low _).symm

def byteAt (v : Nibbles) (c : Cell) : UInt8 := Vector.get v ⟨c.val / 2, byte_lt c⟩

theorem toNat_get (v : Nibbles) (c : Cell) : (get v c).toNat =
    if c.val % 2 = 0 then (byteAt v c).toNat % 16 else (byteAt v c).toNat / 16 := by
  show (if c.val % 2 = 0 then byteAt v c &&& 0xF else byteAt v c >>> 4).toNat = _
  split
  · exact toNat_low _
  · exact toNat_high _

theorem get_lt (v : Nibbles) (c : Cell) : (get v c).toNat < 16 := by
  have byte := (byteAt v c).toNat_lt
  rw [toNat_get]
  split <;> omega

theorem byteAt_set (v : Nibbles) (c d : Cell) (value : UInt8) : byteAt (set v c value) d =
    if c.val / 2 = d.val / 2 then join c (byteAt v c) value else byteAt v d :=
  Vector.getElem_set (byte_lt c) (byte_lt d)

theorem get_set (v : Nibbles) (c d : Cell) {value : UInt8} (small : value.toNat < 16) :
    get (set v c value) d = if d = c then value else get v d := by
  have byte := (byteAt v c).toNat_lt
  have same : d = c ↔ c.val / 2 = d.val / 2 ∧ c.val % 2 = d.val % 2 := by
    rw [Fin.ext_iff]
    omega
  apply UInt8.toNat_inj.mp
  rw [toNat_get, byteAt_set]
  by_cases shared : c.val / 2 = d.val / 2
  · have neighbour : byteAt v d = byteAt v c := congrArg (Vector.get v) (Fin.ext shared.symm)
    rw [if_pos shared, toNat_join]
    by_cases here : d = c
    · rw [if_pos here, here]
      split <;> omega
    · rw [if_neg here, toNat_get, neighbour]
      have apart : c.val % 2 ≠ d.val % 2 := fun parity => here (same.mpr ⟨shared, parity⟩)
      split <;> split <;> omega
  · rw [if_neg shared, if_neg fun here => shared (same.mp here).1, toNat_get]

theorem get_zero (c : Cell) : get (Vector.replicate _ 0) c = 0 := by
  have byte : byteAt (Vector.replicate _ 0) c = 0 := Vector.getElem_replicate (byte_lt c)
  apply UInt8.toNat_inj.mp
  rw [toNat_get, byte]
  split <;> rfl

end Nibbles

namespace Legacy

/-! ### Numbers and data at cells -/

def highAt (s : Legacy) (c : Cell) : UInt8 :=
  match s.high with
  | some v => Nibbles.get v c
  | none => 0

theorem toNat_idAt (s : Legacy) (c : Cell) :
    (s.idAt c).toNat = 256 * (s.highAt c).toNat + (s.blocks.get c).toNat := by
  show _ = 256 * (s.highAt c).toNat + (s.blocks[c]).toNat
  have low : (s.blocks[c]).toNat < 2 ^ 8 := (s.blocks[c]).toNat_lt
  have small : (s.highAt c).toNat < 256 := (s.highAt c).toNat_lt
  have shifted : ((s.highAt c).toUInt16 <<< 8).toNat = 2 ^ 8 * (s.highAt c).toNat := by
    rw [UInt16.toNat_shiftLeft, UInt8.toNat_toUInt16, Nat.shiftLeft_eq]
    show (s.highAt c).toNat * 256 % 65536 = 256 * (s.highAt c).toNat
    omega
  have same : s.idAt c = (s.highAt c).toUInt16 <<< 8 ||| (s.blocks[c]).toUInt16 := by
    unfold idAt highAt
    cases s.high <;> rfl
  rw [same, UInt16.toNat_or, shifted, UInt8.toNat_toUInt16]
  exact (Nat.two_pow_add_eq_or_of_lt low _).symm

theorem idAt_lt (s : Legacy) (c : Cell) : (s.idAt c).toNat < 4096 := by
  have low := (s.blocks.get c).toNat_lt
  have high : (s.highAt c).toNat < 16 := by
    unfold highAt
    split
    · exact Nibbles.get_lt _ c
    · decide
  rw [toNat_idAt]
  omega

theorem dataAt_lt (s : Legacy) (c : Cell) : (s.dataAt c).toNat < 16 := Nibbles.get_lt s.data c

theorem toNat_combinedAt (s : Legacy) (c : Cell) :
    (s.combinedAt c).toNat = 16 * (s.idAt c).toNat + (s.dataAt c).toNat := by
  have data : (s.dataAt c).toNat < 2 ^ 4 := s.dataAt_lt c
  have shifted : (s.idAt c <<< 4).toNat = 2 ^ 4 * (s.idAt c).toNat := by
    have id := s.idAt_lt c
    rw [UInt16.toNat_shiftLeft, Nat.shiftLeft_eq]
    show (s.idAt c).toNat * 16 % 65536 = 16 * (s.idAt c).toNat
    omega
  rw [combinedAt, UInt16.toNat_or, shifted, UInt8.toNat_toUInt16]
  exact (Nat.two_pow_add_eq_or_of_lt data _).symm

theorem toNat_shiftRight (id : UInt16) : (id >>> 8).toUInt8.toNat = id.toNat / 256 := by
  have small := id.toNat_lt
  rw [UInt16.toNat_toUInt8, UInt16.toNat_shiftRight]
  show id.toNat >>> 8 % 256 = _
  rw [Nat.shiftRight_eq_div_pow]
  omega

/-! ### One write -/

section

variable (s : Legacy) (c : Cell)

theorem highAt_putId (d : Cell) {id : UInt16} (small : id.toNat < 4096) : (s.putId c id).highAt d =
    if d = c then (id >>> 8).toUInt8 else s.highAt d := by
  have nibble : (id >>> 8).toUInt8.toNat < 16 := by
    rw [toNat_shiftRight]
    omega
  unfold highAt putId
  cases s.high with
  | some v => exact Nibbles.get_set v c d nibble
  | none =>
    dsimp only
    by_cases none : (id >>> 8).toUInt8 = 0
    · rw [if_pos none, none, ite_self]
    · rw [if_neg none]
      dsimp only
      rw [Nibbles.get_set _ c d nibble, Nibbles.get_zero]

theorem idAt_putId {id : UInt16} (small : id.toNat < 4096) (d : Cell) :
    (s.putId c id).idAt d = if d = c then id else s.idAt d := by
  apply UInt16.toNat_inj.mp
  have byte : (s.putId c id).blocks.get d = if d = c then id.toUInt8 else s.blocks.get d := by
    show (s.blocks.set c id.toUInt8)[d.val] = _
    rw [Vector.getElem_set]
    simp only [Fin.ext_iff, eq_comm]
    rfl
  rw [toNat_idAt, byte, highAt_putId s c d small]
  split
  · rw [toNat_shiftRight, UInt16.toNat_toUInt8]
    omega
  · rw [toNat_idAt]

theorem hasHigh_putId (id : UInt16) :
    (s.putId c id).hasHigh = true ↔ s.hasHigh = true ∨ 255 < id.toNat := by
  have upper : (id >>> 8).toUInt8 = 0 ↔ id.toNat ≤ 255 := by
    rw [← UInt8.toNat_inj, toNat_shiftRight]
    show id.toNat / 256 = 0 ↔ _
    omega
  unfold hasHigh putId
  cases s.high with
  | some v => simp
  | none =>
    dsimp only
    split
    · rename_i none
      simp [upper.mp none]
    · rename_i some
      rw [upper] at some
      simpa using some

theorem pairAt_putId (d : Cell) {id : UInt16} (small : id.toNat < 4096) :
    (s.putId c id).pairAt d = if d = c then ⟨id, s.dataAt c⟩ else s.pairAt d := by
  show LegacyPair.mk ((s.putId c id).idAt d) (s.dataAt d) = _
  rw [idAt_putId s c small]
  split
  · rename_i here
    rw [here]
  · rfl

theorem pairAt_putData (d : Cell) {data : UInt8} (small : data.toNat < 16) :
    (s.putData c data).pairAt d = if d = c then ⟨s.idAt c, data⟩ else s.pairAt d := by
  show LegacyPair.mk (s.idAt d) (Nibbles.get (Nibbles.set s.data c data) d) = _
  rw [Nibbles.get_set s.data c d small]
  split
  · rename_i here
    rw [here]
  · rfl

end

/-! ### Requests -/

/-- What is written to a cell: a block number with data, or one of the two. -/
inductive Entry
  | pair (x : LegacyPair)
  | number (n : UInt16)
  | data (bits : UInt8)

namespace Entry

def number? : Entry → Option UInt16
  | pair x => some x.id
  | number n => some n
  | data _ => none

def data? : Entry → Option UInt8
  | pair x => some x.data
  | number _ => none
  | data bits => some bits

def apply (e : Entry) (x : LegacyPair) : LegacyPair := ⟨e.number?.getD x.id, e.data?.getD x.data⟩

def Fits (e : Entry) : Prop :=
  (∀ n ∈ e.number?, n.toNat < 4096) ∧ ∀ bits ∈ e.data?, bits.toNat < 16

instance (e : Entry) : Decidable e.Fits := inferInstanceAs (Decidable (_ ∧ _))

end Entry

def placed (s : Legacy) (c : Cell) : Entry → Legacy
  | .pair x => (s.putId c x.id).putData c x.data
  | .number n => s.putId c n
  | .data bits => s.putData c bits

def put (s : Legacy) (p : Position) : Entry → Report Legacy
  | .pair x => s.setPair p x
  | .number n => s.setId p n
  | .data bits => s.setData p bits

theorem pairAt_placed (s : Legacy) (c d : Cell) {e : Entry} (fits : e.Fits) :
    (s.placed c e).pairAt d = if d = c then e.apply (s.pairAt c) else s.pairAt d := by
  obtain ⟨number, data⟩ := fits
  cases e with
  | pair x =>
    have first := idAt_putId s c (number _ rfl) c
    rw [if_pos rfl] at first
    rw [placed, pairAt_putData _ c d (data _ rfl), pairAt_putId s c d (number _ rfl), first]
    split <;> rfl
  | number n => exact pairAt_putId s c d (number _ rfl)
  | data bits => exact pairAt_putData s c d (data _ rfl)

theorem hasHigh_placed (s : Legacy) (c : Cell) (e : Entry) :
    (s.placed c e).hasHigh = true ↔ s.hasHigh = true ∨ ∃ n ∈ e.number?, 255 < n.toNat := by
  cases e with
  | pair x =>
    refine (hasHigh_putId s c x.id).trans ?_
    simp [Entry.number?]
  | number n =>
    refine (hasHigh_putId s c n).trans ?_
    simp [Entry.number?]
  | data bits => simp [Entry.number?, placed, putData, hasHigh]

theorem checkId_eq (n : UInt16) : checkId n = if n.toNat < 4096 then .ok ()
    else .error (.invalidValue (.storage (.legacyId n 4096))) := rfl

theorem checkData_eq (bits : UInt8) : checkData bits = if bits.toNat < 16 then .ok ()
    else .error (.invalidValue (.storage (.legacyData bits))) := rfl

theorem result_setId (s : Legacy) (p : Position) (n : UInt16) : (s.setId p n).result =
    if n.toNat < 4096 then (fun c => s.putId c n) <$> p.cell
    else .error (.error (.invalidValue (.storage (.legacyId n 4096)))) := by
  rw [setId, Report.result_bind, Report.result_liftError, checkId_eq]
  split
  · rw [Failure.lift_ok, Outcome.ok_bind, Report.result_bind, Report.result_lift]
    cases p.cell with
    | ok c =>
      rw [Outcome.ok_bind]
      dsimp only
      split <;> rfl
    | error f => rfl
  · rfl

theorem result_setData (s : Legacy) (p : Position) (bits : UInt8) : (s.setData p bits).result =
    if bits.toNat < 16 then (fun c => s.putData c bits) <$> p.cell
    else .error (.error (.invalidValue (.storage (.legacyData bits)))) := by
  rw [setData, Report.result_bind, Report.result_liftError, checkData_eq]
  split
  · rw [Failure.lift_ok, Outcome.ok_bind, Report.result_bind, Report.result_lift]
    cases p.cell <;> rfl
  · rfl

theorem result_setPair (s : Legacy) (p : Position) (x : LegacyPair) : (s.setPair p x).result =
    if x.data.toNat < 16 then
      if x.id.toNat < 4096 then (fun c => (s.putId c x.id).putData c x.data) <$> p.cell
      else .error (.error (.invalidValue (.storage (.legacyId x.id 4096))))
    else .error (.error (.invalidValue (.storage (.legacyData x.data)))) := by
  rw [setPair, Report.result_bind, Report.result_liftError, checkData_eq]
  split
  · rw [Failure.lift_ok, Outcome.ok_bind, Report.result_bind, result_setId]
    split
    · cases p.cell <;> rfl
    · rfl
  · rfl

/-- An entry that fits is written if there is a cell, and one that does not is refused anyhow. -/
theorem put_cases (s : Legacy) (p : Position) (e : Entry) :
    (e.Fits ∧ (s.put p e).result = (fun c => s.placed c e) <$> p.cell) ∨
    (¬ e.Fits ∧ ∃ misuse, (s.put p e).result = .error (.error (.invalidValue misuse))) := by
  cases e with
  | pair x =>
    rw [put, result_setPair]
    split
    · rename_i data
      split
      · rename_i number
        exact Or.inl ⟨⟨by simpa [Entry.number?], by simpa [Entry.data?]⟩, rfl⟩
      · rename_i number
        exact Or.inr ⟨fun fits => number (fits.1 _ rfl), _, rfl⟩
    · rename_i data
      exact Or.inr ⟨fun fits => data (fits.2 _ rfl), _, rfl⟩
  | number n =>
    rw [put, result_setId]
    split
    · exact Or.inl ⟨⟨by simpa [Entry.number?], by simp [Entry.data?]⟩, rfl⟩
    · rename_i number
      exact Or.inr ⟨fun fits => number (fits.1 _ rfl), _, rfl⟩
  | data bits =>
    rw [put, result_setData]
    split
    · exact Or.inl ⟨⟨by simp [Entry.number?], by simpa [Entry.data?]⟩, rfl⟩
    · rename_i data
      exact Or.inr ⟨fun fits => data (fits.2 _ rfl), _, rfl⟩

/-! ### Runs -/

inductive Act
  | write (p : Position) (e : Entry)
  | clone

def copy (s : Legacy) : Report Legacy := do
  match ← (Layout.legacy s).clone with
  | .legacy t => return t
  | .flat _ => return s

/-- The layer after something was done, with the outcome. What fails leaves the layer as it was. -/
def step (s : Legacy) (a : Act) : Legacy × Except Failure Unit :=
  let (t, outcome) := Report.keeping s <| match a with
    | .write p e => s.put p e
    | .clone => s.copy
  (t, outcome.result)

def run (s : Legacy) (acts : List Act) : Legacy := acts.foldl (fun t a => (t.step a).1) s

/-- The cell that is written and what is written to it, if it can be. -/
def Act.granted : Act → Option (Cell × Entry)
  | .write p e => if e.Fits then p.cell.toOption.map (·, e) else none
  | .clone => none

def written (pairs : Cell → LegacyPair) (a : Act) : Cell → LegacyPair :=
  match a.granted with
  | some (c, e) => Function.update pairs c (e.apply (pairs c))
  | none => pairs

def Act.Raises (a : Act) : Prop := ∃ c e, a.granted = some (c, e) ∧ ∃ n ∈ e.number?, 255 < n.toNat

theorem Act.raises_iff {a : Act} {c : Cell} {e : Entry} (granted : a.granted = some (c, e)) :
    a.Raises ↔ ∃ n ∈ e.number?, 255 < n.toNat := by
  constructor
  · rintro ⟨d, f, same, raises⟩
    rw [granted] at same
    cases same
    exact raises
  · intro raises
    exact ⟨c, e, granted, raises⟩

/-- A layer has the numbers and data of a plain map, and room for high numbers once it needed any. -/
structure Holds (s : Legacy) (pairs : Cell → LegacyPair) (raised : Prop) : Prop where
  pair : ∀ c, s.pairAt c = pairs c
  hasHigh : s.hasHigh = true ↔ raised

section

variable {s : Legacy} {pairs : Cell → LegacyPair} {raised : Prop}

theorem step_eq (s : Legacy) (p : Position) (e : Entry) : s.step (.write p e) =
    match (s.put p e).result with
    | .ok t => (t, .ok ())
    | .error f => (s, .error f) := by
  unfold step Report.keeping
  cases (s.put p e).result <;> rfl

theorem step_write (s : Legacy) (p : Position) (e : Entry) :
    (∃ c, p.cell = .ok c ∧ e.Fits ∧ s.step (.write p e) = (s.placed c e, .ok ())) ∨
    (∃ f, p.cell = .error f ∧ e.Fits ∧ s.step (.write p e) = (s, .error f)) ∨
    (¬ e.Fits ∧ ∃ misuse, s.step (.write p e) = (s, .error (.error (.invalidValue misuse)))) := by
  rw [step_eq]
  obtain ⟨fits, put⟩ | ⟨tight, misuse, put⟩ := s.put_cases p e
  · rw [put]
    cases p.cell with
    | ok c => exact Or.inl ⟨c, rfl, fits, rfl⟩
    | error f => exact Or.inr (Or.inl ⟨f, rfl, fits, rfl⟩)
  · rw [put]
    exact Or.inr (Or.inr ⟨tight, misuse, rfl⟩)

theorem Holds.placed (holds : s.Holds pairs raised) (c : Cell) {e : Entry} (fits : e.Fits) :
    (s.placed c e).Holds (Function.update pairs c (e.apply (pairs c)))
      (raised ∨ ∃ n ∈ e.number?, 255 < n.toNat) := by
  refine ⟨fun d => ?_, (hasHigh_placed s c e).trans (or_congr_left holds.hasHigh)⟩
  rw [pairAt_placed s c d fits, holds.pair, holds.pair, Function.update_apply]

theorem step_cases (s : Legacy) (a : Act) :
    (∃ c e, a.granted = some (c, e) ∧ e.Fits ∧ (s.step a).1 = s.placed c e) ∨
    (a.granted = none ∧ (s.step a).1 = s) := by
  cases a with
  | write p e =>
    rw [Act.granted]
    obtain ⟨c, inside, fits, wrote⟩ | ⟨f, outside, fits, failed⟩ | ⟨tight, misuse, failed⟩ :=
      step_write s p e
    · rw [wrote, inside]
      exact Or.inl ⟨c, e, if_pos fits, fits, rfl⟩
    · rw [failed, outside]
      exact Or.inr ⟨if_pos fits, rfl⟩
    · rw [failed]
      exact Or.inr ⟨if_neg tight, rfl⟩
  | clone => exact Or.inr ⟨rfl, rfl⟩

theorem Holds.step (holds : s.Holds pairs raised) (a : Act) :
    (s.step a).1.Holds (written pairs a) (raised ∨ a.Raises) := by
  unfold written
  obtain ⟨c, e, granted, fits, wrote⟩ | ⟨none, kept⟩ := s.step_cases a
  · rw [granted, wrote, Act.raises_iff granted]
    exact holds.placed c fits
  · rw [none, kept]
    simpa [Act.Raises, none] using holds

theorem Holds.run (holds : s.Holds pairs raised) (acts : List Act) :
    (s.run acts).Holds (acts.foldl written pairs) (raised ∨ ∃ a ∈ acts, a.Raises) := by
  induction acts generalizing s pairs raised with
  | nil => simpa [Legacy.run] using holds
  | cons a rest ih => simpa [or_assoc, Legacy.run] using ih (holds.step a)

end

/-! ### Writing in place -/

/-- Changes to the arrays one after the other. What is changed before a failure stays changed. -/
abbrev Changes := ExceptT Failure (StateM Legacy)

namespace Changes

def require {α : Type} (x : Except Failure α) : Changes α := ExceptT.mk (pure x)

def setId (p : Position) (n : UInt16) : Changes Unit := do
  require (checkId n)
  let c ← require p.cell
  modify (·.putId c n)

def setData (p : Position) (bits : UInt8) : Changes Unit := do
  require (checkData bits)
  let c ← require p.cell
  modify (·.putData c bits)

def setPair (p : Position) (x : LegacyPair) : Changes Unit := do
  require (checkData x.data)
  setId p x.id
  let c ← require p.cell
  modify (·.putData c x.data)

def put (p : Position) : Entry → Changes Unit
  | .pair x => setPair p x
  | .number n => setId p n
  | .data bits => setData p bits

def perform (s : Legacy) (x : Changes Unit) : Legacy × Except Failure Unit :=
  (StateT.run (ExceptT.run x) s).swap

/-- A write in place leaves no trace when it fails, so it is the same as one of the whole layer. -/
theorem perform_put (s : Legacy) (p : Position) (e : Entry) :
    perform s (put p e) = s.step (.write p e) := by
  rw [step_eq]
  cases e with
  | pair x =>
    -- the data is checked first and written last, so a bad number is refused with nothing written
    rw [Legacy.put, result_setPair, put, setPair, setId, checkData_eq, checkId_eq]
    by_cases data : x.data.toNat < 16
    · by_cases number : x.id.toNat < 4096
      · rw [if_pos data, if_pos data, if_pos number, if_pos number]
        cases p.cell <;> rfl
      · rw [if_pos data, if_pos data, if_neg number, if_neg number]
        rfl
    · rw [if_neg data, if_neg data]
      rfl
  | number n =>
    rw [Legacy.put, result_setId, put, setId, checkId_eq]
    by_cases number : n.toNat < 4096
    · rw [if_pos number, if_pos number]
      cases p.cell <;> rfl
    · rw [if_neg number, if_neg number]
      rfl
  | data bits =>
    rw [Legacy.put, result_setData, put, setData, checkData_eq]
    by_cases data : bits.toNat < 16
    · rw [if_pos data, if_pos data]
      cases p.cell <;> rfl
    · rw [if_neg data, if_neg data]
      rfl

end Changes

/-! ### Where layers come from -/

/-- The four bits of a cell in an array of them, two cells a byte. -/
def nibbleOf (bytes : Array UInt8) (c : Cell) : Nat :=
  let byte := bytes[c.val / 2]!.toNat
  if c.val % 2 = 0 then byte % 16 else byte / 16

inductive Source
  | fresh
  | arrays (blocks data : Array UInt8) (high : Option (Array UInt8))

namespace Source

def layer (registry : RegistryId) : Source → Except BlockError Legacy
  | fresh => .ok (Legacy.fresh registry)
  | arrays blocks data high => ofArrays registry blocks data high

def Sized : Source → Prop
  | fresh => True
  | arrays blocks data high =>
    blocks.size = 4096 ∧ data.size = 2048 ∧ ∀ bytes ∈ high, bytes.size = 2048

def pairs : Source → Cell → LegacyPair
  | fresh, _ => ⟨0, 0⟩
  | arrays blocks data high, c =>
    ⟨.ofNat (blocks[c.val]!.toNat + 256 * high.elim 0 (nibbleOf · c)), .ofNat (nibbleOf data c)⟩

def Raised : Source → Prop
  | fresh => False
  | arrays _ _ high => high.isSome = true

end Source

theorem toNat_get_ofArray {bytes : Array UInt8} (size : bytes.size = 2048) (c : Cell) :
    (Nibbles.get ⟨bytes, size⟩ c).toNat = nibbleOf bytes c := by
  have inside : c.val / 2 < bytes.size := size ▸ Nibbles.byte_lt c
  have byte : Nibbles.byteAt ⟨bytes, size⟩ c = bytes[c.val / 2]! :=
    (getElem!_pos bytes (c.val / 2) inside).symm
  rw [Nibbles.toNat_get, byte]
  rfl

theorem holds_fresh (registry : RegistryId) :
    (Legacy.fresh registry).Holds (fun _ => ⟨0, 0⟩) False where
  pair c := by
    have data : (Legacy.fresh registry).dataAt c = 0 := Nibbles.get_zero c
    have number : (Legacy.fresh registry).idAt c = 0 := by
      apply UInt16.toNat_inj.mp
      rw [toNat_idAt]
      show 256 * 0 + ((Vector.replicate volume (0 : UInt8))[c.val]).toNat = 0
      rw [Vector.getElem_replicate]
      rfl
    rw [pairAt, data, number]
  hasHigh := by simp [Legacy.fresh, hasHigh]

section

variable {blocks data : Array UInt8} {high : Option (Array UInt8)} (blocksSize : blocks.size = 4096)
  (dataSize : data.size = 2048) (highSize : ∀ bytes ∈ high, bytes.size = 2048)

def ofSized (registry : RegistryId) : Legacy where
  registry
  blocks := ⟨blocks, blocksSize⟩
  data := ⟨data, dataSize⟩
  high := high.pmap (fun bytes size => ⟨bytes, size⟩) highSize

theorem holds_ofSized (registry : RegistryId) :
    (ofSized blocksSize dataSize highSize registry).Holds (Source.arrays blocks data high).pairs
      (high.isSome = true) where
  pair c := by
    have number : ((ofSized blocksSize dataSize highSize registry).idAt c).toNat =
        blocks[c.val]!.toNat + 256 * high.elim 0 (nibbleOf · c) := by
      have inside : c.val < blocks.size := blocksSize ▸ c.isLt
      have upper : ((ofSized blocksSize dataSize highSize registry).highAt c).toNat =
          high.elim 0 (nibbleOf · c) := by
        cases high with
        | none => rfl
        | some bytes => exact toNat_get_ofArray (highSize bytes rfl) c
      rw [toNat_idAt, upper, getElem!_pos blocks c.val inside, Nat.add_comm]
      rfl
    have data : ((ofSized blocksSize dataSize highSize registry).dataAt c).toNat = nibbleOf data c :=
      toNat_get_ofArray dataSize c
    rw [pairAt, Source.pairs, ← number, ← data, UInt16.ofNat_toNat, UInt8.ofNat_toNat]
  hasHigh := by
    unfold hasHigh ofSized
    cases high <;> simp

theorem sized_ok {what : String} {n : Nat} {bytes : Array UInt8} (size : bytes.size = n) :
    sized what n bytes = .ok ⟨bytes, size⟩ := dif_pos size

theorem ofArrays_ok (registry : RegistryId) :
    ofArrays registry blocks data high = .ok (ofSized blocksSize dataSize highSize registry) := by
  unfold ofArrays
  rw [sized_ok blocksSize, Outcome.ok_bind, sized_ok dataSize, Outcome.ok_bind]
  cases high with
  | none => rfl
  | some bytes =>
    dsimp only
    rw [sized_ok (highSize bytes rfl)]
    rfl

end

theorem sized_error (what : String) {n : Nat} {bytes : Array UInt8} (other : bytes.size ≠ n) :
    ∃ misuse, sized what n bytes = .error (.invalidValue misuse) := ⟨_, dif_neg other⟩

theorem ofArrays_error (registry : RegistryId) {blocks data : Array UInt8} {high : Option (Array UInt8)}
    (other : ¬ (Source.arrays blocks data high).Sized) :
    ∃ misuse, ofArrays registry blocks data high = .error (.invalidValue misuse) := by
  unfold ofArrays
  by_cases blocksSize : blocks.size = 4096
  swap
  · obtain ⟨misuse, refused⟩ := sized_error "block ids" blocksSize
    exact ⟨misuse, by rw [refused]; rfl⟩
  rw [sized_ok blocksSize, Outcome.ok_bind]
  by_cases dataSize : data.size = 2048
  swap
  · obtain ⟨misuse, refused⟩ := sized_error "meta" dataSize
    exact ⟨misuse, by rw [refused]; rfl⟩
  rw [sized_ok dataSize, Outcome.ok_bind]
  cases high with
  | none => exact absurd ⟨blocksSize, dataSize, nofun⟩ other
  | some bytes =>
    have highSize : bytes.size ≠ 2048 := by
      intro size
      exact other ⟨blocksSize, dataSize, fun b same => Option.some.inj same ▸ size⟩
    obtain ⟨misuse, refused⟩ := sized_error "extension nibbles" highSize
    dsimp only
    exact ⟨misuse, by rw [refused]; rfl⟩

theorem layer_cases (registry : RegistryId) (o : Source) :
    (o.Sized ∧ ∃ s, o.layer registry = .ok s ∧ s.Holds o.pairs o.Raised) ∨
    (¬ o.Sized ∧ ∃ misuse, o.layer registry = .error (.invalidValue misuse)) := by
  cases o with
  | fresh => exact Or.inl ⟨trivial, _, rfl, holds_fresh registry⟩
  | arrays blocks data high =>
    by_cases sized : (Source.arrays blocks data high).Sized
    · obtain ⟨blocksSize, dataSize, highSize⟩ := sized
      exact Or.inl ⟨⟨blocksSize, dataSize, highSize⟩, _,
        ofArrays_ok blocksSize dataSize highSize registry,
        holds_ofSized blocksSize dataSize highSize registry⟩
    · exact Or.inr ⟨sized, ofArrays_error registry sized⟩

/-- What is seen of a layer that is a plain map. -/
structure Agrees (s : Legacy) (pairs : Cell → LegacyPair) (raised : Prop) : Prop where
  number : ∀ c, s.idAt c = (pairs c).id
  data : ∀ c, s.dataAt c = (pairs c).data
  combined : ∀ c, (s.combinedAt c).toNat = 16 * (pairs c).id.toNat + (pairs c).data.toNat
  hasHigh : s.hasHigh = true ↔ raised
  refused : ∀ p e, ¬ e.Fits ↔
    ∃ misuse, (s.step (.write p e)).2 = .error (.error (.invalidValue misuse))
  unchanged : ∀ a f, (s.step a).2 = .error f → (s.step a).1 = s
  granted : ∀ p c e, p.cell = .ok c → e.Fits → (s.step (.write p e)).2 = .ok () ∧
    (s.step (.write p e)).1.Holds (Function.update pairs c (e.apply (pairs c)))
      (raised ∨ ∃ n ∈ e.number?, 255 < n.toNat)
  inPlace : ∀ p e, Changes.perform s (.put p e) = s.step (.write p e)
  clone : s.step .clone = (s, .ok ())

theorem Holds.agrees {s : Legacy} {pairs : Cell → LegacyPair} {raised : Prop}
    (holds : s.Holds pairs raised) : s.Agrees pairs raised where
  number c := congrArg LegacyPair.id (holds.pair c)
  data c := congrArg LegacyPair.data (holds.pair c)
  combined c := by
    rw [toNat_combinedAt, ← holds.pair c]
    rfl
  hasHigh := holds.hasHigh
  refused p e := by
    obtain ⟨c, inside, fits, wrote⟩ | ⟨f, outside, fits, failed⟩ | ⟨tight, misuse, failed⟩ :=
      step_write s p e
    · rw [wrote]
      simp [fits]
    · rw [failed, Position.cell_error outside]
      simp [fits]
    · rw [failed]
      simp [tight]
  unchanged a f failed := by
    cases a with
    | write p e =>
      obtain ⟨c, inside, fits, wrote⟩ | ⟨f, outside, fits, refused⟩ | ⟨tight, misuse, refused⟩ :=
        step_write s p e
      · rw [wrote] at failed
        cases failed
      · rw [refused]
      · rw [refused]
    | clone => rfl
  granted p c e inside fits := by
    obtain ⟨d, there, fits, wrote⟩ | ⟨f, outside, _⟩ | ⟨tight, _⟩ := step_write s p e
    · obtain rfl := Except.ok.inj (inside.symm.trans there)
      rw [wrote]
      exact ⟨rfl, holds.placed c fits⟩
    · rw [inside] at outside
      cases outside
    · exact absurd fits tight
  inPlace p e := Changes.perform_put s p e
  clone := rfl

/-- A layer of the right sizes is a plain map throughout every run, and no other is made. -/
theorem run_agrees (registry : RegistryId) (o : Source) (acts : List Act) :
    match o.layer registry with
    | .ok s => o.Sized ∧
      (s.run acts).Agrees (acts.foldl written o.pairs) (o.Raised ∨ ∃ a ∈ acts, a.Raises)
    | .error e => ¬ o.Sized ∧ ∃ misuse, e = .invalidValue misuse := by
  obtain ⟨sized, s, made, holds⟩ | ⟨other, misuse, refused⟩ := layer_cases registry o
  · rw [made]
    exact ⟨sized, (holds.run acts).agrees⟩
  · rw [refused]
    exact ⟨other, misuse, rfl⟩

end Legacy
end Voxel
