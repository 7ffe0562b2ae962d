import Voxel.Proofs.Property

/-!
# Properties as codecs

A property is asked for by the values it is to have (`Source`). It is made exactly if these form a
domain, and its values, their indices and their texts then determine each other (`property_codes`).
-/

namespace Voxel.Property

/-- A default, with the bounds or the texts that it is one of. -/
inductive Source
  | bool (default : Bool)
  | int (min max default : Int32)
  | choice (family : Family) (values : List String) (default : String)
  deriving DecidableEq, Repr

namespace Source

def property (name : String) : Source → Except BlockError Property
  | bool default => .ok (.bool name default)
  | int min max default => Property.int name min max default
  | choice family values default => Property.choice family name values (some default)

def Valid : Source → Prop
  | bool _ => True
  | int min max default => min < max ∧ min ≤ default ∧ default ≤ max
  | choice _ values default => values ≠ [] ∧ (values.map Text.fold).Nodup ∧ default ∈ values

def Has : Source → Value → Prop
  | bool _, .bool _ => True
  | int min max _, .int i => min ≤ i ∧ i ≤ max
  | choice family values _, .choice f s => f = family ∧ s ∈ values
  | _, _ => False

def count : Source → Nat
  | bool _ => 2
  | int min max _ => (max.toInt - min.toInt + 1).toNat
  | choice _ values _ => values.length

/-- Two texts that are read as one. Numerals have to be the same, other texts may differ in case. -/
def Alike : Source → String → String → Prop
  | int .., s, t => s = t
  | _, s, t => Text.fold s = Text.fold t

def domain : (o : Source) → o.Valid → Domain
  | bool default, _ => .bool default
  | int min max default, valid => .int ⟨min, max, default, valid.1, valid.2.1, valid.2.2⟩
  | choice family values default, valid =>
    .choice ⟨family, values, values.idxOf default, valid.2.1,
      List.idxOf_lt_length_of_mem valid.2.2⟩

theorem property_of_valid {o : Source} (valid : o.Valid) (name : String) :
    o.property name = .ok ⟨name, o.domain valid⟩ := by
  cases o with
  | bool default => rfl
  | int min max default =>
    rw [property, Property.int, dif_pos valid.1, dif_pos valid.2]
    rfl
  | choice family values default =>
    cases values with
    | nil => exact absurd rfl valid.1
    | cons first rest =>
      have inside : (first :: rest).idxOf default < (first :: rest).length :=
        List.idxOf_lt_length_of_mem valid.2.2
      rw [property, Property.choice]
      dsimp only [Option.getD_some]
      rw [dif_pos valid.2.1, dif_pos inside]
      rfl

theorem property_of_not_valid {o : Source} (invalid : ¬ o.Valid) (name : String) :
    ∃ defect, o.property name = .error (.construction defect) := by
  cases o with
  | bool default => exact absurd trivial invalid
  | int min max default =>
    rw [property, Property.int]
    split
    · rename_i less
      rw [dif_neg fun within => invalid ⟨less, within⟩]
      exact ⟨_, rfl⟩
    · exact ⟨_, rfl⟩
  | choice family values default =>
    cases values with
    | nil => exact ⟨_, rfl⟩
    | cons first rest =>
      rw [property, Property.choice]
      dsimp only [Option.getD_some]
      split
      · rename_i distinct
        rw [dif_neg fun less => invalid
          ⟨List.cons_ne_nil _ _, distinct, List.idxOf_lt_length_iff.mp less⟩]
        exact ⟨_, rfl⟩
      · exact ⟨_, rfl⟩

theorem size_domain {o : Source} (valid : o.Valid) : (o.domain valid).size = o.count := by
  cases o <;> rfl

theorem has_iff_indexed {o : Source} (valid : o.Valid) (v : Value) :
    o.Has v ↔ ∃ i, (o.domain valid).indexOf? v = some i := by
  cases o <;> cases v <;> simp [Has, domain, Domain.indexOf?]

theorem alike_iff {o : Source} (valid : o.Valid) (s t : String) :
    o.Alike s t ↔ Text.fold t = Text.fold s ∧ ((o.domain valid).sort = .int → t = s) := by
  cases o with
  | bool default => simp [Alike, domain, Domain.sort, eq_comm]
  | int min max default =>
    constructor
    · rintro rfl
      exact ⟨rfl, fun _ => rfl⟩
    · rintro ⟨-, same⟩
      exact (same rfl).symm
  | choice family values default => simp [Alike, domain, Domain.sort, eq_comm]

/-- Values, indices and texts of a property correspond, over the values it was asked for by. -/
structure Codes (o : Source) (name : String) (p : Property) : Prop where
  name : p.name = name
  size : p.size = o.count
  inverse : ∀ v i, p.indexOf v = .ok i ↔ p.valueAt? i = some v
  indexed : ∀ v, (∃ i, p.indexOf v = .ok i) ↔ o.Has v
  foreign : ∀ v e, p.indexOf v = .error e → ∃ misuse, e = .invalidValue misuse
  beyond : ∀ i, p.valueAt? i = none ↔ p.size ≤ i
  decoded : ∀ s i, p.decodeIndex s = .ok i ↔ ∃ t, p.encodeIndex? i = some t ∧ o.Alike s t
  undecoded : ∀ s e, p.decodeIndex s = .error e → ∃ misuse, e = .invalidValue misuse
  back : ∀ v, o.Has v → p.decode v.text = .ok v

theorem codes_domain {o : Source} (valid : o.Valid) (name : String) :
    o.Codes name ⟨name, o.domain valid⟩ where
  name := rfl
  size := size_domain valid
  inverse v i := indexOf_eq_ok_iff.trans Domain.valueAt?_eq_some_iff.symm
  indexed v := by simp only [indexOf_eq_ok_iff, has_iff_indexed valid]
  foreign v e := indexOf_error
  beyond i := by
    constructor
    · intro none
      by_contra below
      obtain ⟨v, here⟩ := Domain.exists_valueAt? (not_le.mp below)
      exact Option.some_ne_none v (here.symm.trans none)
    · intro past
      cases here : (Property.mk name (o.domain valid)).valueAt? i with
      | none => rfl
      | some v =>
        have below := Domain.indexOf?_lt (Domain.valueAt?_eq_some_iff.mp here)
        exact absurd past (not_le.mpr below)
  decoded s i := by
    constructor
    · intro read
      obtain ⟨t, encoded, alike⟩ := encodeIndex?_of_decodeIndex read
      exact ⟨t, encoded, (alike_iff valid s t).mpr alike⟩
    · rintro ⟨t, encoded, alike⟩
      exact decodeIndex_congr (decodeIndex_of_encodeIndex? encoded)
        ((alike_iff valid s t).mp alike).1
  undecoded s e := decodeIndex_error
  back v has := by
    obtain ⟨i, index⟩ := (has_iff_indexed valid v).mp has
    exact decode_eq_ok_iff.mpr (Domain.reads_text index)

/-- A property is made exactly of values that form a domain, and is an exact codec of them. -/
theorem property_codes (o : Source) (name : String) :
    match o.property name with
    | .ok p => o.Valid ∧ o.Codes name p
    | .error e => ¬ o.Valid ∧ ∃ defect, e = .construction defect := by
  by_cases valid : o.Valid
  · rw [property_of_valid valid]
    exact ⟨valid, codes_domain valid name⟩
  · obtain ⟨defect, refused⟩ := property_of_not_valid valid name
    rw [refused]
    exact ⟨valid, defect, rfl⟩

end Source

/-- Every 32-bit word is a value of the widest range, down to the one with no positive counterpart. -/
example : (Source.int Int32.minValue Int32.maxValue 0).count = 2 ^ 32 := by rfl

end Voxel.Property
