import Std.Data.String.ToInt
import Mathlib.Data.UInt
import Voxel.Outcome
import Voxel.Property.Lemmas

/-!
# Texts of values

A text that a property decodes is the text of the decoded value, up to the case of letters
(`encodeIndex?_of_decodeIndex`), and the case of letters makes no difference (`decodeIndex_congr`).
The text of a value is decoded to it (`decodeIndex_of_encodeIndex?`).
-/

namespace Voxel

namespace Text

theorem readInt32?_eq_some_iff {s : String} {i : Int32} : readInt32? s = some i ↔ s = int32 i := by
  have low : Int32.minValue.toInt = -2 ^ 31 := rfl
  have high : Int32.maxValue.toInt = 2 ^ 31 - 1 := rfl
  unfold readInt32?
  constructor
  · intro read
    split at read
    · cases read
    · split at read
      · rename_i v _ fits
        cases read
        rw [int32, Int32.toInt_ofInt_of_le (by omega) (by omega), fits.1]
      · cases read
  · rintro rfl
    have bound := i.le_toInt
    have above := i.toInt_lt
    rw [int32, Int.toInt?_repr]
    dsimp only
    rw [if_pos ⟨rfl, by omega, by omega⟩, Int32.ofInt_toInt]

def plain (c : Char) : Prop := c.isDigit = true ∨ c = '-'

theorem plain_of_mem_int32 {i : Int32} {c : Char} (member : c ∈ (int32 i).toList) : plain c := by
  have digits : ∀ n : Nat, c ∈ n.repr.toList → plain c := by
    intro n inside
    rw [Nat.toList_repr] at inside
    exact Or.inl (Nat.isDigit_of_mem_toDigits (by decide) (by decide) inside)
  unfold int32 at member
  cases value : i.toInt with
  | ofNat n =>
    rw [value] at member
    exact digits n member
  | negSucc n =>
    rw [value, Int.repr, String.toList_append, List.mem_append] at member
    rcases member with sign | inside
    · exact Or.inr (by simpa using sign)
    · exact digits _ inside

theorem eq_of_toLower_eq {c d : Char} (h : plain c) (same : d.toLower = c.toLower) : d = c := by
  have range : c.val.toNat < 65 := by
    rcases h with digit | rfl
    · have := (Char.isDigit_iff_toNat.mp digit).2
      exact Nat.lt_of_le_of_lt this (by decide)
    · decide
  have fixed : c.toLower = c := by
    unfold Char.toLower
    rw [dif_neg]
    rintro ⟨upper, _⟩
    rw [ge_iff_le, UInt32.le_iff_toNat_le] at upper
    have : 'A'.val.toNat = 65 := rfl
    omega
  rw [fixed] at same
  unfold Char.toLower at same
  split at same
  · rename_i upper
    have value := congrArg (fun e : Char => e.val.toNat) same
    have low : 65 ≤ d.val.toNat := UInt32.le_iff_toNat_le.mp upper.1
    have high : d.val.toNat ≤ 90 := UInt32.le_iff_toNat_le.mp upper.2
    have gap : ('a'.val - 'A'.val).toNat = 32 := rfl
    simp only [UInt32.toNat_add, gap] at value
    omega
  · exact same

theorem eq_int32_of_fold {s : String} {i : Int32} (same : fold s = fold (int32 i)) :
    s = int32 i := by
  have letters : ∀ l m : List Char, (∀ c ∈ m, plain c) → l.map Char.toLower = m.map Char.toLower →
      l = m := by
    intro l m
    induction m generalizing l with
    | nil => intro _ equal; exact List.map_eq_nil_iff.mp equal
    | cons c rest ih =>
      intro numeral equal
      cases l with
      | nil => cases equal
      | cons d others =>
        rw [List.map_cons, List.map_cons, List.cons.injEq] at equal
        rw [eq_of_toLower_eq (numeral c List.mem_cons_self) equal.1,
          ih others (fun e member => numeral e (List.mem_cons_of_mem _ member)) equal.2]
  exact String.toList_inj.mp (letters _ _ (fun c member => plain_of_mem_int32 member) same)

end Text

/-! ### Values and indices -/

namespace Domain

theorem valueAt?_of_indexOf? {d : Domain} {v : Value} {i : Nat} (h : d.indexOf? v = some i) :
    d.valueAt? i = some v := by
  cases d with
  | bool b =>
    cases v <;> simp only [indexOf?, reduceCtorEq, Option.some.injEq] at h
    rename_i value
    subst h
    cases value <;> rfl
  | int r =>
    have less : i < r.size := indexOf?_lt h
    cases v <;> simp only [indexOf?, reduceCtorEq] at h
    rename_i k
    split at h
    · cases h
    · rename_i within
      simp only [not_or, Int32.not_lt, Int32.le_iff_toInt_le] at within
      cases h
      rw [valueAt?, if_pos less,
        show r.min.toInt + ((k.toInt - r.min.toInt).toNat : Int) = k.toInt by omega,
        Int32.ofInt_toInt]
  | choice c =>
    cases v <;> simp only [indexOf?, reduceCtorEq] at h
    split at h
    · rename_i member
      cases h
      rw [valueAt?, List.getElem?_idxOf member.2, member.1]
      rfl
    · cases h

theorem valueAt?_eq_some_iff {d : Domain} {v : Value} {i : Nat} :
    d.valueAt? i = some v ↔ d.indexOf? v = some i := by
  refine ⟨fun found => ?_, valueAt?_of_indexOf?⟩
  cases d with
  | bool b =>
    obtain _ | _ | i := i
    · cases found
      rfl
    · cases found
      rfl
    · cases found
  | int r =>
    rw [valueAt?] at found
    split at found
    · rename_i less
      cases found
      have low := r.min.le_toInt
      have high := r.max.toInt_lt
      have value : (Int32.ofInt (r.min.toInt + i)).toInt = r.min.toInt + i := by
        unfold IntRange.size at less
        exact Int32.toInt_ofInt_of_le (by omega) (by omega)
      have within : ¬ (Int32.ofInt (r.min.toInt + i) < r.min ∨ r.max < Int32.ofInt (r.min.toInt + i)) := by
        unfold IntRange.size at less
        rw [not_or, Int32.lt_iff_toInt_lt, Int32.lt_iff_toInt_lt, value]
        omega
      rw [indexOf?, if_neg within, value]
      exact congrArg some (by omega)
    · cases found
  | choice c =>
    obtain ⟨s, here, rfl⟩ := Option.map_eq_some_iff.mp found
    obtain ⟨inside, rfl⟩ := List.getElem?_eq_some_iff.mp here
    have values : c.values.Nodup := List.Nodup.of_map Text.fold c.distinct
    rw [indexOf?, if_pos ⟨rfl, List.getElem_mem inside⟩, values.idxOf_getElem i inside]

theorem exists_valueAt? {d : Domain} {i : Nat} (less : i < d.size) : ∃ v, d.valueAt? i = some v := by
  cases d with
  | bool b =>
    have two : i < 2 := less
    obtain rfl | rfl : i = 0 ∨ i = 1 := by omega
    · exact ⟨_, rfl⟩
    · exact ⟨_, rfl⟩
  | int r => exact ⟨_, if_pos less⟩
  | choice c => exact ⟨_, congrArg (Option.map _) (List.getElem?_eq_getElem less)⟩

theorem defaultValue_has_index (d : Domain) : ∃ i, d.indexOf? d.defaultValue = some i := by
  cases d with
  | bool b => exact ⟨b.toNat, rfl⟩
  | int r =>
    have within : ¬ (r.default < r.min ∨ r.max < r.default) := by
      rw [not_or, Int32.not_lt, Int32.not_lt]
      exact ⟨r.min_le_default, r.default_le_max⟩
    exact ⟨_, if_neg within⟩
  | choice c => exact ⟨_, if_pos ⟨rfl, List.get_mem _ _⟩⟩

/-- A text stands for a value. -/
def Reads : Domain → String → Value → Prop
  | bool _, s, .bool b => Text.fold s = Text.fold (if b then "true" else "false")
  | int r, s, .int i => s = Text.int32 i ∧ r.min ≤ i ∧ i ≤ r.max
  | choice c, s, .choice family t => family = c.family ∧ t ∈ c.values ∧ Text.fold t = Text.fold s
  | _, _, _ => False

theorem Reads.indexOf? {d : Domain} {s : String} {v : Value} (h : d.Reads s v) :
    ∃ i, d.indexOf? v = some i := by
  cases d with
  | bool b => cases v <;> first | exact ⟨_, rfl⟩ | exact h.elim
  | int r =>
    cases v <;> first | exact h.elim | skip
    refine ⟨_, if_neg ?_⟩
    rw [not_or, Int32.not_lt, Int32.not_lt]
    exact h.2
  | choice c =>
    cases v <;> first | exact h.elim | skip
    exact ⟨_, if_pos ⟨h.1, h.2.1⟩⟩

theorem Reads.text {d : Domain} {s : String} {v : Value} (h : d.Reads s v) :
    Text.fold v.text = Text.fold s ∧ (d.sort = .int → v.text = s) := by
  cases d with
  | bool b =>
    cases v <;> first | exact h.elim | skip
    exact ⟨h.symm, fun sort => by cases sort⟩
  | int r =>
    cases v <;> first | exact h.elim | skip
    exact ⟨congrArg Text.fold h.1.symm, fun _ => h.1.symm⟩
  | choice c =>
    cases v <;> first | exact h.elim | skip
    exact ⟨h.2.2, fun sort => by cases sort⟩

theorem Reads.congr {d : Domain} {s t : String} {v : Value} (h : d.Reads s v)
    (same : Text.fold s = Text.fold t) : d.Reads t v := by
  cases d with
  | bool b =>
    cases v <;> first | exact h.elim | skip
    exact same.symm.trans h
  | int r =>
    cases v <;> first | exact h.elim | skip
    refine ⟨Text.eq_int32_of_fold ?_, h.2⟩
    rw [← same, h.1]
  | choice c =>
    cases v <;> first | exact h.elim | skip
    exact ⟨h.1, h.2.1, h.2.2.trans same⟩

theorem reads_text {d : Domain} {v : Value} {i : Nat} (h : d.indexOf? v = some i) :
    d.Reads v.text v := by
  cases d with
  | bool b => cases v <;> simp only [indexOf?, reduceCtorEq] at h; rfl
  | int r =>
    cases v <;> simp only [indexOf?, reduceCtorEq] at h
    split at h
    · cases h
    · rename_i within
      rw [not_or, Int32.not_lt, Int32.not_lt] at within
      exact ⟨rfl, within⟩
  | choice c =>
    cases v <;> simp only [indexOf?, reduceCtorEq] at h
    split at h
    · rename_i member
      exact ⟨member.1, member.2, rfl⟩
    · cases h

end Domain

namespace Property

theorem defaultIndex_lt (p : Property) : p.defaultIndex < p.size := by
  obtain ⟨i, found⟩ := p.domain.defaultValue_has_index
  rw [defaultIndex, defaultValue, found, Option.getD_some]
  exact Domain.indexOf?_lt found

theorem valueAt?_defaultIndex (p : Property) : p.valueAt? p.defaultIndex = some p.defaultValue := by
  obtain ⟨i, found⟩ := p.domain.defaultValue_has_index
  rw [defaultIndex, defaultValue, found, Option.getD_some]
  exact Domain.valueAt?_of_indexOf? found

theorem indexOf_error {p : Property} {v : Value} {e : BlockError} (h : p.indexOf v = .error e) :
    ∃ misuse, e = .invalidValue misuse := by
  unfold indexOf at h
  split at h
  · cases h
  · split at h <;> cases h <;> exact ⟨_, rfl⟩

theorem decode_error {p : Property} {s : String} {e : BlockError} (h : p.decode s = .error e) :
    ∃ misuse, e = .invalidValue misuse := by
  unfold decode at h
  split at h
  · split at h
    · cases h
    · split at h
      · cases h
      · cases h
        exact ⟨_, rfl⟩
  · split at h
    · cases h
      exact ⟨_, rfl⟩
    · split at h
      · cases h
        exact ⟨_, rfl⟩
      · cases h
  · split at h
    · cases h
    · cases h
      exact ⟨_, rfl⟩

theorem decodeIndex_error {p : Property} {s : String} {e : BlockError}
    (h : p.decodeIndex s = .error e) : ∃ misuse, e = .invalidValue misuse := by
  rcases Outcome.bind_error h with refused | ⟨v, _, refused⟩
  · exact decode_error refused
  · exact indexOf_error refused

theorem find?_sameLetters_eq_some_iff {values : List String}
    (distinct : (values.map Text.fold).Nodup) {s t : String} :
    values.find? (Text.sameLetters · s) = some t ↔ t ∈ values ∧ Text.fold t = Text.fold s := by
  constructor
  · intro found
    have like := List.find?_some (p := fun u => Text.sameLetters u s) found
    exact ⟨List.mem_of_find?_eq_some found, Text.sameLetters_iff.mp like⟩
  · rintro ⟨member, like⟩
    cases found : values.find? (Text.sameLetters · s) with
    | none => exact absurd (Text.sameLetters_iff.mpr like) (List.find?_eq_none.mp found t member)
    | some u =>
      have likeU := Text.sameLetters_iff.mp
        (List.find?_some (p := fun u => Text.sameLetters u s) found)
      have inside := List.mem_of_find?_eq_some found
      rw [List.inj_on_of_nodup_map distinct inside member (likeU.trans like.symm)]

theorem decode_eq_ok_iff {p : Property} {s : String} {v : Value} :
    p.decode s = .ok v ↔ p.domain.Reads s v := by
  unfold decode
  cases p.domain with
  | bool b =>
    have apart : Text.fold "true" ≠ Text.fold "false" := by decide
    simp only [Text.sameLetters_iff]
    split
    · rename_i yes
      cases v with
      | bool c => cases c <;> simp [Domain.Reads, yes, apart]
      | _ => simp [Domain.Reads]
    · rename_i notYes
      split
      · rename_i no
        cases v with
        | bool c => cases c <;> simp [Domain.Reads, no, apart.symm]
        | _ => simp [Domain.Reads]
      · rename_i notNo
        cases v with
        | bool c => cases c <;> simp [Domain.Reads, notYes, notNo]
        | _ => simp [Domain.Reads]
  | int r =>
    dsimp only
    constructor
    · intro h
      split at h
      · cases h
      · rename_i i read
        split at h
        · cases h
        · rename_i within
          cases h
          rw [not_or, Int32.not_lt, Int32.not_lt] at within
          exact ⟨Text.readInt32?_eq_some_iff.mp read, within⟩
    · intro h
      cases v <;> first | exact h.elim | skip
      have within := h.2
      rw [Text.readInt32?_eq_some_iff.mpr h.1]
      dsimp only
      rw [if_neg]
      rw [not_or, Int32.not_lt, Int32.not_lt]
      exact within
  | choice c =>
    dsimp only
    constructor
    · intro h
      split at h
      · rename_i t found
        cases h
        exact ⟨rfl, (find?_sameLetters_eq_some_iff c.distinct).mp found⟩
      · cases h
    · intro h
      cases v <;> first | exact h.elim | skip
      rw [(find?_sameLetters_eq_some_iff c.distinct).mpr h.2, h.1]

theorem decodeIndex_eq_ok_iff {p : Property} {s : String} {i : Nat} :
    p.decodeIndex s = .ok i ↔ ∃ v, p.domain.Reads s v ∧ p.domain.indexOf? v = some i := by
  constructor
  · intro h
    obtain ⟨v, decoded, indexed⟩ := Outcome.bind_ok h
    exact ⟨v, decode_eq_ok_iff.mp decoded, indexOf_eq_ok_iff.mp indexed⟩
  · rintro ⟨v, reads, indexed⟩
    rw [decodeIndex, decode_eq_ok_iff.mpr reads]
    exact indexOf_eq_ok_iff.mpr indexed

theorem decodeIndex_isOk_iff {p : Property} {s : String} :
    (∃ i, p.decodeIndex s = .ok i) ↔ ∃ v, p.domain.Reads s v := by
  simp only [decodeIndex_eq_ok_iff]
  constructor
  · rintro ⟨_, v, reads, _⟩
    exact ⟨v, reads⟩
  · rintro ⟨v, reads⟩
    obtain ⟨i, indexed⟩ := reads.indexOf?
    exact ⟨i, v, reads, indexed⟩

/-- The text at a decoded index is the text that was decoded, up to the case of letters. -/
theorem encodeIndex?_of_decodeIndex {p : Property} {s : String} {i : Nat}
    (h : p.decodeIndex s = .ok i) : ∃ e, p.encodeIndex? i = some e ∧
      Text.fold e = Text.fold s ∧ (p.sort = .int → e = s) := by
  obtain ⟨v, reads, indexed⟩ := decodeIndex_eq_ok_iff.mp h
  exact ⟨v.text, by rw [encodeIndex?, valueAt?, Domain.valueAt?_of_indexOf? indexed]; rfl,
    reads.text⟩

theorem decodeIndex_of_encodeIndex? {p : Property} {s : String} {i : Nat}
    (h : p.encodeIndex? i = some s) : p.decodeIndex s = .ok i := by
  obtain ⟨v, here, rfl⟩ := Option.map_eq_some_iff.mp h
  have indexed := Domain.valueAt?_eq_some_iff.mp here
  exact decodeIndex_eq_ok_iff.mpr ⟨v, Domain.reads_text indexed, indexed⟩

theorem decodeIndex_congr {p : Property} {s t : String} {i : Nat}
    (h : p.decodeIndex s = .ok i) (same : Text.fold s = Text.fold t) : p.decodeIndex t = .ok i := by
  obtain ⟨v, reads, indexed⟩ := decodeIndex_eq_ok_iff.mp h
  exact decodeIndex_eq_ok_iff.mpr ⟨v, reads.congr same, indexed⟩

theorem fold_eq_of_decodeIndex {p : Property} {s t : String} {i : Nat}
    (left : p.decodeIndex s = .ok i) (right : p.decodeIndex t = .ok i) :
    Text.fold s = Text.fold t := by
  obtain ⟨e, encoded, likeS, _⟩ := encodeIndex?_of_decodeIndex left
  obtain ⟨f, encodedToo, likeT, _⟩ := encodeIndex?_of_decodeIndex right
  obtain rfl := Option.some.inj (encoded.symm.trans encodedToo)
  exact likeS.symm.trans likeT

theorem decodeIndex_of_bool {p : Property} (sort : p.sort = .bool) (s : String) :
    (p.decodeIndex s = .ok 0 ↔ Text.fold s = Text.fold "false") ∧
    (p.decodeIndex s = .ok 1 ↔ Text.fold s = Text.fold "true") ∧
    ∀ i, p.decodeIndex s = .ok i → i = 0 ∨ i = 1 := by
  obtain ⟨name, domain⟩ := p
  cases domain with
  | int r => cases sort
  | choice c => cases sort
  | bool b =>
    have reads : ∀ i, (Property.mk name (.bool b)).decodeIndex s = .ok i ↔
        ∃ c : Bool, Text.fold s = Text.fold (if c then "true" else "false") ∧ c.toNat = i := by
      intro i
      rw [decodeIndex_eq_ok_iff]
      constructor
      · rintro ⟨v, read, index⟩
        cases v <;> first | exact read.elim | skip
        exact ⟨_, read, Option.some.inj index⟩
      · rintro ⟨c, read, rfl⟩
        exact ⟨.bool c, read, rfl⟩
    simp only [reads, Bool.exists_bool]
    refine ⟨?_, ?_, ?_⟩
    · simp
    · simp
    · rintro i (⟨_, rfl⟩ | ⟨_, rfl⟩)
      · exact Or.inl rfl
      · exact Or.inr rfl

end Property
end Voxel
