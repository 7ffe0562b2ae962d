import Voxel.Property.Basic
/-!
Indices of values stay within the size of the domain.
-/
namespace Voxel

theorem Domain.indexOf?_lt {d : Domain} {v : Value} {i : Nat} (h : d.indexOf? v = some i) :
    i < d.size := by
  cases d with
  | bool b =>
    cases v <;> simp only [indexOf?, reduceCtorEq, Option.some.injEq] at h
    subst h
    simp only [size]
    exact Bool.toNat_lt _
  | int r =>
    cases v <;> simp only [indexOf?, reduceCtorEq] at h
    rename_i k
    split at h
    · cases h
    · rename_i within
      simp only [not_or, Int32.not_lt, Int32.le_iff_toInt_le] at within
      cases h
      simp only [size, IntRange.size]
      omega
  | choice c =>
    cases v <;> simp only [indexOf?, reduceCtorEq] at h
    split at h
    · rename_i member
      cases h
      exact List.idxOf_lt_length_of_mem member.2
    · cases h

namespace Property

theorem indexOf_eq_ok_iff {p : Property} {v : Value} {i : Nat} :
    p.indexOf v = .ok i ↔ p.domain.indexOf? v = some i := by
  unfold indexOf
  split
  · rename_i j h
    simp [h]
  · rename_i h
    split <;> simp [h]

theorem indexOf_lt {p : Property} {v : Value} {i : Nat} (h : p.indexOf v = .ok i) : i < p.size :=
  Domain.indexOf?_lt (indexOf_eq_ok_iff.1 h)

theorem decodeIndex_lt {p : Property} {s : String} {i : Nat} (h : p.decodeIndex s = .ok i) :
    i < p.size := by
  unfold decodeIndex at h
  cases hd : p.decode s with
  | error e => rw [hd] at h; cases h
  | ok v => rw [hd] at h; exact indexOf_lt h

end Property
end Voxel
