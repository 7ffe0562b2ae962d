import Mathlib.Tactic.Common
import Voxel.Name

/-!
# Names and their texts

A text is read by its first colon: `ofText?_of_colon` says what becomes of the parts before it and
behind it, `ofText?_of_plain` what a text without one stands for. Reading and writing are inverse for
the names that can be read at all, the `Proper` ones (`text_codes`).
-/

namespace Voxel

/-- A name whose text tells where the namespace ends, and in which nothing is empty. -/
structure Name.Proper (n : Name) : Prop where
  space : n.space ≠ ""
  plain : ':' ∉ n.space.toList
  path : n.path ≠ ""

namespace Name

theorem splitColon_append {space : List Char} (plain : ':' ∉ space) (path : List Char) :
    splitColon (space ++ ':' :: path) = some (space, path) := by
  induction space with
  | nil => rfl
  | cons c rest ih =>
    rw [List.mem_cons, not_or] at plain
    rw [List.cons_append, splitColon, if_neg (Ne.symm plain.1), ih plain.2, Option.map_some]

theorem toList_text (n : Name) : n.text.toList = n.space.toList ++ ':' :: n.path.toList := by
  rw [text, String.toList_append, String.toList_append, List.append_assoc]
  rfl

theorem ofText?_text {n : Name} (proper : n.Proper) : ofText? n.text = some n := by
  have full : (n.space.toList.isEmpty || n.path.toList.isEmpty) = false := by
    simp [proper.space, proper.path]
  rw [ofText?, toList_text, splitColon_append proper.plain]
  dsimp only
  rw [full, if_neg Bool.false_ne_true, String.ofList_toList, String.ofList_toList]

-- a colon in the namespace moves into the path
example : ofText? (text ⟨"a:b", "c"⟩) = some ⟨"a", "b:c"⟩ := by decide

/-! ### The first colon -/

theorem splitColon_cases (s : List Char) :
    (':' ∉ s ∧ splitColon s = none) ∨
    ∃ space path, s = space ++ ':' :: path ∧ ':' ∉ space ∧ splitColon s = some (space, path) := by
  induction s with
  | nil => exact Or.inl ⟨List.not_mem_nil, rfl⟩
  | cons c rest ih =>
    by_cases colon : c = ':'
    · exact Or.inr ⟨[], rest, by rw [colon]; rfl, List.not_mem_nil, if_pos colon⟩
    · have step : splitColon (c :: rest) = (splitColon rest).map fun p => (c :: p.1, p.2) :=
        if_neg colon
      obtain ⟨absent, none⟩ | ⟨space, path, rfl, plain, found⟩ := ih
      · exact Or.inl ⟨List.not_mem_cons_of_ne_of_not_mem (Ne.symm colon) absent, by rw [step, none]; rfl⟩
      · exact Or.inr ⟨c :: space, path, rfl,
          List.not_mem_cons_of_ne_of_not_mem (Ne.symm colon) plain, by rw [step, found]; rfl⟩

/-- The place of the first colon of a text. -/
def colon? (s : String) : Option Nat := s.toList.idxOf? ':'

theorem idxOf?_colon {space : List Char} (plain : ':' ∉ space) (path : List Char) :
    (space ++ ':' :: path).idxOf? ':' = some space.length := by
  rw [List.idxOf?_eq_some_iff]
  refine ⟨by simp, by simp, fun j before same => plain ?_⟩
  rw [List.getElem_append_left before] at same
  exact same ▸ List.getElem_mem before

theorem ofText?_of_colon {s : String} {i : Nat} (first : colon? s = some i) :
    i < s.length ∧ ofText? s = if i = 0 ∨ i = s.length - 1 then none
      else some ⟨String.ofList (s.toList.take i), String.ofList (s.toList.drop (i + 1))⟩ := by
  obtain ⟨absent, _⟩ | ⟨space, path, letters, plain, found⟩ := splitColon_cases s.toList
  · rw [colon?, List.idxOf?_eq_none_iff.mpr absent] at first
    cases first
  rw [colon?, letters, idxOf?_colon plain] at first
  obtain rfl := Option.some.inj first
  have length : s.length = space.length + (path.length + 1) := by
    rw [← String.length_toList, letters, List.length_append, List.length_cons]
  have before : s.toList.take space.length = space := by
    rw [letters, List.take_left]
  have behind : s.toList.drop (space.length + 1) = path := by
    rw [letters, ← List.drop_drop, List.drop_left]
    rfl
  have ends : (space.isEmpty || path.isEmpty) = true ↔
      space.length = 0 ∨ space.length = s.length - 1 := by
    rw [Bool.or_eq_true, List.isEmpty_iff_length_eq_zero, List.isEmpty_iff_length_eq_zero, length]
    omega
  refine ⟨by omega, ?_⟩
  rw [ofText?, found, before, behind]
  exact if_congr ends rfl rfl

theorem ofText?_of_plain {s : String} (plain : colon? s = none) :
    ofText? s = if s = "" then none else some ⟨"minecraft", s⟩ := by
  obtain ⟨_, none⟩ | ⟨space, path, letters, _⟩ := splitColon_cases s.toList
  · rw [ofText?, none]
    exact if_congr String.isEmpty_iff rfl rfl
  · have absent := List.idxOf?_eq_none_iff.mp plain
    rw [letters] at absent
    exact absurd (List.mem_append_right _ List.mem_cons_self) absent

theorem proper_of_ofText? {s : String} {n : Name} (read : ofText? s = some n) : n.Proper := by
  cases first : colon? s with
  | none =>
    rw [ofText?_of_plain first] at read
    split at read
    · cases read
    · rename_i full
      cases read
      exact ⟨(by decide : "minecraft" ≠ ""), (by decide : ':' ∉ "minecraft".toList), full⟩
  | some i =>
    obtain ⟨inside, value⟩ := ofText?_of_colon first
    rw [value] at read
    split at read
    · cases read
    · rename_i amid
      rw [not_or] at amid
      cases read
      obtain ⟨_, _, earlier⟩ := List.idxOf?_eq_some_iff.mp first
      refine ⟨fun empty => ?_, fun colon => ?_, fun empty => ?_⟩
      · have letters := congrArg String.length empty
        rw [String.length_ofList, List.length_take, String.length_toList] at letters
        have none : "".length = 0 := rfl
        omega
      · rw [String.toList_ofList] at colon
        obtain ⟨j, less, same⟩ := List.getElem_of_mem colon
        rw [List.length_take] at less
        rw [List.getElem_take] at same
        exact earlier j (by omega) same
      · have letters := congrArg String.length empty
        rw [String.length_ofList, List.length_drop, String.length_toList] at letters
        have none : "".length = 0 := rfl
        omega

theorem text_inj {m n : Name} (left : m.Proper) (right : n.Proper) (same : m.text = n.text) : m = n := by
  have read := ofText?_text left
  rw [same, ofText?_text right] at read
  exact (Option.some.inj read).symm

/-- How a text is read: by its first colon, and so that what was read is read again from its own text. -/
structure Reads (s : String) : Prop where
  refused : ofText? s = none ↔ s = "" ∨ colon? s = some 0 ∨ colon? s = some (s.length - 1)
  parts : ∀ i, colon? s = some i → i ≠ 0 → i ≠ s.length - 1 →
    ofText? s = some ⟨String.ofList (s.toList.take i), String.ofList (s.toList.drop (i + 1))⟩
  plain : colon? s = none → s ≠ "" → ofText? s = some ⟨"minecraft", s⟩
  proper : ∀ n, ofText? s = some n → n.Proper
  again : ∀ n, ofText? s = some n → ofText? n.text = some n
  unique : ∀ n, ofText? s = some n → ∀ t m, ofText? t = some m → (m = n ↔ m.text = n.text)

/-- Every text is read by its first colon, and every proper name comes back from its text. -/
theorem text_codes : (∀ s, Reads s) ∧ ∀ n : Name, n.Proper → ofText? n.text = some n := by
  refine ⟨fun s => ⟨?_, fun i first notFirst notLast => ?_, fun plain full => ?_,
    fun n => proper_of_ofText?, fun n read => ofText?_text (proper_of_ofText? read),
    fun n read t m readToo => ⟨congrArg text, ?_⟩⟩, fun n => ofText?_text⟩
  · cases first : colon? s with
    | none =>
      rw [ofText?_of_plain first]
      simp
    | some i =>
      obtain ⟨inside, value⟩ := ofText?_of_colon first
      have full : s ≠ "" := by
        rintro rfl
        exact absurd inside (Nat.not_lt_zero i)
      rw [value]
      simp [full, or_iff_not_imp_left]
  · rw [(ofText?_of_colon first).2, if_neg (not_or.mpr ⟨notFirst, notLast⟩)]
  · rw [ofText?_of_plain plain, if_neg full]
  · exact text_inj (proper_of_ofText? readToo) (proper_of_ofText? read)

end Name
end Voxel
