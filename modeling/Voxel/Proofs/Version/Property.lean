import Voxel.Proofs.Outcome
import Voxel.Proofs.Version.Range

/-!
# Domains of declared texts

Whatever domain is chosen for declared texts, it holds one value for each of them and reads the
texts that differ from one of them in the case of letters at most (`inferProperty_cases`).
-/

namespace Voxel.Version

/-- A text is one of the declared values, up to the case of letters. -/
def IsValue (values : List String) (text : String) : Prop :=
  ∃ v ∈ values, Text.fold v = Text.fold text

/-- Values of a property are some, and differ by more than the case of letters. -/
structure Values (values : List String) : Prop where
  nonempty : values ≠ []
  distinct : (values.map Text.fold).Nodup

def Booleans (values : List String) : Prop :=
  values.length = 2 ∧ "true" ∈ values ∧ "false" ∈ values

theorem booleans_iff_perm {values : List String} :
    Booleans values ↔ values.Perm ["true", "false"] := by
  constructor
  · rintro ⟨length, yes, no⟩
    obtain ⟨a, b, rfl⟩ := List.length_eq_two.mp length
    rw [List.mem_pair] at yes no
    rcases yes with rfl | rfl
    · obtain rfl := no.resolve_left (by decide)
      exact .refl _
    · obtain rfl := no.resolve_right (by decide)
      exact .swap _ _ _
  · intro perm
    exact ⟨perm.length_eq, perm.mem_iff.mpr (by decide), perm.mem_iff.mpr (by decide)⟩

/-- A property takes declared texts as its values. -/
structure Takes (p : Property) (name : String) (values : List String) : Prop where
  name : p.name = name
  size : p.size = values.length
  boolean : p.sort = .bool ↔ Booleans values
  reads : ∀ text, (∃ i, p.decodeIndex text = .ok i) ↔ IsValue values text

theorem not_spans_of_booleans {values : List String} (booleans : Booleans values) (low high : Int32) :
    ¬ Spans values low high := by
  rintro ⟨-, perm⟩
  obtain ⟨i, -, same⟩ := List.mem_map.mp (perm.mem_iff.mp booleans.2.1)
  have letter : 't' ∈ (Text.int32 i).toList := by
    rw [same]
    decide
  exact absurd (Text.plain_of_mem_int32 letter) (by unfold Text.plain; decide)

theorem Spans.mem_iff {values : List String} {low high : Int32} (spans : Spans values low high)
    {text : String} : text ∈ values ↔ ∃ i, (low ≤ i ∧ i ≤ high) ∧ Text.int32 i = text := by
  rw [spans.2.mem_iff, List.mem_map]
  simp only [mem_between]

/-- The domains that are inferred for declared texts. -/
inductive Chosen (name : String) (values : List String) : Property → Prop
  | bool (booleans : Booleans values) : Chosen name values (.bool name false)
  | range (r : IntRange) (spans : Spans values r.min r.max) : Chosen name values ⟨name, .int r⟩
  | choice (c : Choices) (family : c.family = .text) (all : c.values = values)
      (other : ¬ Booleans values) (gap : ∀ low high, ¬ Spans values low high) :
      Chosen name values ⟨name, .choice c⟩

section

variable {name : String} {values : List String} {p : Property} (chosen : Chosen name values p)
include chosen

theorem Chosen.areValues : Values values := by
  cases chosen with
  | bool booleans =>
    have perm := booleans_iff_perm.mp booleans
    exact ⟨List.ne_nil_of_mem booleans.2.1, (perm.map Text.fold).nodup_iff.mpr (by decide)⟩
  | range r spans =>
    have first := spans.mem_iff.mpr ⟨r.min, ⟨Int32.le_refl _, Int32.le_of_lt spans.1⟩, rfl⟩
    refine ⟨List.ne_nil_of_mem first, ?_⟩
    rw [(spans.2.map Text.fold).nodup_iff, List.map_map]
    exact (nodup_between _ _).map fun i j same => int32_injective (Text.eq_int32_of_fold same)
  | choice c family all =>
    exact all ▸ ⟨List.ne_nil_of_length_pos (Nat.zero_lt_of_lt c.default_lt), c.distinct⟩

theorem Chosen.size : p.size = values.length := by
  cases chosen with
  | bool booleans => exact booleans.1.symm
  | range r spans =>
    rw [spans.2.length_eq, List.length_map, length_between]
    rfl
  | choice c family all => exact congrArg List.length all

theorem Chosen.boolean : p.sort = .bool ↔ Booleans values := by
  cases chosen with
  | bool booleans => exact iff_of_true rfl booleans
  | range r spans =>
    exact iff_of_false (fun sort => nomatch sort) fun both => not_spans_of_booleans both _ _ spans
  | choice c family all other => exact iff_of_false (fun sort => nomatch sort) other

theorem Chosen.reads (text : String) : (∃ i, p.decodeIndex text = .ok i) ↔ IsValue values text := by
  rw [Property.decodeIndex_isOk_iff]
  cases chosen with
  | bool booleans =>
    constructor
    · rintro ⟨v, reads⟩
      cases v with
      | bool b =>
        cases b
        · exact ⟨_, booleans.2.2, Eq.symm reads⟩
        · exact ⟨_, booleans.2.1, Eq.symm reads⟩
      | _ => exact reads.elim
    · rintro ⟨v, declared, like⟩
      have inside := (booleans_iff_perm.mp booleans).mem_iff.mp declared
      rcases List.mem_pair.mp inside with rfl | rfl
      · exact ⟨.bool true, like.symm⟩
      · exact ⟨.bool false, like.symm⟩
  | range r spans =>
    constructor
    · rintro ⟨v, reads⟩
      cases v with
      | int i => exact ⟨text, spans.mem_iff.mpr ⟨i, reads.2, reads.1.symm⟩, rfl⟩
      | _ => exact reads.elim
    · rintro ⟨v, declared, like⟩
      obtain ⟨i, inside, rfl⟩ := spans.mem_iff.mp declared
      exact ⟨.int i, Text.eq_int32_of_fold like.symm, inside⟩
  | choice c family all =>
    constructor
    · rintro ⟨v, reads⟩
      cases v with
      | choice f t => exact ⟨t, all ▸ reads.2⟩
      | _ => exact reads.elim
    · rintro ⟨v, declared, like⟩
      exact ⟨.choice .text v, family.symm, all.symm ▸ declared, like⟩

theorem Chosen.name_eq : p.name = name := by
  cases chosen <;> rfl

theorem Chosen.takes : Takes p name values :=
  ⟨chosen.name_eq, chosen.size, chosen.boolean, chosen.reads⟩

end

theorem inferProperty_chosen (kind : Name) (name : String) (values : List String) :
    (∃ p, inferProperty kind name values = .ok p ∧ Chosen name values p) ∨
    (¬ Values values ∧
      ∃ defect, inferProperty kind name values = .error (.construction defect)) := by
  unfold inferProperty
  cases values with
  | nil => exact Or.inr ⟨fun good => good.nonempty rfl, _, rfl⟩
  | cons first rest =>
    rw [List.isEmpty_cons, if_neg Bool.false_ne_true]
    by_cases booleans : (first :: rest).length = 2 ∧ "true" ∈ first :: rest ∧ "false" ∈ first :: rest
    · rw [if_pos booleans]
      exact Or.inl ⟨_, rfl, .bool booleans⟩
    rw [if_neg booleans]
    cases found : rangeOf? (first :: rest) with
    | some ends =>
      have spans := rangeOf?_eq_some_iff.mp found
      have start : ends.1 ≤ ends.1 ∧ ends.1 ≤ ends.2 :=
        ⟨Int32.le_refl _, Int32.le_of_lt spans.1⟩
      dsimp only
      rw [Property.int, dif_pos spans.1, dif_pos start]
      exact Or.inl ⟨_, rfl, .range _ spans⟩
    | none =>
      have gap : ∀ low high, ¬ Spans (first :: rest) low high := by
        intro low high spans
        cases (rangeOf?_eq_some_iff.mpr spans).symm.trans found
      have inside : (first :: rest).idxOf first < (first :: rest).length :=
        List.idxOf_lt_length_of_mem List.mem_cons_self
      dsimp only [Property.choice]
      by_cases distinct : ((first :: rest).map Text.fold).Nodup
      · rw [dif_pos distinct, Option.getD_none, dif_pos inside]
        exact Or.inl ⟨_, rfl, .choice _ rfl rfl booleans gap⟩
      · rw [dif_neg distinct]
        exact Or.inr ⟨fun good => distinct good.distinct, _, rfl⟩

/-- Declared texts become a property if they are values, and are a defect otherwise. -/
theorem inferProperty_cases (kind : Name) (name : String) (values : List String) :
    (Values values ∧ ∃ p, inferProperty kind name values = .ok p ∧ Takes p name values) ∨
    (¬ Values values ∧
      ∃ defect, inferProperty kind name values = .error (.construction defect)) := by
  obtain ⟨p, made, chosen⟩ | refused := inferProperty_chosen kind name values
  · exact Or.inl ⟨chosen.areValues, p, made, chosen.takes⟩
  · exact Or.inr refused

end Voxel.Version
