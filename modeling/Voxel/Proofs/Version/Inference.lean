import Voxel.Proofs.Version.Property

/-!
# Inference of domains

A property inferred for declared texts has one value for each of them, and reads and writes them as
they were declared (`inferProperty_infers`). Its domain is boolean for the texts of the two truth
values, a range for the numerals of a range, and a choice among the texts otherwise.
-/

namespace Voxel.Version

theorem Chosen.mem_of_encodeIndex? {name : String} {values : List String} {p : Property}
    (chosen : Chosen name values p) {i : Nat} {text : String}
    (encoded : p.encodeIndex? i = some text) : text ∈ values := by
  obtain ⟨v, here, rfl⟩ := Option.map_eq_some_iff.mp encoded
  have index := Domain.valueAt?_eq_some_iff.mp here
  have reads := Domain.reads_text index
  cases chosen with
  | bool booleans =>
    cases v with
    | bool b =>
      cases b
      · exact booleans.2.2
      · exact booleans.2.1
    | _ => exact reads.elim
  | range r spans =>
    cases v with
    | int n => exact spans.mem_iff.mpr ⟨n, reads.2, rfl⟩
    | _ => exact reads.elim
  | choice c family all =>
    cases v with
    | choice f t => exact all ▸ reads.2.1
    | _ => exact reads.elim

/-- What a property is that was inferred for declared texts. -/
structure Infers (p : Property) (name : String) (values : List String) : Prop where
  name : p.name = name
  size : p.size = values.length
  back : ∀ text ∈ values, ∃ i < p.size, p.decodeIndex text = .ok i ∧ p.encodeIndex? i = some text
  each : ∀ i < p.size, ∃! text, text ∈ values ∧ p.decodeIndex text = .ok i
  boolean : p.sort = .bool ↔ values.Perm ["true", "false"]
  integer : p.sort = .int ↔ ∃ low high, Spans values low high
  range : ∀ r, p.domain = .int r → Spans values r.min r.max
  listed : p.sort ≠ .bool → p.sort ≠ .int →
    p.sort = .choice .text ∧ ∀ i, p.encodeIndex? i = values[i]?

theorem Chosen.infers {name : String} {values : List String} {p : Property}
    (chosen : Chosen name values p) : Infers p name values := by
  have back : ∀ text ∈ values, ∃ i < p.size,
      p.decodeIndex text = .ok i ∧ p.encodeIndex? i = some text := by
    intro text member
    obtain ⟨i, read⟩ := (chosen.reads text).mpr ⟨text, member, rfl⟩
    obtain ⟨t, encoded, like, -⟩ := Property.encodeIndex?_of_decodeIndex read
    have declared := chosen.mem_of_encodeIndex? encoded
    obtain rfl := List.inj_on_of_nodup_map chosen.areValues.distinct declared member like
    exact ⟨i, Property.decodeIndex_lt read, read, encoded⟩
  refine ⟨chosen.name_eq, chosen.size, back, ?_, chosen.boolean.trans booleans_iff_perm, ?_, ?_, ?_⟩
  · intro i less
    obtain ⟨v, here⟩ := Domain.exists_valueAt? less
    have encoded : p.encodeIndex? i = some v.text := congrArg (Option.map Value.text) here
    refine ⟨v.text, ⟨chosen.mem_of_encodeIndex? encoded,
      Property.decodeIndex_of_encodeIndex? encoded⟩, ?_⟩
    rintro text ⟨member, read⟩
    obtain ⟨j, -, again, encodedToo⟩ := back text member
    obtain rfl := Except.ok.inj (read.symm.trans again)
    exact Option.some.inj (encodedToo.symm.trans encoded)
  · cases chosen with
    | bool booleans =>
      refine iff_of_false (fun sort => nomatch sort) ?_
      rintro ⟨low, high, spans⟩
      exact not_spans_of_booleans booleans low high spans
    | range r spans => exact iff_of_true rfl ⟨_, _, spans⟩
    | choice c family all other gap =>
      refine iff_of_false (fun sort => nomatch sort) ?_
      rintro ⟨low, high, spans⟩
      exact gap low high spans
  · intro r same
    cases chosen with
    | range _ spans =>
      cases same
      exact spans
    | _ => cases same
  · intro notBool notInt
    cases chosen with
    | bool => exact absurd rfl notBool
    | range => exact absurd rfl notInt
    | choice c family all =>
      refine ⟨congrArg ValueSort.choice family, fun i => ?_⟩
      show (c.values[i]?.map (Value.choice c.family)).map Value.text = values[i]?
      rw [Option.map_map, all]
      exact Option.map_id'

/-- Inference succeeds exactly for texts that differ by more than case, and keeps them. -/
theorem inferProperty_infers (kind : Name) (name : String) (values : List String) :
    match inferProperty kind name values with
    | .ok p => Values values ∧ Infers p name values
    | .error e => ¬ Values values ∧ ∃ defect, e = .construction defect := by
  obtain ⟨p, made, chosen⟩ | ⟨bad, defect, refused⟩ := inferProperty_chosen kind name values
  · rw [made]
    exact ⟨chosen.areValues, chosen.infers⟩
  · rw [refused]
    exact ⟨bad, defect, rfl⟩

end Voxel.Version
