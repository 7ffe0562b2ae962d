import Voxel.OrderedMap
import Voxel.Proofs.Block.Transition

/-!
# States and lists of texts

`stateOfTexts` takes texts one after the other, from the default state on. `FromTexts` says where this
leads: the last text of each property counts, and a property that is not named stays as it was.
`stateOfTexts_eq_ok_iff` makes this the whole meaning of a list, and `encoded_pairs` says what the list
of a state is, so that `stateOfTexts_encoded` finds every state again.
-/

namespace Voxel

open OrderedMap (LastOf lastOf_cons)

/-! ### Last texts -/

section

variable {texts others : List (String × String)} {e : String × String}

theorem exists_lastOf {name : String} (named : name ∈ texts.map Prod.fst) :
    ∃ text, LastOf texts (name, text) := by
  induction texts with
  | nil => cases named
  | cons f rest ih =>
    by_cases later : name ∈ rest.map Prod.fst
    · obtain ⟨text, last⟩ := ih later
      exact ⟨text, lastOf_cons.mpr (Or.inl last)⟩
    · rw [List.map_cons, List.mem_cons] at named
      obtain rfl := named.resolve_right later
      exact ⟨f.2, lastOf_cons.mpr (Or.inr ⟨rfl, later⟩)⟩

theorem mem_of_lastOf (last : LastOf texts e) : e ∈ texts := by
  obtain ⟨before, after, rfl, _⟩ := last
  exact List.mem_append_right _ List.mem_cons_self

theorem lastOf_iff_mem (keys : (texts.map Prod.fst).Nodup) : LastOf texts e ↔ e ∈ texts := by
  refine ⟨mem_of_lastOf, fun member => ?_⟩
  obtain ⟨before, after, rfl⟩ := List.append_of_mem member
  rw [List.map_append, List.map_cons, List.nodup_append, List.nodup_cons] at keys
  exact ⟨before, after, rfl, keys.2.1.1⟩

theorem lastOf_swap {before after : List (String × String)} {a b : String × String}
    (apart : a.1 ≠ b.1) :
    LastOf (before ++ a :: b :: after) e ↔ LastOf (before ++ b :: a :: after) e := by
  induction before with
  | nil =>
    rw [List.nil_append, List.nil_append]
    simp only [lastOf_cons, List.map_cons, List.mem_cons, not_or]
    constructor
    · rintro ((last | ⟨rfl, absent⟩) | ⟨rfl, _, absent⟩)
      · exact Or.inl (Or.inl last)
      · exact Or.inr ⟨rfl, apart.symm, absent⟩
      · exact Or.inl (Or.inr ⟨rfl, absent⟩)
    · rintro ((last | ⟨rfl, absent⟩) | ⟨rfl, _, absent⟩)
      · exact Or.inl (Or.inl last)
      · exact Or.inr ⟨rfl, apart, absent⟩
      · exact Or.inl (Or.inr ⟨rfl, absent⟩)
  | cons f rest ih =>
    have same : ((rest ++ a :: b :: after).map Prod.fst).Perm
        ((rest ++ b :: a :: after).map Prod.fst) :=
      ((List.Perm.swap b a after).append_left rest).map Prod.fst
    rw [List.cons_append, List.cons_append, lastOf_cons, lastOf_cons, ih, same.mem_iff]

end

/-! ### What a list of texts means -/

/-- A state with the values that texts give it, beside those of another state. -/
structure FromTexts (k : BlockKind) (texts : List (String × String)) (start s : BlockState) : Prop where
  kind : s.kind = k
  named : ∀ p ∈ k.properties, ∀ text, LastOf texts (p.name, text) →
    ∃ j, p.decodeIndex text = .ok j ∧ s.index p.name = .ok j
  unnamed : ∀ p ∈ k.properties, p.name ∉ texts.map Prod.fst → s.index p.name = start.index p.name

namespace BlockState

variable {k : BlockKind} (names : (k.properties.map Property.name).Nodup)
include names

theorem withText_takes {s : BlockState} (kind : s.kind = k) {p : Property} (inP : p ∈ k.properties)
    {text : String} {j : Nat} (decoded : p.decodeIndex text = .ok j) :
    ∃ t, s.withText p.name text = .ok t ∧ s.Takes p j t := by
  subst kind
  obtain ⟨place, found, here⟩ := place_of_mem names inP
  have decodedHere : (s.kind.properties.get place).decodeIndex text = .ok j := here ▸ decoded
  exact ⟨_, withText_of_decodes found decodedHere, moved_takes names rfl here _⟩

theorem Takes.fromTexts {s t u : BlockState} (kind : s.kind = k) {p : Property}
    (inP : p ∈ k.properties) {text : String} {j : Nat} (decoded : p.decodeIndex text = .ok j)
    (takes : s.Takes p j t) {rest : List (String × String)} (later : FromTexts k rest t u) :
    FromTexts k ((p.name, text) :: rest) s u := by
  refine ⟨later.kind, fun q inQ read last => ?_, fun q inQ absent => ?_⟩
  · rcases lastOf_cons.mp last with last | ⟨same, absent⟩
    · exact later.named q inQ read last
    · obtain ⟨name, rfl⟩ := Prod.mk.inj same
      obtain rfl := List.inj_on_of_nodup_map names inQ inP name
      exact ⟨j, decoded, (later.unnamed q inQ absent).trans takes.index⟩
  · rw [List.map_cons, List.mem_cons, not_or] at absent
    exact (later.unnamed q inQ absent.2).trans (takes.others q (kind ▸ inQ) absent.1)

theorem foldlM_fromTexts {texts : List (String × String)} {s : BlockState} (kind : s.kind = k)
    (readable : ∀ e ∈ texts, Readable k.properties e) :
    ∃ t, texts.foldlM (fun s (name, text) => s.withText name text) s = .ok t ∧
      FromTexts k texts s t := by
  induction texts generalizing s with
  | nil => exact ⟨s, rfl, kind, fun _ _ _ last => absurd (mem_of_lastOf last) List.not_mem_nil,
      fun _ _ _ => rfl⟩
  | cons e rest ih =>
    obtain ⟨⟨p, inP, named, j, decoded⟩, others⟩ := List.forall_mem_cons.mp readable
    obtain ⟨name, text⟩ := e
    obtain rfl : p.name = name := named
    obtain ⟨t, taken, takes⟩ := withText_takes names kind inP decoded
    obtain ⟨u, run, later⟩ := ih (takes.kind.trans kind) others
    refine ⟨u, ?_, takes.fromTexts names kind inP decoded later⟩
    rw [List.foldlM_cons]
    simp only [taken, Outcome.ok_bind]
    exact run

end BlockState

theorem readable_of_foldlM {ps : List Property} {texts : List (String × String)} {s t : BlockState}
    (properties : s.kind.properties = ps)
    (run : texts.foldlM (fun s (name, text) => s.withText name text) s = .ok t) :
    ∀ e ∈ texts, Readable ps e := by
  induction texts generalizing s with
  | nil => exact fun _ member => absurd member List.not_mem_nil
  | cons e rest ih =>
    rw [List.foldlM_cons] at run
    obtain ⟨next, taken, run⟩ := Outcome.bind_ok run
    obtain ⟨place, p, d, kind, here, named, decoded, _⟩ := BlockState.withText_ok taken
    refine List.forall_mem_cons.mpr ⟨⟨p, ?_, named, d, decoded⟩, ih (kind ▸ properties) run⟩
    exact properties ▸ List.mem_of_getElem? here

namespace BlockKind

variable {k : BlockKind} (names : (k.properties.map Property.name).Nodup)
include names

theorem fromTexts_unique {texts : List (String × String)} {start s t : BlockState}
    (left : FromTexts k texts start s) (right : FromTexts k texts start t) : s = t := by
  refine BlockState.eq_of_index names left.kind right.kind fun p member => ?_
  by_cases named : p.name ∈ texts.map Prod.fst
  · obtain ⟨text, last⟩ := exists_lastOf named
    obtain ⟨i, decoded, value⟩ := left.named p member text last
    obtain ⟨j, decodedToo, valueToo⟩ := right.named p member text last
    rw [value, valueToo, ← decoded, decodedToo]
  · rw [left.unnamed p member named, right.unnamed p member named]

/-- Texts describe a state if all of them can be read, and then the state that they mean. -/
theorem stateOfTexts_eq_ok_iff {texts : List (String × String)} {s : BlockState} :
    k.stateOfTexts texts = .ok s ↔
      (∀ e ∈ texts, Readable k.properties e) ∧ FromTexts k texts k.defaultState s := by
  constructor
  · intro described
    have readable := readable_of_foldlM rfl described
    obtain ⟨t, run, means⟩ := BlockState.foldlM_fromTexts names (s := k.defaultState) rfl readable
    cases described.symm.trans run
    exact ⟨readable, means⟩
  · rintro ⟨readable, means⟩
    obtain ⟨t, run, other⟩ := BlockState.foldlM_fromTexts names (s := k.defaultState) rfl readable
    rw [stateOfTexts, run, fromTexts_unique names means other]

theorem stateOfTexts_agree {texts others : List (String × String)}
    (members : ∀ e, e ∈ texts ↔ e ∈ others) (last : ∀ e, LastOf texts e ↔ LastOf others e) :
    Outcome.Agree (k.stateOfTexts texts) (k.stateOfTexts others) := by
  have keys : ∀ name, name ∈ texts.map Prod.fst ↔ name ∈ others.map Prod.fst := by
    intro name
    simp only [List.mem_map, members]
  have means : ∀ s, FromTexts k texts k.defaultState s ↔ FromTexts k others k.defaultState s := by
    intro s
    constructor
    · rintro ⟨kind, named, unnamed⟩
      exact ⟨kind, fun p inP text is => named p inP text ((last _).mpr is),
        fun p inP absent => unnamed p inP fun named => absent ((keys _).mp named)⟩
    · rintro ⟨kind, named, unnamed⟩
      exact ⟨kind, fun p inP text is => named p inP text ((last _).mp is),
        fun p inP absent => unnamed p inP fun named => absent ((keys _).mpr named)⟩
  refine Outcome.agree_of_ok_iff fun s => ?_
  rw [stateOfTexts_eq_ok_iff names, stateOfTexts_eq_ok_iff names, means]
  simp only [members]

end BlockKind

/-! ### The list of a state -/

def Shown (s : BlockState) (p : Property) (e : String × String) : Prop :=
  e.1 = p.name ∧ ∃ i, s.index p.name = .ok i ∧ p.encodeIndex? i = some e.2

section

variable {k : BlockKind} (names : (k.properties.map Property.name).Nodup) {s : BlockState}
  (kind : s.kind = k)
include names kind

theorem encoded_pairs : List.Forall₂ (Shown s) k.properties s.encoded := by
  subst kind
  have length : s.kind.properties.length = s.encoded.length := by
    rw [← List.length_map (f := Property.name), ← s.map_fst_encoded, List.length_map]
  refine List.forall₂_iff_get.mpr ⟨length, fun i left right => ?_⟩
  have inside : i < s.indices.length := s.length_indices ▸ left
  have here : s.kind.properties[i]? = some s.kind.properties[i] := List.getElem?_eq_getElem left
  have index : s.index s.kind.properties[i].name = .ok s.indices[i] :=
    (BlockState.index_ok_iff names rfl here).mpr (List.getElem?_eq_getElem inside)
  obtain ⟨j, value, less⟩ := BlockState.exists_index names (s := s) rfl (List.getElem_mem left)
  obtain rfl := Except.ok.inj (index.symm.trans value)
  obtain ⟨v, stored⟩ := Domain.exists_valueAt? less
  have text : s.kind.properties[i].encodeIndex? s.indices[i] = some v.text := by
    rw [Property.encodeIndex?, Property.valueAt?, stored]
    rfl
  have pair : s.encoded[i] = (s.kind.properties[i].name, v.text) := by
    simp only [BlockState.encoded, List.getElem_map, List.getElem_zip, text, Option.getD_some]
  rw [List.get_eq_getElem, List.get_eq_getElem, pair]
  exact ⟨rfl, s.indices[i], index, text⟩

theorem stateOfTexts_encoded {texts : List (String × String)} (perm : texts.Perm s.encoded) :
    k.stateOfTexts texts = .ok s := by
  have pairs := encoded_pairs names kind
  have shown : ∀ e ∈ texts, ∃ p ∈ k.properties, Shown s p e := fun e member =>
    forall₂_of_mem pairs.flip (perm.mem_iff.mp member)
  refine (BlockKind.stateOfTexts_eq_ok_iff names).mpr
    ⟨fun e member => ?_, kind, fun p inP text last => ?_, fun p inP absent => ?_⟩
  · obtain ⟨p, inP, named, i, _, encoded⟩ := shown e member
    exact ⟨p, inP, named.symm, i, Property.decodeIndex_of_encodeIndex? encoded⟩
  · obtain ⟨q, inQ, named, i, index, encoded⟩ := shown _ (mem_of_lastOf last)
    obtain rfl := List.inj_on_of_nodup_map names inP inQ named
    exact ⟨i, Property.decodeIndex_of_encodeIndex? encoded, index⟩
  · obtain ⟨e, listed, named, _⟩ := forall₂_of_mem pairs inP
    exact absurd (named ▸ List.mem_map_of_mem (perm.mem_iff.mpr listed)) absent

end

/-! ### Kinds that are built -/

/-- States and lists of texts stand for each other. A list is refused unless a property reads each of
its texts, and may otherwise be put in any order that leaves the texts of one name in theirs. -/
structure BlockKind.Textual (k : BlockKind) : Prop where
  described : ∀ texts, (∃ s, k.stateOfTexts texts = .ok s) ↔ ∀ e ∈ texts, Readable k.properties e
  refused : ∀ texts e, k.stateOfTexts texts = .error e → ∃ misuse, e = .invalidValue misuse
  means : ∀ texts s, k.stateOfTexts texts = .ok s → FromTexts k texts k.defaultState s
  exchanged : ∀ before a b after, a.1 ≠ b.1 → Outcome.Agree
    (k.stateOfTexts (before ++ a :: b :: after)) (k.stateOfTexts (before ++ b :: a :: after))
  permuted : ∀ texts others, texts.Perm others → (texts.map Prod.fst).Nodup →
    Outcome.Agree (k.stateOfTexts texts) (k.stateOfTexts others)
  restored : ∀ s ∈ k.states, ∀ texts, texts.Perm s.encoded → k.stateOfTexts texts = .ok s
  names : (k.properties.map Property.name).Nodup
  encoded : ∀ s ∈ k.states, List.Forall₂ (Shown s) k.properties s.encoded

theorem BlockKind.textual {k : BlockKind} (names : (k.properties.map Property.name).Nodup) :
    k.Textual where
  described texts := by
    constructor
    · rintro ⟨s, described⟩
      exact ((stateOfTexts_eq_ok_iff names).mp described).1
    · intro readable
      obtain ⟨s, run, _⟩ := BlockState.foldlM_fromTexts names (s := k.defaultState) rfl readable
      exact ⟨s, run⟩
  refused _ _ := stateOfTexts_error
  means _ _ described := ((stateOfTexts_eq_ok_iff names).mp described).2
  exchanged before a b after apart := by
    refine stateOfTexts_agree names (fun e => ?_) fun e => lastOf_swap apart
    exact ((List.Perm.swap b a after).append_left before).mem_iff
  permuted texts others perm keys := by
    refine stateOfTexts_agree names (fun e => perm.mem_iff) fun e => ?_
    rw [lastOf_iff_mem keys, lastOf_iff_mem ((perm.map Prod.fst).nodup_iff.mp keys), perm.mem_iff]
  restored s member texts perm := stateOfTexts_encoded names (mem_states.mp member) perm
  names := names
  encoded s member := encoded_pairs names (mem_states.mp member)

namespace Declaration

/-- States and texts stand for each other in every kind that a declaration is enumerated into. -/
theorem enumerate_textual {σ : Type} {d : Declaration} {registry : RegistryId} {assign : Rule σ}
    {start last : σ} {k : BlockKind} (built : d.enumerate registry assign start = .ok (k, last)) :
    k.Textual :=
  BlockKind.textual (enumerate_names built)

theorem logs_textual : ∃ k last, Declaration.enumerate { logs with default := some 5 } 0 numbered 0 =
    .ok (k, last) ∧ k.Textual := by
  obtain ⟨k, last, built⟩ : ∃ k last,
      Declaration.enumerate { logs with default := some 5 } 0 numbered 0 = .ok (k, last) :=
    ⟨_, _, rfl⟩
  exact ⟨k, last, built, enumerate_textual built⟩

end Declaration
end Voxel
