import Mathlib.Data.List.GetD
import Voxel.Block.Kind
import Voxel.Proofs.Outcome
import Voxel.Proofs.Property
import Voxel.Proofs.Radix

/-!
# States and the texts of their values

`Filled` says how texts fill in the digits of a state, one property at a time, in any order.
`stateOfTexts_of_given` finds the state that texts describe, and `Given.unique` shows that there is no
second one.
-/

namespace Voxel

/-- Properties take the values of texts given for them; the other digits stay. -/
structure Filled (ps : List Property) (texts : List (String × String)) (start ds : List Nat) :
    Prop where
  length : ds.length = start.length
  given : ∀ (i : Nat) (p : Property) text, ps[i]? = some p → (p.name, text) ∈ texts →
    ∃ d, p.decodeIndex text = .ok d ∧ ds[i]? = some d
  others : ∀ (i : Nat) (p : Property), ps[i]? = some p → p.name ∉ texts.map Prod.fst → ds[i]? = start[i]?

/-- A text is given for a property that can read it. -/
def Readable (ps : List Property) (e : String × String) : Prop :=
  ∃ p ∈ ps, p.name = e.1 ∧ ∃ d, p.decodeIndex e.2 = .ok d

/-- Every property takes the value of a text given for it. -/
structure Given (ps : List Property) (texts : List (String × String)) (ds : List Nat) : Prop where
  length : ds.length = ps.length
  given : ∀ (i : Nat) (p : Property), ps[i]? = some p →
    ∃ text d, (p.name, text) ∈ texts ∧ p.decodeIndex text = .ok d ∧ ds[i]? = some d

/-! ### Places of properties -/

theorem name_of_findFinIdx? {ps : List Property} {name : String} {place : Fin ps.length}
    (found : ps.findFinIdx? (·.name = name) = some place) : (ps.get place).name = name := by
  have here := (List.findFinIdx?_eq_some_iff.mp found).1
  exact of_decide_eq_true here

theorem findFinIdx?_of_mem {ps : List Property} {p : Property} (member : p ∈ ps) :
    ∃ place, ps.findFinIdx? (·.name = p.name) = some place := by
  rw [← Option.isSome_iff_exists, List.isSome_findFinIdx?, List.any_eq_true]
  exact ⟨p, member, decide_eq_true rfl⟩

theorem place_unique {ps : List Property} (names : (ps.map Property.name).Nodup) {i j : Nat}
    {p q : Property} (left : ps[i]? = some p) (right : ps[j]? = some q) (same : p.name = q.name) :
    i = j := by
  have inside : i < (ps.map Property.name).length := by
    rw [List.length_map]
    exact (List.getElem?_eq_some_iff.mp left).1
  refine (List.getElem?_inj inside names).mp ?_
  rw [List.getElem?_map, List.getElem?_map, left, right, Option.map_some, Option.map_some, same]

theorem find_eq_get {ps : List Property} (names : (ps.map Property.name).Nodup) {p : Property}
    (member : p ∈ ps) {place : Fin ps.length}
    (found : ps.findFinIdx? (·.name = p.name) = some place) : ps.get place = p := by
  obtain ⟨i, inside, stored⟩ := List.mem_iff_getElem.mp member
  have here : ps[i]? = some p := List.getElem?_eq_some_iff.mpr ⟨inside, stored⟩
  have there : ps[place.val]? = some (ps.get place) := List.getElem?_eq_getElem place.isLt
  have same := place_unique names here there (name_of_findFinIdx? found).symm
  subst same
  exact stored

/-! ### Filling in -/

theorem Filled.nil (ps : List Property) (start : List Nat) : Filled ps [] start start :=
  ⟨rfl, fun _ _ _ _ member => absurd member List.not_mem_nil, fun _ _ _ _ => rfl⟩

theorem Filled.snoc {ps : List Property} (names : (ps.map Property.name).Nodup)
    {texts : List (String × String)} {start ds : List Nat} (filled : Filled ps texts start ds)
    {name text : String} (new : name ∉ texts.map Prod.fst) {place d : Nat} {p : Property}
    (here : ps[place]? = some p) (named : p.name = name) (decoded : p.decodeIndex text = .ok d)
    (inside : place < ds.length) :
    Filled ps (texts ++ [(name, text)]) start (ds.set place d) where
  length := by rw [List.length_set, filled.length]
  given i q other there member := by
    rw [List.mem_append, List.mem_singleton, Prod.mk.injEq] at member
    by_cases same : i = place
    · subst same
      obtain rfl := Option.some.inj (here.symm.trans there)
      rcases member with old | ⟨_, rfl⟩
      · exact absurd (named ▸ List.mem_map_of_mem (f := Prod.fst) old) new
      · exact ⟨d, decoded, List.getElem?_set_self inside⟩
    · rcases member with old | ⟨last, _⟩
      · rw [List.getElem?_set_ne (Ne.symm same)]
        exact filled.given i q other there old
      · exact absurd (place_unique names there here (last.trans named.symm)) same
  others i q there absent := by
    rw [List.map_append, List.mem_append, not_or] at absent
    have same : i ≠ place := by
      rintro rfl
      obtain rfl := Option.some.inj (here.symm.trans there)
      exact absent.2 (by rw [named]; exact List.mem_singleton_self _)
    rw [List.getElem?_set_ne (Ne.symm same)]
    exact filled.others i q there absent.1

theorem Filled.toGiven {ps : List Property} {texts : List (String × String)} {start ds : List Nat}
    (filled : Filled ps texts start ds) (length : start.length = ps.length)
    (every : ∀ p ∈ ps, p.name ∈ texts.map Prod.fst) : Given ps texts ds := by
  refine ⟨filled.length.trans length, fun i p here => ?_⟩
  obtain ⟨⟨_, text⟩, member, rfl⟩ := List.mem_map.mp (every p (List.mem_of_getElem? here))
  obtain ⟨d, decoded, digit⟩ := filled.given i p text here member
  exact ⟨text, d, member, decoded, digit⟩

theorem value_unique {texts : List (String × String)} (keys : (texts.map Prod.fst).Nodup)
    {name s t : String} (left : (name, s) ∈ texts) (right : (name, t) ∈ texts) : s = t :=
  congrArg Prod.snd (List.inj_on_of_nodup_map keys left right rfl)

theorem Given.unique {ps : List Property} {texts others : List (String × String)} {ds es : List Nat}
    (left : Given ps texts ds) (right : Given ps others es)
    (like : ∀ p ∈ ps, ∀ s t, (p.name, s) ∈ texts → (p.name, t) ∈ others →
      Text.fold s = Text.fold t) : ds = es := by
  apply List.ext_getElem?
  intro i
  by_cases inside : i < ps.length
  · have here : ps[i]? = some ps[i] := List.getElem?_eq_getElem inside
    obtain ⟨s, d, memberS, decodedS, digitS⟩ := left.given i _ here
    obtain ⟨t, e, memberT, decodedT, digitT⟩ := right.given i _ here
    have same := like _ (List.getElem_mem inside) s t memberS memberT
    have equal := (Property.decodeIndex_congr decodedS same).symm.trans decodedT
    rw [digitS, digitT, Except.ok.inj equal]
  · rw [List.getElem?_eq_none (by rw [left.length]; omega),
      List.getElem?_eq_none (by rw [right.length]; omega)]

theorem Given.within {ps : List Property} {texts : List (String × String)} {ds : List Nat}
    (given : Given ps texts ds) : Radix.Within (ps.map Property.size) ds := by
  rw [Radix.Within, List.forall₂_map_right_iff]
  refine List.forall₂_iff_get.mpr ⟨given.length, fun i left right => ?_⟩
  obtain ⟨text, d, _, decoded, digit⟩ := given.given i _ (List.getElem?_eq_getElem right)
  have same := (List.getElem?_eq_some_iff.mp digit).2
  rw [List.get_eq_getElem, List.get_eq_getElem, same]
  exact Property.decodeIndex_lt decoded

/-! ### States -/

namespace BlockKind

theorem mem_states {k : BlockKind} {s : BlockState} : s ∈ k.states ↔ s.kind = k := by
  unfold states
  rw [List.mem_ofFn]
  constructor
  · rintro ⟨i, rfl⟩
    rfl
  · rintro rfl
    exact ⟨⟨s.offset, s.offset_lt⟩, rfl⟩

theorem length_states (k : BlockKind) : k.states.length = k.stateCount := List.length_ofFn

end BlockKind

namespace BlockState

theorem sizes_pos (s : BlockState) : ∀ size ∈ s.kind.sizes, 0 < size := by
  intro size member
  have total := Nat.zero_lt_of_lt s.offset_lt
  rw [s.kind.size_entries] at total
  obtain ⟨i, inside, rfl⟩ := List.mem_iff_getElem.mp member
  have factor := Radix.total_eq inside
  rw [List.getD_eq_getElem _ _ inside] at factor
  apply Nat.pos_of_ne_zero
  intro zero
  rw [zero, Nat.zero_mul, Nat.mul_zero] at factor
  exact Nat.ne_of_gt total factor

theorem length_indices (s : BlockState) : s.indices.length = s.kind.properties.length := by
  rw [indices, Radix.length_digits, BlockKind.sizes, List.length_map]

theorem offset_eq (s : BlockState) : s.offset = Radix.number s.kind.sizes s.indices :=
  (Radix.number_digits (s.kind.size_entries ▸ s.offset_lt)).symm

theorem eq_of_indices {s t : BlockState} (kind : s.kind = t.kind) (indices : s.indices = t.indices) :
    s = t := by
  have offset : s.offset = t.offset := by rw [offset_eq, offset_eq, kind, indices]
  obtain ⟨k, n, _⟩ := s
  obtain ⟨l, m, _⟩ := t
  cases kind
  cases offset
  rfl

theorem eq_of_single {s t : BlockState} (kind : s.kind = t.kind) (single : t.kind.stateCount = 1) :
    s = t := by
  obtain ⟨k, n, inside⟩ := s
  obtain ⟨l, m, inside'⟩ := t
  cases kind
  unfold BlockKind.stateCount at single
  dsimp only at inside inside' single
  have same : n = m := by omega
  cases same
  rfl

theorem indices_moved (s : BlockState) (place : Fin s.kind.properties.length) (index : Nat)
    (h : index < (s.kind.properties.get place).size) :
    (s.moved place index h).indices = s.indices.set place index := by
  have inside : place.val < s.kind.sizes.length := by
    rw [BlockKind.sizes, List.length_map]
    exact place.isLt
  have less : index < s.kind.sizes.getD place 1 := by
    rw [List.getD_eq_getElem _ _ inside]
    simpa [BlockKind.sizes] using h
  show Radix.digits s.kind.sizes (s.moved place index h).offset = _
  rw [offset_moved, Radix.digits_set s.sizes_pos (s.kind.size_entries ▸ s.offset_lt) inside less]
  rfl

theorem withText_of_decodes {s : BlockState} {name text : String}
    {place : Fin s.kind.properties.length} {index : Nat} (found : s.kind.place? name = some place)
    (decoded : (s.kind.properties.get place).decodeIndex text = .ok index) :
    s.withText name text = .ok (s.moved place index (Property.decodeIndex_lt decoded)) := by
  simp only [withText, BlockKind.place, found, Outcome.ok_bind]
  split
  · rename_i other same
    obtain rfl := Except.ok.inj (decoded.symm.trans same)
    rfl
  · rename_i failed
    rw [decoded] at failed
    cases failed

theorem index_eq {s : BlockState} {property : String} {place : Fin s.kind.properties.length}
    (found : s.kind.place? property = some place) : s.index property = .ok (s.indexAt place) := by
  rw [index, BlockKind.place, found]
  rfl

theorem withIndex_eq {s : BlockState} {property : String} {place : Fin s.kind.properties.length}
    {index : Nat} (found : s.kind.place? property = some place)
    (inside : index < (s.kind.properties.get place).size) :
    s.withIndex property index = .ok (s.moved place index inside) := by
  rw [withIndex, BlockKind.place, found]
  exact dif_pos inside

theorem getElem?_indices (s : BlockState) (place : Fin s.kind.properties.length) :
    s.indices[place.val]? = some (s.indexAt place) := by
  refine Radix.getElem?_digits ?_
  rw [BlockKind.sizes, List.length_map]
  exact place.isLt

theorem map_fst_encoded (t : BlockState) :
    t.encoded.map Prod.fst = t.kind.properties.map Property.name := by
  have length : t.kind.properties.length ≤ t.indices.length := Nat.le_of_eq t.length_indices.symm
  have first := List.map_fst_zip length
  unfold encoded
  rw [List.map_map, ← congrArg (List.map Property.name) first, List.map_map]
  rfl

theorem place_error {k : BlockKind} {name : String} {e : BlockError} (h : k.place name = .error e) :
    ∃ misuse, e = .invalidValue misuse := by
  unfold BlockKind.place at h
  split at h
  · cases h
  · cases h
    exact ⟨_, rfl⟩

theorem withText_error {s : BlockState} {name text : String} {e : BlockError}
    (h : s.withText name text = .error e) : ∃ misuse, e = .invalidValue misuse := by
  rcases Outcome.bind_error h with unknown | ⟨place, _, refused⟩
  · exact place_error unknown
  · split at refused
    · cases refused
    · rename_i undecoded
      cases refused
      exact Property.decodeIndex_error undecoded

theorem withText_of_readable {s : BlockState} {name text : String}
    (names : (s.kind.properties.map Property.name).Nodup)
    (readable : Readable s.kind.properties (name, text)) :
    ∃ t place p d, s.withText name text = .ok t ∧ t.kind = s.kind ∧
      s.kind.properties[place]? = some p ∧ p.name = name ∧ p.decodeIndex text = .ok d ∧
      t.indices = s.indices.set place d := by
  obtain ⟨p, member, rfl, d, decoded⟩ := readable
  obtain ⟨place, found⟩ := findFinIdx?_of_mem member
  have same := find_eq_get names member found
  have decodedHere : (s.kind.properties.get place).decodeIndex text = .ok d := same ▸ decoded
  exact ⟨_, place.val, p, d, withText_of_decodes found decodedHere, rfl,
    same ▸ List.getElem?_eq_getElem place.isLt, rfl, decoded, indices_moved s place d _⟩

theorem withText_ok {s t : BlockState} {name text : String} (h : s.withText name text = .ok t) :
    ∃ (place : Nat) (p : Property) (d : Nat), t.kind = s.kind ∧ s.kind.properties[place]? = some p ∧
      p.name = name ∧ p.decodeIndex text = .ok d ∧ t.indices = s.indices.set place d := by
  obtain ⟨place, found, h⟩ := Outcome.bind_ok h
  unfold BlockKind.place at found
  split at found
  · rename_i i here
    cases found
    split at h
    · rename_i d decoded
      cases h
      exact ⟨place, _, d, rfl, List.getElem?_eq_getElem place.isLt, name_of_findFinIdx? here, decoded,
        indices_moved s place d _⟩
    · cases h
  · cases found

theorem kind_of_withText {s t : BlockState} {name text : String} (h : s.withText name text = .ok t) :
    t.kind = s.kind := by
  obtain ⟨_, _, _, kind, _⟩ := withText_ok h
  exact kind

/-! ### Texts that may not fit -/

/-- The state with a property's value read from a text, or as it is if the text cannot be read. -/
def taking (s : BlockState) (name text : String) : BlockState :=
  (s.withText name text).toOption.getD s

theorem kind_taking (s : BlockState) (name text : String) : (s.taking name text).kind = s.kind := by
  unfold taking
  cases taken : s.withText name text with
  | error e => rfl
  | ok t => exact kind_of_withText taken

theorem indices_taking {s : BlockState} (names : (s.kind.properties.map Property.name).Nodup)
    {i : Nat} {p : Property} (here : s.kind.properties[i]? = some p) (name text : String) :
    (s.taking name text).indices[i]? =
      (if p.name = name then (p.decodeIndex text).toOption else none).or s.indices[i]? := by
  unfold taking
  cases taken : s.withText name text with
  | ok t =>
    obtain ⟨place, q, d, _, there, named, decoded, indices⟩ := withText_ok taken
    simp only [Except.toOption, Option.getD_some]
    by_cases same : p.name = name
    · have equal : i = place := place_unique names here there (same.trans named.symm)
      subst equal
      obtain rfl := Option.some.inj (here.symm.trans there)
      have inside : i < s.indices.length := by
        rw [s.length_indices]
        exact (List.getElem?_eq_some_iff.mp here).1
      rw [if_pos same, decoded, indices, List.getElem?_set_self inside]
      rfl
    · have other : place ≠ i := by
        intro equal
        subst equal
        obtain rfl := Option.some.inj (here.symm.trans there)
        exact same named
      rw [if_neg same, indices, List.getElem?_set_ne other, Option.none_or]
  | error e =>
    simp only [Except.toOption, Option.getD_none]
    by_cases same : p.name = name
    · cases decoded : p.decodeIndex text with
      | error e => simp [same]
      | ok d =>
        have readable : Readable s.kind.properties (name, text) :=
          ⟨p, List.mem_of_getElem? here, same, d, decoded⟩
        obtain ⟨t, _, _, _, also, _⟩ := withText_of_readable names readable
        rw [also] at taken
        cases taken
    · rw [if_neg same, Option.none_or]

end BlockState

namespace BlockKind

theorem foldlM_withText {ps : List Property} (names : (ps.map Property.name).Nodup)
    (texts done : List (String × String)) (start : List Nat) (s : BlockState)
    (kind : s.kind.properties = ps) (filled : Filled ps done start s.indices)
    (keys : ((done ++ texts).map Prod.fst).Nodup) (readable : ∀ e ∈ texts, Readable ps e) :
    ∃ t, texts.foldlM (fun s (name, text) => s.withText name text) s = .ok t ∧ t.kind = s.kind ∧
      Filled ps (done ++ texts) start t.indices := by
  induction texts generalizing done s with
  | nil => exact ⟨s, rfl, rfl, by rw [List.append_nil]; exact filled⟩
  | cons e rest ih =>
    obtain ⟨name, text⟩ := e
    subst kind
    obtain ⟨next, place, p, d, taken, same, here, named, decoded, indices⟩ :=
      BlockState.withText_of_readable names (readable _ List.mem_cons_self)
    have new : name ∉ done.map Prod.fst := by
      rw [List.map_append, List.map_cons, List.nodup_append] at keys
      exact fun member => keys.2.2 name member name List.mem_cons_self rfl
    have inside : place < s.indices.length := by
      rw [s.length_indices]
      exact (List.getElem?_eq_some_iff.mp here).1
    have one := filled.snoc names new here named decoded inside
    rw [← indices] at one
    obtain ⟨t, taken', kind', all⟩ := ih (done ++ [(name, text)]) next (by rw [same]) one
      (by rw [List.append_assoc]; exact keys) fun e member => readable e (List.mem_cons_of_mem _ member)
    refine ⟨t, ?_, kind'.trans same, by rw [List.append_assoc] at all; exact all⟩
    simp only [List.foldlM_cons, taken, Outcome.ok_bind]
    exact taken'

/-- Texts for all properties describe a state, in whatever order they are given. -/
theorem stateOfTexts_of_given {k : BlockKind} (names : (k.properties.map Property.name).Nodup)
    {texts : List (String × String)} (keys : (texts.map Prod.fst).Nodup)
    (readable : ∀ e ∈ texts, Readable k.properties e) {s : BlockState} (kind : s.kind = k)
    (given : Given k.properties texts s.indices) : k.stateOfTexts texts = .ok s := by
  obtain ⟨t, taken, same, filled⟩ := foldlM_withText names texts [] k.defaultState.indices
    k.defaultState rfl (Filled.nil _ _) keys readable
  have every : ∀ p ∈ k.properties, p.name ∈ texts.map Prod.fst := by
    intro p member
    obtain ⟨i, inside, rfl⟩ := List.mem_iff_getElem.mp member
    obtain ⟨text, _, pair, _⟩ := given.given i _ (List.getElem?_eq_getElem inside)
    exact List.mem_map_of_mem (f := Prod.fst) pair
  have other := filled.toGiven (k.defaultState.length_indices) every
  have indices := other.unique given fun p _ a b left right =>
    congrArg Text.fold (value_unique keys left right)
  rw [stateOfTexts, taken, BlockState.eq_of_indices (same.trans kind.symm) indices]

theorem stateOfTexts_error {k : BlockKind} {texts : List (String × String)} {e : BlockError}
    (h : k.stateOfTexts texts = .error e) : ∃ misuse, e = .invalidValue misuse := by
  unfold stateOfTexts at h
  generalize k.defaultState = s at h
  induction texts generalizing s with
  | nil => cases h
  | cons pair rest ih =>
    rw [List.foldlM_cons] at h
    rcases Outcome.bind_error h with refused | ⟨t, _, later⟩
    · exact BlockState.withText_error refused
    · exact ih t later

theorem kind_of_stateOfTexts {k : BlockKind} {texts : List (String × String)} {s : BlockState}
    (h : k.stateOfTexts texts = .ok s) : s.kind = k :=
  Outcome.foldlM_keeps (motive := fun t => t.kind = k)
    (fun _ _ _ _ same step => (BlockState.kind_of_withText step).trans same) rfl h

end BlockKind
end Voxel
