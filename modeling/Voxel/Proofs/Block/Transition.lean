import Voxel.Proofs.Block.Space
import Voxel.Property.Standard

/-!
# Transitions

The values of a state are set one at a time, each without the others. `Takes` says what setting one
does, and `Sets` lists the ways to ask for it. A state is known by its values (`eq_of_index`), so the
laws of setting (`set_set`, `set_comm`, `set_same`, `walk`) follow from what each step does to them.
`enumerate_independent` collects all this for the kinds that declarations are enumerated into.
-/

namespace Voxel

namespace BlockState

/-- A state that differs from another in the value of one property alone. The offset moves by as many
steps as the index, each of the weight of the property. -/
structure Takes (s : BlockState) (p : Property) (j : Nat) (t : BlockState) : Prop where
  kind : t.kind = s.kind
  index : t.index p.name = .ok j
  others : ∀ q ∈ s.kind.properties, q.name ≠ p.name → t.index q.name = s.index q.name
  offset : ∀ place i, s.kind.properties[place]? = some p → s.index p.name = .ok i →
    (t.offset : Int) = s.offset + (s.kind.sizes.drop (place + 1)).prod * ((j : Int) - i)

end BlockState

/-- The ways to set a property to the value at an index: by the index, by the text of the value, or by
the value, asked for through any property of the name and sort. -/
inductive Sets (p : Property) (j : Nat) : (BlockState → Except BlockError BlockState) → Prop
  | index : Sets p j (·.withIndex p.name j)
  | text {text : String} (encoded : p.encodeIndex? j = some text) : Sets p j (·.withText p.name text)
  | value {q : Property} {v : Value} (name : q.name = p.name) (sort : q.sort = p.sort)
      (here : p.valueAt? j = some v) : Sets p j (·.withValue q v)

namespace BlockState

/-! ### Values of a known property -/

theorem placeOf_eq {s : BlockState} {p : Property} {place : Fin s.kind.properties.length}
    (found : s.kind.place? p.name = some place) (sort : (s.kind.properties.get place).sort = p.sort) :
    s.placeOf p = .ok place := by
  rw [placeOf, BlockKind.place, found]
  exact if_pos sort

theorem withValue_of_indexOf {s : BlockState} {p : Property} {v : Value}
    {place : Fin s.kind.properties.length} {j : Nat} (found : s.kind.place? p.name = some place)
    (sort : (s.kind.properties.get place).sort = p.sort)
    (indexed : (s.kind.properties.get place).indexOf v = .ok j) :
    s.withValue p v = .ok (s.moved place j (Property.indexOf_lt indexed)) := by
  simp only [withValue, placeOf_eq found sort, Outcome.ok_bind]
  split
  · rename_i other same
    obtain rfl := Except.ok.inj (indexed.symm.trans same)
    rfl
  · rename_i failed
    rw [indexed] at failed
    cases failed

theorem value_of_valueAt? {s : BlockState} {p : Property} {v : Value}
    {place : Fin s.kind.properties.length} (found : s.kind.place? p.name = some place)
    (sort : (s.kind.properties.get place).sort = p.sort)
    (here : (s.kind.properties.get place).valueAt? (s.indexAt place) = some v) :
    s.value p = .ok v := by
  simp only [value, placeOf_eq found sort, Outcome.ok_bind, here]
  rfl

/-! ### States and their values -/

section

variable {k : BlockKind} (names : (k.properties.map Property.name).Nodup)
include names

theorem place_of_mem {p : Property} (member : p ∈ k.properties) :
    ∃ place, k.place? p.name = some place ∧ k.properties.get place = p := by
  obtain ⟨place, found⟩ := findFinIdx?_of_mem member
  exact ⟨place, found, find_eq_get names member found⟩

theorem index_ok_iff {s : BlockState} (kind : s.kind = k) {place i : Nat} {p : Property}
    (here : k.properties[place]? = some p) : s.index p.name = .ok i ↔ s.indices[place]? = some i := by
  subst kind
  obtain ⟨found, there, same⟩ := place_of_mem names (List.mem_of_getElem? here)
  have equal : place = found.val := by
    refine place_unique names here (List.getElem?_eq_getElem found.isLt) ?_
    exact congrArg Property.name same.symm
  rw [index_eq there, equal, getElem?_indices, Except.ok.injEq, Option.some.injEq]

theorem exists_index {s : BlockState} (kind : s.kind = k) {p : Property} (member : p ∈ k.properties) :
    ∃ i, s.index p.name = .ok i ∧ i < p.size := by
  subst kind
  obtain ⟨place, there, same⟩ := place_of_mem names member
  refine ⟨s.indexAt place, index_eq there, ?_⟩
  have inside : place.val < s.kind.sizes.length := by
    rw [BlockKind.sizes, List.length_map]
    exact place.isLt
  have size : s.kind.sizes[place.val] = p.size := by
    simp only [BlockKind.sizes, List.getElem_map]
    exact congrArg Property.size same
  have positive := s.sizes_pos _ (List.getElem_mem inside)
  rw [indexAt, Radix.digit, List.getD_eq_getElem _ _ inside, ← size]
  exact Nat.mod_lt _ positive

theorem eq_of_index {s t : BlockState} (left : s.kind = k) (right : t.kind = k)
    (same : ∀ p ∈ k.properties, s.index p.name = t.index p.name) : s = t := by
  refine eq_of_indices (left.trans right.symm) (List.ext_getElem? fun place => ?_)
  cases here : k.properties[place]? with
  | some p =>
    obtain ⟨i, value, _⟩ := exists_index names left (List.mem_of_getElem? here)
    have valueToo := (same p (List.mem_of_getElem? here)).symm.trans value
    rw [(index_ok_iff names left here).mp value, (index_ok_iff names right here).mp valueToo]
  | none =>
    have outside := List.getElem?_eq_none_iff.mp here
    rw [List.getElem?_eq_none (by rw [s.length_indices, left]; exact outside),
      List.getElem?_eq_none (by rw [t.length_indices, right]; exact outside)]

/-! ### One step -/

theorem moved_takes {s : BlockState} (kind : s.kind = k) {p : Property}
    {place : Fin s.kind.properties.length} (here : s.kind.properties.get place = p) {j : Nat}
    (less : j < (s.kind.properties.get place).size) : s.Takes p j (s.moved place j less) := by
  subst kind
  have at_ : s.kind.properties[place.val]? = some p := by
    rw [List.getElem?_eq_getElem place.isLt]
    exact congrArg some here
  have kind : (s.moved place j less).kind = s.kind := rfl
  have length : place.val < s.indices.length := by
    rw [s.length_indices]
    exact place.isLt
  refine ⟨rfl, ?_, fun q member other => ?_, fun position i there value => ?_⟩
  · apply (index_ok_iff names kind at_).mpr
    rw [indices_moved, List.getElem?_set_self length]
  · obtain ⟨i, value, _⟩ := exists_index names (s := s) rfl member
    obtain ⟨position, inside, there⟩ := List.mem_iff_getElem.mp member
    have thereToo : s.kind.properties[position]? = some q :=
      List.getElem?_eq_some_iff.mpr ⟨inside, there⟩
    have apart : place.val ≠ position := by
      intro same
      rw [same, thereToo] at at_
      exact other (congrArg Property.name (Option.some.inj at_))
    rw [value]
    apply (index_ok_iff names kind thereToo).mpr
    rw [indices_moved, List.getElem?_set_ne apart]
    exact (index_ok_iff names rfl thereToo).mp value
  · obtain rfl := place_unique names there at_ rfl
    rw [index_ok_iff names rfl there, getElem?_indices] at value
    obtain rfl := Option.some.inj value
    rw [offset_moved, Radix.cast_set, ← Radix.total_eq_prod]
    rfl

/-- Every way to set a value leads to the state that takes it. -/
theorem set_takes {p : Property} (member : p ∈ k.properties) {j : Nat} (less : j < p.size)
    {s : BlockState} (kind : s.kind = k) :
    ∃ t, s.Takes p j t ∧ ∀ set, Sets p j set → set s = .ok t := by
  subst kind
  obtain ⟨place, found, here⟩ := place_of_mem names member
  have inside : j < (s.kind.properties.get place).size := here ▸ less
  refine ⟨s.moved place j inside, moved_takes names rfl here inside, fun set sets => ?_⟩
  cases sets with
  | index => exact withIndex_eq found inside
  | text encoded =>
    have decoded := Property.decodeIndex_of_encodeIndex? encoded
    exact withText_of_decodes found (here ▸ decoded)
  | @value q v name sort stored =>
    have indexed : (s.kind.properties.get place).indexOf v = .ok j := by
      rw [here]
      exact Property.indexOf_eq_ok_iff.mpr (Domain.valueAt?_eq_some_iff.mp stored)
    exact withValue_of_indexOf (name ▸ found) (here ▸ sort.symm) indexed

/-! ### Laws of setting -/

omit names in
theorem Takes.index_eq {s t : BlockState} {p : Property} {j : Nat} (takes : s.Takes p j t) {q : Property}
    (member : q ∈ s.kind.properties) :
    t.index q.name = if q.name = p.name then .ok j else s.index q.name := by
  split
  · rename_i same
    rw [same]
    exact takes.index
  · rename_i other
    exact takes.others q member other

variable {s : BlockState} (kind : s.kind = k) {p q : Property} (inP : p ∈ k.properties)
  {f g : BlockState → Except BlockError BlockState}
include kind inP

theorem value_of_index {j : Nat} (index : s.index p.name = .ok j) (name : q.name = p.name)
    (sort : q.sort = p.sort) {v : Value} (stored : p.valueAt? j = some v) : s.value q = .ok v := by
  subst kind
  obtain ⟨place, found, here⟩ := place_of_mem names inP
  have same := Except.ok.inj ((index_eq found).symm.trans index)
  rw [← name] at found
  refine value_of_valueAt? found (here ▸ sort.symm) ?_
  rw [here, same]
  exact stored

theorem set_set {i j : Nat} (lessI : i < p.size) (lessJ : j < p.size) (first : Sets p i f)
    (second : Sets p j g) : (f s >>= g) = g s := by
  obtain ⟨t, takesT, setT⟩ := set_takes names inP lessI kind
  obtain ⟨u, takesU, setU⟩ := set_takes names inP lessJ (takesT.kind.trans kind)
  obtain ⟨w, takesW, setW⟩ := set_takes names inP lessJ kind
  rw [setT f first, Outcome.ok_bind, setU g second, setW g second]
  have kindT := takesT.kind.trans kind
  refine congrArg _ (eq_of_index names (takesU.kind.trans kindT) (takesW.kind.trans kind) ?_)
  intro r member
  rw [takesU.index_eq (kindT ▸ member), takesW.index_eq (kind ▸ member),
    takesT.index_eq (kind ▸ member)]
  split
  · rfl
  · rfl

theorem set_comm (inQ : q ∈ k.properties) (apart : p.name ≠ q.name) {i j : Nat} (lessI : i < p.size)
    (lessJ : j < q.size) (first : Sets p i f) (second : Sets q j g) :
    ∃ t, (f s >>= g) = .ok t ∧ (g s >>= f) = .ok t := by
  obtain ⟨t, takesT, setT⟩ := set_takes names inP lessI kind
  obtain ⟨u, takesU, setU⟩ := set_takes names inQ lessJ (takesT.kind.trans kind)
  obtain ⟨v, takesV, setV⟩ := set_takes names inQ lessJ kind
  obtain ⟨w, takesW, setW⟩ := set_takes names inP lessI (takesV.kind.trans kind)
  have kindT := takesT.kind.trans kind
  have kindV := takesV.kind.trans kind
  have same : u = w := by
    refine eq_of_index names (takesU.kind.trans kindT) (takesW.kind.trans kindV) fun r member => ?_
    rw [takesU.index_eq (kindT ▸ member), takesW.index_eq (kindV ▸ member),
      takesT.index_eq (kind ▸ member), takesV.index_eq (kind ▸ member)]
    by_cases atP : r.name = p.name
    · rw [if_pos atP, if_pos atP, if_neg (atP ▸ apart)]
    · rw [if_neg atP, if_neg atP]
  refine ⟨u, ?_, ?_⟩
  · rw [setT f first, Outcome.ok_bind, setU g second]
  · rw [setV g second, Outcome.ok_bind, setW f first, same]

theorem set_same {i : Nat} (index : s.index p.name = .ok i) (sets : Sets p i f) : f s = .ok s := by
  obtain ⟨j, value, less⟩ := exists_index names kind inP
  obtain rfl := Except.ok.inj (index.symm.trans value)
  obtain ⟨t, takes, set⟩ := set_takes names inP less kind
  rw [set f sets]
  refine congrArg _ (eq_of_index names (takes.kind.trans kind) kind fun r member => ?_)
  rw [takes.index_eq (kind ▸ member)]
  split
  · rename_i same
    rw [same, index]
  · rfl

end

theorem walk_some {k : BlockKind} (names : (k.properties.map Property.name).Nodup) {a b : BlockState}
    (left : a.kind = k) (right : b.kind = k) {set : Property → BlockState → Except BlockError BlockState}
    (order : List Property) (inside : ∀ p ∈ order, p ∈ k.properties)
    (sets : ∀ p ∈ order, ∃ j, b.index p.name = .ok j ∧ Sets p j (set p)) :
    ∃ t, order.foldlM (fun s p => set p s) a = .ok t ∧ t.kind = k ∧ ∀ q ∈ k.properties,
      t.index q.name = if q ∈ order then b.index q.name else a.index q.name := by
  -- on the order: once a property is as in the other state, the rest of the order leaves it so
  induction order generalizing a with
  | nil => exact ⟨a, rfl, left, fun q _ => (if_neg List.not_mem_nil).symm⟩
  | cons p rest ih =>
    have inP := inside p List.mem_cons_self
    obtain ⟨j, value, ways⟩ := sets p List.mem_cons_self
    obtain ⟨i, valueToo, less⟩ := exists_index names right inP
    obtain rfl := Except.ok.inj (value.symm.trans valueToo)
    obtain ⟨next, takes, set⟩ := set_takes names inP less left
    obtain ⟨t, walked, kind, indices⟩ := ih (takes.kind.trans left)
      (fun q member => inside q (List.mem_cons_of_mem _ member))
      fun q member => sets q (List.mem_cons_of_mem _ member)
    refine ⟨t, ?_, kind, fun q member => ?_⟩
    · rw [List.foldlM_cons, set _ ways]
      exact walked
    · rw [indices q member, takes.index_eq (left ▸ member)]
      have same : q.name = p.name ↔ q = p :=
        ⟨fun h => List.inj_on_of_nodup_map names member inP h, congrArg Property.name⟩
      by_cases later : q ∈ rest
      · rw [if_pos later, if_pos (List.mem_cons_of_mem _ later)]
      · by_cases here : q = p
        · rw [if_neg later, if_pos (same.mpr here), here, if_pos List.mem_cons_self, value]
        · rw [if_neg later, if_neg (fun h => here (same.mp h)), if_neg]
          rw [List.mem_cons, not_or]
          exact ⟨here, later⟩

/-- Setting every property to what it is in another state leads there. -/
theorem walk {k : BlockKind} (names : (k.properties.map Property.name).Nodup) {a b : BlockState}
    (left : a.kind = k) (right : b.kind = k) {set : Property → BlockState → Except BlockError BlockState}
    {order : List Property} (all : order.Perm k.properties)
    (sets : ∀ p ∈ order, ∃ j, b.index p.name = .ok j ∧ Sets p j (set p)) :
    order.foldlM (fun s p => set p s) a = .ok b := by
  obtain ⟨t, walked, kind, indices⟩ :=
    walk_some names left right order (fun p member => all.mem_iff.mp member) sets
  rw [walked]
  refine congrArg _ (eq_of_index names kind right fun q member => ?_)
  rw [indices q member, if_pos (all.mem_iff.mpr member)]

/-! ### What is refused -/

theorem place_unnamed {k : BlockKind} {name : String} (absent : name ∉ k.properties.map Property.name) :
    k.place name = .error (.invalidValue (.property (.noSuchProperty k.name name))) := by
  have missing : k.place? name = none := by
    unfold BlockKind.place?
    rw [List.findFinIdx?_eq_none_iff]
    intro p member same
    apply absent
    rw [← of_decide_eq_true same]
    exact List.mem_map_of_mem member
  rw [BlockKind.place, missing]

theorem placeOf_error {s : BlockState} {p : Property} {e : BlockError} (h : s.placeOf p = .error e) :
    ∃ misuse, e = .invalidValue misuse := by
  rcases Outcome.bind_error h with absent | ⟨place, _, refused⟩
  · exact place_error absent
  · split at refused
    · cases refused
    · cases refused
      exact ⟨_, rfl⟩

theorem withValue_error {s : BlockState} {p : Property} {v : Value} {e : BlockError}
    (h : s.withValue p v = .error e) : ∃ misuse, e = .invalidValue misuse := by
  rcases Outcome.bind_error h with refused | ⟨place, _, refused⟩
  · exact placeOf_error refused
  · split at refused
    · cases refused
    · rename_i unknown
      cases refused
      exact Property.indexOf_error unknown

theorem withValue_ok {s t : BlockState} {p : Property} {v : Value} (h : s.withValue p v = .ok t) :
    ∃ q ∈ s.kind.properties, q.name = p.name ∧ ∃ j, q.indexOf v = .ok j := by
  obtain ⟨place, placed, h⟩ := Outcome.bind_ok h
  obtain ⟨found, there, sorted⟩ := Outcome.bind_ok placed
  split at sorted
  · cases sorted
    split at h
    · rename_i j indexed
      unfold BlockKind.place at there
      split at there
      · rename_i here
        cases there
        exact ⟨_, List.get_mem _ _, name_of_findFinIdx? here, j, indexed⟩
      · cases there
    · cases h
  · cases sorted

theorem withIndex_outside {s : BlockState} {p : Property} {place : Fin s.kind.properties.length}
    (found : s.kind.place? p.name = some place) (here : s.kind.properties.get place = p) {j : Nat}
    (outside : p.size ≤ j) :
    s.withIndex p.name j = .error (.invalidValue (.property (.indexOutOfBounds p.name j p.size))) := by
  rw [withIndex, BlockKind.place, found]
  simp only [Outcome.ok_bind, here]
  exact dif_neg (Nat.not_lt.mpr outside)

theorem withText_unreadable {s : BlockState} (names : (s.kind.properties.map Property.name).Nodup)
    {p : Property} (member : p ∈ s.kind.properties) {text : String}
    (unreadable : ¬ ∃ v, p.domain.Reads text v) :
    ∃ misuse, s.withText p.name text = .error (.invalidValue misuse) := by
  cases taken : s.withText p.name text with
  | error e =>
    obtain ⟨misuse, rfl⟩ := withText_error taken
    exact ⟨misuse, rfl⟩
  | ok t =>
    obtain ⟨place, q, d, _, there, named, decoded, _⟩ := withText_ok taken
    obtain rfl := List.inj_on_of_nodup_map names (List.mem_of_getElem? there) member named
    exact absurd (Property.decodeIndex_isOk_iff.mp ⟨d, decoded⟩) unreadable

theorem withValue_foreign {s : BlockState} (names : (s.kind.properties.map Property.name).Nodup)
    {p q : Property} (member : p ∈ s.kind.properties) (name : q.name = p.name) {v : Value}
    (foreign : ∀ j, p.valueAt? j ≠ some v) :
    ∃ misuse, s.withValue q v = .error (.invalidValue misuse) := by
  cases taken : s.withValue q v with
  | error e =>
    obtain ⟨misuse, rfl⟩ := withValue_error taken
    exact ⟨misuse, rfl⟩
  | ok t =>
    obtain ⟨r, inside, named, j, indexed⟩ := withValue_ok taken
    obtain rfl := List.inj_on_of_nodup_map names inside member (named.trans name)
    exact absurd (Domain.valueAt?_eq_some_iff.mpr (Property.indexOf_eq_ok_iff.mp indexed)) (foreign j)

end BlockState

/-! ### Kinds with independent properties -/

open BlockKind BlockState

/-- The properties of a kind are set one without the other, and to nothing but their values. -/
structure BlockKind.Independent (k : BlockKind) : Prop where
  sets : ∀ s ∈ k.states, ∀ p ∈ k.properties, ∀ j < p.size, ∃ t, s.Takes p j t ∧
    (∀ set, Sets p j set → set s = .ok t) ∧ (∃ text, p.encodeIndex? j = some text) ∧
    ∃ v, p.valueAt? j = some v ∧ ∀ q : Property, q.name = p.name → q.sort = p.sort →
      t.value q = .ok v
  outside : ∀ s ∈ k.states, ∀ p ∈ k.properties, ∀ j, p.size ≤ j →
    ∃ misuse, s.withIndex p.name j = .error (.invalidValue misuse)
  unnamed : ∀ s ∈ k.states, ∀ name, name ∉ k.properties.map Property.name → ∃ misuse,
    (∀ j, s.withIndex name j = .error (.invalidValue misuse)) ∧
    (∀ text, s.withText name text = .error (.invalidValue misuse)) ∧
    ∀ q : Property, q.name = name → s.value q = .error (.invalidValue misuse) ∧
      ∀ v, s.withValue q v = .error (.invalidValue misuse)
  unreadable : ∀ s ∈ k.states, ∀ p ∈ k.properties, ∀ text, (¬ ∃ v, p.domain.Reads text v) →
    ∃ misuse, s.withText p.name text = .error (.invalidValue misuse)
  foreign : ∀ s ∈ k.states, ∀ p ∈ k.properties, ∀ v, (∀ j, p.valueAt? j ≠ some v) →
    ∀ q : Property, q.name = p.name → ∃ misuse, s.withValue q v = .error (.invalidValue misuse)
  last : ∀ s ∈ k.states, ∀ p ∈ k.properties, ∀ i < p.size, ∀ j < p.size, ∀ f g,
    Sets p i f → Sets p j g → (f s >>= g) = g s
  commute : ∀ s ∈ k.states, ∀ p ∈ k.properties, ∀ q ∈ k.properties, p ≠ q →
    ∀ i < p.size, ∀ j < q.size, ∀ f g, Sets p i f → Sets q j g →
      ∃ t, (f s >>= g) = .ok t ∧ (g s >>= f) = .ok t
  same : ∀ s ∈ k.states, ∀ p ∈ k.properties, ∀ i f, s.index p.name = .ok i → Sets p i f →
    f s = .ok s
  walk : ∀ a ∈ k.states, ∀ b ∈ k.states, ∀ (order : List Property)
    (set : Property → BlockState → Except BlockError BlockState), order.Perm k.properties →
    (∀ p ∈ order, ∃ j, b.index p.name = .ok j ∧ Sets p j (set p)) →
    order.foldlM (fun s p => set p s) a = .ok b

theorem BlockKind.independent {k : BlockKind} (names : (k.properties.map Property.name).Nodup) :
    k.Independent where
  sets s state p member j less := by
    have kind := mem_states.mp state
    obtain ⟨t, takes, set⟩ := set_takes names member less kind
    obtain ⟨v, stored⟩ := Domain.exists_valueAt? less
    refine ⟨t, takes, set, ⟨v.text, congrArg (Option.map Value.text) stored⟩, v, stored,
      fun q name sort => ?_⟩
    exact value_of_index names (takes.kind.trans kind) member takes.index name sort stored
  outside s state p member j outside := by
    obtain rfl := mem_states.mp state
    obtain ⟨place, found, here⟩ := place_of_mem names member
    exact ⟨_, withIndex_outside found here outside⟩
  unnamed s state name absent := by
    obtain rfl := mem_states.mp state
    have place := place_unnamed absent
    refine ⟨.property (.noSuchProperty s.kind.name name), fun j => ?_, fun text => ?_,
      fun q named => ⟨?_, fun v => ?_⟩⟩
    · rw [withIndex, place]
      rfl
    · rw [withText, place]
      rfl
    · rw [BlockState.value, placeOf, named, place]
      rfl
    · rw [withValue, placeOf, named, place]
      rfl
  unreadable s state p member text := by
    obtain rfl := mem_states.mp state
    exact withText_unreadable names member
  foreign s state p member v foreign q name := by
    obtain rfl := mem_states.mp state
    exact withValue_foreign names member name foreign
  last s state p member i lessI j lessJ f g :=
    set_set names (mem_states.mp state) member lessI lessJ
  commute s state p inP q inQ apart i lessI j lessJ f g := by
    refine set_comm names (mem_states.mp state) inP inQ (fun same => apart ?_) lessI lessJ
    exact List.inj_on_of_nodup_map names inP inQ same
  same s state p member i f := set_same names (mem_states.mp state) member
  walk a left b right order set :=
    BlockState.walk names (mem_states.mp left) (mem_states.mp right)

namespace Declaration

/-- The properties of every kind that a declaration is enumerated into are set independently. -/
theorem enumerate_independent {σ : Type} {d : Declaration} {registry : RegistryId} {assign : Rule σ}
    {start last : σ} {k : BlockKind} (built : d.enumerate registry assign start = .ok (k, last)) :
    k.Independent := by
  apply BlockKind.independent
  obtain ⟨_, _, refused⟩ | ⟨_, _, stopped⟩ | ⟨valid, _, _, _, made, _, enumerated⟩ :=
    d.enumerate_cases registry assign start
  · cases built.symm.trans refused
  · cases built.symm.trans stopped
  · cases built.symm.trans made
    rw [enumerated.properties]
    exact valid.sound.names

def logs : Declaration :=
  ⟨.standard "log", [Standard.axis, .bool "stripped" false], none, none⟩

def numbered : Rule Nat := fun offset _ calls => .ok ((UInt32.ofNat offset, none), calls + 1)

theorem logs_independent : ∃ k last, logs.enumerate 0 numbered 0 = .ok (k, last) ∧
    k.Independent := by
  obtain ⟨k, last, built⟩ : ∃ k last, logs.enumerate 0 numbered 0 = .ok (k, last) := ⟨_, _, rfl⟩
  exact ⟨k, last, built, enumerate_independent built⟩

end Declaration
end Voxel
