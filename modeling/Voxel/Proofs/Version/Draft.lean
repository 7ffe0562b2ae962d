import Voxel.Proofs.Block.State
import Voxel.Version.Kinds

/-!
# Drafts of block kinds

`offsetOf_cases` says where the values of a state lead. `Draft.Holds` ties a draft to the states it
was made from; `add_cases` is one step of the drafting, and `foldlM_add_cases` a whole run of it.
-/

namespace Voxel.Version

variable {kind : Name} {ps : List Property} {lowest : StateId}

/-! ### Offsets -/

/-- A text for every property, each of them readable. -/
structure Readables (ps : List Property) (s : StateDescription) : Prop where
  size : s.values.size = ps.length
  readable : ∀ e ∈ s.values.entries, Readable ps e

def offsetStep (kind : Name) (ps : List Property) (id : StateId) (offset : Nat)
    (e : String × String) : Except BlockError Nat :=
  match ps.findFinIdx? (·.name = e.1) with
  | none => refuse (.unknownProperty kind id e.1)
  | some place =>
    match (ps.get place).decodeIndex e.2 with
    | .ok index => return offset + Radix.weight (ps.map Property.size) place * index
    | .error error => refuse (.undecodable kind id error.message)

theorem offsetOf_eq (s : StateDescription) :
    offsetOf kind ps s = s.values.entries.foldlM (offsetStep kind ps s.id) 0 := rfl

theorem offsetStep_cases (names : (ps.map Property.name).Nodup) (id : StateId) (offset : Nat)
    (e : String × String) :
    (∃ (place : Nat) (p : Property) (d : Nat), ps[place]? = some p ∧ p.name = e.1 ∧
      p.decodeIndex e.2 = .ok d ∧ offsetStep kind ps id offset e =
        .ok (offset + Radix.weight (ps.map Property.size) place * d)) ∨
    (¬ Readable ps e ∧
      ∃ defect, offsetStep kind ps id offset e = .error (.construction defect)) := by
  unfold offsetStep
  cases found : ps.findFinIdx? (·.name = e.1) with
  | none =>
    refine Or.inr ⟨?_, _, rfl⟩
    rintro ⟨p, member, named, _⟩
    obtain ⟨place, there⟩ := findFinIdx?_of_mem member
    rw [named, found] at there
    cases there
  | some place =>
    cases decoded : (ps.get place).decodeIndex e.2 with
    | ok d =>
      exact Or.inl ⟨place, ps.get place, d, List.getElem?_eq_getElem place.isLt,
        name_of_findFinIdx? found, decoded, by simp only [decoded]; rfl⟩
    | error error =>
      refine Or.inr ⟨?_, .version (.undecodable kind id error.message),
        by simp only [decoded]; rfl⟩
      rintro ⟨p, member, named, d, readable⟩
      rw [find_eq_get names member (named ▸ found), readable] at decoded
      cases decoded

theorem foldlM_offsetStep (names : (ps.map Property.name).Nodup) (id : StateId)
    (texts done : List (String × String)) (ds : List Nat)
    (filled : Filled ps done (List.replicate ps.length 0) ds)
    (keys : ((done ++ texts).map Prod.fst).Nodup) :
    (∃ es, Filled ps (done ++ texts) (List.replicate ps.length 0) es ∧
      (∀ e ∈ texts, Readable ps e) ∧
      texts.foldlM (offsetStep kind ps id) (Radix.number (ps.map Property.size) ds) =
        .ok (Radix.number (ps.map Property.size) es)) ∨
    (¬ (∀ e ∈ texts, Readable ps e) ∧ ∃ defect,
      texts.foldlM (offsetStep kind ps id) (Radix.number (ps.map Property.size) ds) =
        .error (.construction defect)) := by
  induction texts generalizing done ds with
  | nil =>
    exact Or.inl ⟨ds, by rw [List.append_nil]; exact filled, fun _ member =>
      absurd member List.not_mem_nil, rfl⟩
  | cons e rest ih =>
    rw [List.foldlM_cons]
    rcases @offsetStep_cases kind ps names id (Radix.number (ps.map Property.size) ds) e with
      ⟨place, p, d, here, named, decoded, step⟩ | ⟨unreadable, defect, step⟩
    · have new : e.1 ∉ done.map Prod.fst := by
        rw [List.map_append, List.map_cons, List.nodup_append] at keys
        exact fun member => keys.2.2 e.1 member e.1 List.mem_cons_self rfl
      have inside : place < ps.length := (List.getElem?_eq_some_iff.mp here).1
      have length : ds.length = ps.length := by rw [filled.length, List.length_replicate]
      have zero : ds[place]? = some 0 := by
        rw [filled.others place p here (named ▸ new), List.getElem?_replicate, if_pos inside]
      have more := filled.snoc names new here named decoded (length ▸ inside)
      rw [step, Outcome.ok_bind, ← Radix.number_set (by rw [length, List.length_map]) d zero]
      rcases ih (done ++ [e]) (ds.set place d) more (by rw [List.append_assoc]; exact keys) with
        ⟨es, all, readable, run⟩ | ⟨unreadable, defect, run⟩
      · refine Or.inl ⟨es, by rw [List.append_assoc] at all; exact all, ?_, run⟩
        refine List.forall_mem_cons.mpr ⟨?_, readable⟩
        exact ⟨p, List.mem_of_getElem? here, named, d, decoded⟩
      · refine Or.inr ⟨fun all => unreadable ?_, defect, run⟩
        exact fun e member => all e (List.mem_cons_of_mem _ member)
    · rw [step]
      exact Or.inr ⟨fun all => unreadable (all e List.mem_cons_self), defect, rfl⟩

theorem Readables.every {s : StateDescription} (readables : Readables ps s) :
    ∀ p ∈ ps, p.name ∈ s.values.entries.map Prod.fst := by
  have included : s.values.entries.map Prod.fst ⊆ ps.map Property.name := by
    intro name member
    obtain ⟨e, inside, rfl⟩ := List.mem_map.mp member
    obtain ⟨p, member, named, _⟩ := readables.readable e inside
    exact named ▸ List.mem_map_of_mem member
  have perm := (s.values.nodup.subperm included).perm_of_length_le (by
    rw [List.length_map, List.length_map]
    exact Nat.le_of_eq readables.size.symm)
  intro p member
  exact perm.mem_iff.mpr (List.mem_map_of_mem member)

theorem offsetOf_cases (names : (ps.map Property.name).Nodup) {s : StateDescription}
    (size : s.values.size = ps.length) :
    (Readables ps s ∧ ∃ ds, Given ps s.values.entries ds ∧
      offsetOf kind ps s = .ok (Radix.number (ps.map Property.size) ds)) ∨
    (¬ Readables ps s ∧ ∃ defect, offsetOf kind ps s = .error (.construction defect)) := by
  have start := Radix.number_replicate_zero (ps.map Property.size)
  rw [List.length_map] at start
  rcases @foldlM_offsetStep kind ps names s.id s.values.entries [] _ (Filled.nil _ _)
    s.values.nodup with ⟨ds, filled, readable, run⟩ | ⟨unreadable, defect, run⟩
  · rw [start, ← offsetOf_eq] at run
    have readables : Readables ps s := ⟨size, readable⟩
    exact Or.inl ⟨readables, ds, filled.toGiven List.length_replicate readables.every, run⟩
  · rw [start, ← offsetOf_eq] at run
    exact Or.inr ⟨fun all => unreadable all.readable, defect, run⟩

/-! ### Data -/

/-- The data of a state: what is given, or else its distance from the lowest number if that fits. -/
def effective (lowest : StateId) (s : StateDescription) : Option UInt8 :=
  match s.data with
  | some m => some m
  | none =>
    if s.id.toNat - lowest.toNat < 16 then some (UInt8.ofNat (s.id.toNat - lowest.toNat)) else none

theorem dataOf_cases (kind : Name) (lowest : StateId) (s : StateDescription) :
    ((∀ m, s.data = some m → m < 16) ∧ dataOf kind lowest s = .ok (effective lowest s)) ∨
    (¬ (∀ m, s.data = some m → m < 16) ∧
      ∃ defect, dataOf kind lowest s = .error (.construction defect)) := by
  unfold dataOf effective
  cases s.data with
  | none => exact Or.inl ⟨fun _ absent => (nomatch absent), rfl⟩
  | some m =>
    by_cases small : m < 16
    · exact Or.inl ⟨fun n same => Option.some.inj same ▸ small, if_pos small⟩
    · exact Or.inr ⟨fun all => small (all m rfl), _, if_neg small⟩

/-! ### One state after the other -/

structure Placed where
  state : StateDescription
  offset : Nat

/-- A state that can be placed: its number and data are in range, and its values are readable. -/
structure Fits (ps : List Property) (s : StateDescription) : Prop where
  id_lt : s.id < runtimeIdLimit
  readables : Readables ps s
  data_lt : ∀ m, s.data = some m → m < 16

structure Places (ps : List Property) (s : StateDescription) (q : Placed) : Prop where
  state : q.state = s
  fits : Fits ps s
  offset : ∃ ds, Given ps s.values.entries ds ∧ q.offset = Radix.number (ps.map Property.size) ds

structure Apart (lowest : StateId) (p q : Placed) : Prop where
  offset : p.offset ≠ q.offset
  id : p.state.id ≠ q.state.id
  data : ∀ m, effective lowest p.state = some m → effective lowest q.state ≠ some m
  default : ¬ (p.state.isDefault = true ∧ q.state.isDefault = true)

/-- A draft holds the states that were placed. -/
structure Draft.Holds (lowest : StateId) (count : Nat) (done : List Placed) (x : Draft) : Prop where
  size : x.slots.size = count
  slots : ∀ offset found, x.slots[offset]? = some (some found) ↔
    ∃ q ∈ done, q.offset = offset ∧ found = (q.state.id, effective lowest q.state)
  ids : ∀ id, x.ids.contains id = true ↔ ∃ q ∈ done, q.state.id = id
  data : ∀ m, x.data.contains m = true ↔ ∃ q ∈ done, effective lowest q.state = some m
  default : ∀ offset, x.default = some offset ↔
    ∃ q ∈ done, q.state.isDefault = true ∧ q.offset = offset

theorem Places.offset_lt {s : StateDescription} {q : Placed} (places : Places ps s q) :
    q.offset < Radix.total (ps.map Property.size) := by
  obtain ⟨ds, given, same⟩ := places.offset
  exact same ▸ Radix.number_lt given.within

theorem Places.unique {s : StateDescription} {p q : Placed} (left : Places ps s p)
    (right : Places ps s q) : p = q := by
  obtain ⟨ds, given, offset⟩ := left.offset
  obtain ⟨es, given', offset'⟩ := right.offset
  have same := given.unique given' fun _ _ _ _ a b => congrArg Text.fold
    (value_unique s.values.nodup a b)
  obtain ⟨state, n⟩ := p
  obtain ⟨state', m⟩ := q
  obtain rfl : state = s := left.state
  obtain rfl : state' = state := right.state
  rw [show n = m from offset.trans (same ▸ offset'.symm)]

theorem holds_start (lowest : StateId) (count : Nat) :
    Draft.Holds lowest count [] ⟨Array.replicate count none, ∅, ∅, none⟩ where
  size := Array.size_replicate
  slots offset found := by
    rw [Array.getElem?_replicate]
    split <;> simp
  ids id := by simp
  data m := by simp
  default offset := by simp

theorem Draft.Holds.snoc {count : Nat} {done : List Placed} {x : Draft}
    (holds : x.Holds lowest count done) {q : Placed} (inside : q.offset < x.slots.size)
    (apart : ∀ p ∈ done, Apart lowest p q) :
    ∃ y, x.put q.state q.offset (effective lowest q.state) = .ok y ∧
      y.Holds lowest count (done ++ [q]) := by
  refine ⟨_, by simp only [Draft.put, setItem, dif_pos inside]; rfl, ?_, ?_, fun id => ?_,
    fun m => ?_, ?_⟩
  · rw [Array.size_set, holds.size]
  · intro offset found
    rw [Array.getElem?_set]
    simp only [List.mem_append, List.mem_singleton, or_and_right, exists_or, exists_eq_left]
    by_cases here : q.offset = offset
    · rw [if_pos here]
      constructor
      · intro same
        exact Or.inr ⟨here, (Option.some.inj (Option.some.inj same)).symm⟩
      · rintro (⟨p, member, there, _⟩ | ⟨_, rfl⟩)
        · exact absurd (there.trans here.symm) (apart p member).offset
        · rfl
    · rw [if_neg here, holds.slots]
      exact ⟨Or.inl, fun either => either.resolve_right fun last => here last.1⟩
  · rw [Std.HashSet.contains_insert, Bool.or_eq_true, beq_iff_eq, holds.ids]
    simp only [List.mem_append, List.mem_singleton, or_and_right, exists_or, exists_eq_left]
    exact or_comm
  · simp only [List.mem_append, List.mem_singleton, or_and_right, exists_or, exists_eq_left]
    cases effective lowest q.state with
    | none =>
      rw [holds.data]
      exact ⟨Or.inl, fun either => either.resolve_right (by simp)⟩
    | some n =>
      simp only [Std.HashSet.contains_insert, Bool.or_eq_true, beq_iff_eq, holds.data,
        Option.some.injEq]
      exact or_comm
  · intro offset
    simp only [List.mem_append, List.mem_singleton, or_and_right, exists_or, exists_eq_left]
    by_cases marked : q.state.isDefault = true
    · rw [if_pos marked]
      constructor
      · intro same
        exact Or.inr ⟨marked, Option.some.inj same⟩
      · rintro (⟨p, member, other, _⟩ | ⟨_, rfl⟩)
        · exact absurd ⟨other, marked⟩ (apart p member).default
        · rfl
    · rw [if_neg marked, holds.default]
      exact ⟨Or.inl, fun either => either.resolve_right fun last => marked last.1⟩

theorem checkData_cases (kind : Name) {count : Nat} {done : List Placed} {x : Draft}
    (holds : x.Holds lowest count done) (data : Option UInt8) :
    ((∀ p ∈ done, ∀ m, effective lowest p.state = some m → data ≠ some m) ∧
      x.checkData kind data = .ok ()) ∨
    ((∃ p ∈ done, ∃ m, effective lowest p.state = some m ∧ data = some m) ∧
      ∃ defect, x.checkData kind data = .error (.construction defect)) := by
  unfold Draft.checkData
  cases data with
  | none => exact Or.inl ⟨fun _ _ _ _ absent => (nomatch absent), rfl⟩
  | some m =>
    by_cases taken : x.data.contains m = true
    · obtain ⟨p, member, same⟩ := (holds.data m).mp taken
      exact Or.inr ⟨⟨p, member, m, same, rfl⟩, _, if_pos taken⟩
    · refine Or.inl ⟨fun p member n same equal => taken ?_, if_neg taken⟩
      exact (holds.data m).mpr ⟨p, member, same.trans equal.symm⟩

theorem Draft.Holds.isSome {count : Nat} {done : List Placed} {x : Draft}
    (holds : x.Holds lowest count done) {offset : Nat} {slot : Option (StateId × Option UInt8)}
    (here : x.slots[offset]? = some slot) :
    slot.isSome = true ↔ ∃ p ∈ done, p.offset = offset := by
  rw [Option.isSome_iff_exists]
  constructor
  · rintro ⟨found, rfl⟩
    obtain ⟨p, member, same, _⟩ := (holds.slots offset found).mp here
    exact ⟨p, member, same⟩
  · rintro ⟨p, member, same⟩
    have taken := (holds.slots offset _).mpr ⟨p, member, same, rfl⟩
    exact ⟨_, Option.some.inj (here.symm.trans taken)⟩

theorem Draft.Holds.isDefault {count : Nat} {done : List Placed} {x : Draft}
    (holds : x.Holds lowest count done) :
    x.default.isSome = true ↔ ∃ p ∈ done, p.state.isDefault = true := by
  rw [Option.isSome_iff_exists]
  constructor
  · rintro ⟨offset, same⟩
    obtain ⟨p, member, marked, _⟩ := (holds.default offset).mp same
    exact ⟨p, member, marked⟩
  · rintro ⟨p, member, marked⟩
    exact ⟨p.offset, (holds.default _).mpr ⟨p, member, marked, rfl⟩⟩

theorem add_cases (names : (ps.map Property.name).Nodup) {done : List Placed} {x : Draft}
    (holds : x.Holds lowest (Radix.total (ps.map Property.size)) done) (s : StateDescription) :
    (∃ q y, Places ps s q ∧ (∀ p ∈ done, Apart lowest p q) ∧
      Draft.add kind ps lowest x s = .ok y ∧
      y.Holds lowest (Radix.total (ps.map Property.size)) (done ++ [q])) ∨
    ((∀ q, Places ps s q → ¬ ∀ p ∈ done, Apart lowest p q) ∧
      ∃ defect, Draft.add kind ps lowest x s = .error (.error (.construction defect))) := by
  unfold Draft.add
  by_cases high : runtimeIdLimit ≤ s.id
  · refine Or.inr ⟨fun q places => absurd high (UInt32.not_le.mpr places.fits.id_lt),
      .version (.runtimeIdOutOfRange kind s.id), ?_⟩
    rw [if_pos high]
    rfl
  rw [if_neg high]
  by_cases size : s.values.size ≠ ps.length
  · refine Or.inr ⟨fun q places => absurd places.fits.readables.size size,
      .version (.valueCount kind s.id), ?_⟩
    dsimp only
    rw [if_pos size]
    rfl
  dsimp only
  rw [if_neg size]
  rcases @offsetOf_cases kind ps names s (not_not.mp size) with
    ⟨readables, ds, given, offset⟩ | ⟨unreadable, defect, refused⟩
  swap
  · refine Or.inr ⟨fun q places => absurd places.fits.readables unreadable, defect, ?_⟩
    rw [refused]
    rfl
  rw [offset, Failure.lift_ok, Outcome.ok_bind]
  have inside : Radix.number (ps.map Property.size) ds < x.slots.size :=
    holds.size ▸ Radix.number_lt given.within
  generalize place : Radix.number (ps.map Property.size) ds = n at inside ⊢
  have placed : ∀ q, Places ps s q → q = ⟨s, n⟩ := by
    rintro q places
    exact places.unique ⟨rfl, places.fits, ds, given, place.symm⟩
  rw [Array.getElem?_eq_getElem inside]
  dsimp only
  have slot := holds.isSome (Array.getElem?_eq_getElem inside)
  by_cases taken : x.slots[n].isSome = true
  · refine Or.inr ⟨fun q places apart => ?_, .version (.repeatedValues kind s.id), ?_⟩
    · obtain ⟨p, member, same⟩ := slot.mp taken
      exact (apart p member).offset (placed q places ▸ same)
    · rw [if_pos taken]
      rfl
  rw [if_neg taken]
  by_cases known : x.ids.contains s.id = true
  · refine Or.inr ⟨fun q places apart => ?_, .version (.repeatedRuntimeId kind s.id), ?_⟩
    · obtain ⟨p, member, same⟩ := (holds.ids s.id).mp known
      exact (apart p member).id (placed q places ▸ same)
    · rw [if_pos known]
      rfl
  rw [if_neg known]
  rcases dataOf_cases kind lowest s with ⟨small, data⟩ | ⟨large, defect, refused⟩
  swap
  · refine Or.inr ⟨fun q places => absurd places.fits.data_lt large, defect, ?_⟩
    rw [refused]
    rfl
  rw [data, Failure.lift_ok, Outcome.ok_bind]
  rcases checkData_cases kind holds (effective lowest s) with
    ⟨new, checked⟩ | ⟨⟨p, member, m, same, equal⟩, defect, refused⟩
  swap
  · refine Or.inr ⟨fun q places apart => ?_, defect, by rw [refused]; rfl⟩
    exact (apart p member).data m same (placed q places ▸ equal)
  rw [checked, Failure.lift_ok, Outcome.ok_bind]
  by_cases both : (s.isDefault && x.default.isSome) = true
  · refine Or.inr ⟨fun q places apart => ?_, .version (.severalDefaults kind), ?_⟩
    · rw [Bool.and_eq_true] at both
      obtain ⟨p, member, marked⟩ := holds.isDefault.mp both.2
      exact (apart p member).default ⟨marked, placed q places ▸ both.1⟩
    · rw [if_pos both]
      rfl
  rw [if_neg both]
  have apart : ∀ p ∈ done, Apart lowest p ⟨s, n⟩ := by
    refine fun p member => ⟨fun same => taken (slot.mpr ⟨p, member, same⟩), fun same => known ?_,
      new p member, fun marked => both ?_⟩
    · exact (holds.ids s.id).mpr ⟨p, member, same⟩
    · rw [Bool.and_eq_true]
      exact ⟨marked.2, holds.isDefault.mpr ⟨p, member, marked.1⟩⟩
  obtain ⟨y, stored, more⟩ := @Draft.Holds.snoc lowest _ done x holds ⟨s, n⟩ inside apart
  have fits : Fits ps s := ⟨UInt32.not_le.mp high, readables, small⟩
  exact Or.inl ⟨⟨s, n⟩, y, ⟨rfl, fits, ds, given, place.symm⟩, apart, stored, more⟩

theorem foldlM_add_cases (names : (ps.map Property.name).Nodup) (states : List StateDescription)
    {done : List Placed} {x : Draft}
    (holds : x.Holds lowest (Radix.total (ps.map Property.size)) done)
    (apart : done.Pairwise (Apart lowest)) :
    (∃ qs y, List.Forall₂ (Places ps) states qs ∧ (done ++ qs).Pairwise (Apart lowest) ∧
      states.foldlM (Draft.add kind ps lowest) x = .ok y ∧
      y.Holds lowest (Radix.total (ps.map Property.size)) (done ++ qs)) ∨
    ((∀ qs, List.Forall₂ (Places ps) states qs → ¬ (done ++ qs).Pairwise (Apart lowest)) ∧
      ∃ defect, states.foldlM (Draft.add kind ps lowest) x =
        .error (.error (.construction defect))) := by
  induction states generalizing done x with
  | nil => exact Or.inl ⟨[], x, .nil, by rwa [List.append_nil], rfl, by rwa [List.append_nil]⟩
  | cons s rest ih =>
    rw [List.foldlM_cons]
    rcases @add_cases kind ps lowest names done x holds s with
      ⟨q, y, places, new, added, more⟩ | ⟨conflict, defect, refused⟩
    · have apart' : (done ++ [q]).Pairwise (Apart lowest) := by
        refine List.pairwise_append.mpr ⟨apart, List.pairwise_singleton _ _, fun p member t last => ?_⟩
        rw [List.mem_singleton.mp last]
        exact new p member
      rw [added, Outcome.ok_bind]
      rcases ih more apart' with ⟨qs, z, all, allApart, run, held⟩ | ⟨conflict, defect, run⟩
      · rw [List.append_assoc] at allApart held
        exact Or.inl ⟨q :: qs, z, .cons places all, allApart, run, held⟩
      · refine Or.inr ⟨fun qs all => ?_, defect, run⟩
        obtain ⟨q', qs', places', all', rfl⟩ := List.forall₂_cons_left_iff.mp all
        rw [places'.unique places, List.append_cons]
        exact conflict qs' all'
    · rw [refused]
      refine Or.inr ⟨fun qs all together => ?_, defect, rfl⟩
      obtain ⟨q, qs', places, _, rfl⟩ := List.forall₂_cons_left_iff.mp all
      refine conflict q places fun p member => ?_
      exact (List.pairwise_append.mp together).2.2 p member q List.mem_cons_self

end Voxel.Version
