import Mathlib.Data.List.Nodup
import Voxel.Block.Declaration
import Voxel.Outcome
import Voxel.Proofs.Property
import Voxel.Proofs.Radix

/-!
# State spaces of declared kinds

`Refusal` lists what is wrong with declarations that have no state space, and `Calls` follows a rule
from state to state. `enumerate_cases` shows that a kind is built unless one of the two fails, and
`states_ok` and `states_total` say the same of rules that keep no state.
-/

namespace Voxel

/-! ### Collecting -/

/-- Calls one after the other. Each is told how many came before it, and starts in the state that the
one before it left. -/
inductive Calls {α ε σ : Type} (f : Nat → σ → Except ε (α × σ)) (start : σ) : List α → σ → Prop
  | none : Calls f start [] start
  | next {answers : List α} {a : α} {s t : σ} (before : Calls f start answers s)
      (answered : f answers.length s = .ok (a, t)) : Calls f start (answers ++ [a]) t

def Fails {α ε σ : Type} (f : Nat → σ → Except ε (α × σ)) (start : σ) (size : Nat) (e : ε) : Prop :=
  ∃ answers s, answers.length < size ∧ Calls f start answers s ∧ f answers.length s = .error e

section

variable {α β ε σ : Type} {f : Nat → σ → Except ε (α × σ)} {start : σ}

theorem Calls.earlier {answers : List α} {t : σ} (calls : Calls f start answers t) {n : Nat}
    (less : n < answers.length) :
    ∃ s a u, Calls f start (answers.take n) s ∧ f n s = .ok (a, u) ∧ answers[n]? = some a := by
  induction calls with
  | none => cases less
  | @next answers a s t before answered ih =>
    rw [List.length_append, List.length_singleton] at less
    by_cases last : n = answers.length
    · subst last
      rw [List.take_left']
      · exact ⟨s, a, t, before, answered, List.getElem?_concat_length⟩
      · rfl
    · have earlier : n < answers.length := by omega
      obtain ⟨r, b, u, calls, called, here⟩ := ih earlier
      refine ⟨r, b, u, ?_, called, ?_⟩
      · rw [List.take_append_of_le_length (Nat.le_of_lt earlier)]
        exact calls
      · rw [List.getElem?_append_left earlier]
        exact here

theorem Calls.unique {answers others : List α} {s t : σ} (left : Calls f start answers s)
    (right : Calls f start others t) (length : answers.length = others.length) :
    answers = others ∧ s = t := by
  induction left generalizing others t with
  | none =>
    cases right with
    | none => exact ⟨rfl, rfl⟩
    | next _ _ => simp at length
  | next before answered ih =>
    cases right with
    | none => simp at length
    | next beforeToo answeredToo =>
      rw [List.length_append, List.length_append] at length
      obtain ⟨rfl, rfl⟩ := ih beforeToo (Nat.add_right_cancel length)
      cases answered.symm.trans answeredToo
      exact ⟨rfl, rfl⟩

theorem Calls.not_fails {answers : List α} {t : σ} (calls : Calls f start answers t) {e : ε} :
    ¬ Fails f start answers.length e := by
  rintro ⟨others, s, less, callsToo, failed⟩
  obtain ⟨u, a, v, earlier, called, _⟩ := calls.earlier less
  have length : (answers.take others.length).length = others.length := by
    rw [List.length_take]
    omega
  obtain ⟨_, rfl⟩ := earlier.unique callsToo length
  cases called.symm.trans failed

theorem Calls.of_map {g : α → β} {answers : List β} {t : σ}
    (calls : Calls (fun n s => Prod.map g id <$> f n s) start answers t) :
    ∃ own, Calls f start own t ∧ own.map g = answers := by
  induction calls with
  | none => exact ⟨[], .none, rfl⟩
  | next before answered ih =>
    obtain ⟨own, calls, rfl⟩ := ih
    obtain ⟨⟨a, s⟩, called, done⟩ := Outcome.map_ok answered
    rw [List.length_map] at called
    cases done
    exact ⟨own ++ [a], .next calls called, by rw [List.map_append, List.map_singleton]⟩

theorem Fails.of_map {g : α → β} {size : Nat} {e : ε}
    (fails : Fails (fun n s => Prod.map g id <$> f n s) start size e) : Fails f start size e := by
  obtain ⟨answers, s, less, calls, failed⟩ := fails
  obtain ⟨own, same, rfl⟩ := calls.of_map
  rw [List.length_map] at less failed
  refine ⟨own, s, less, same, ?_⟩
  dsimp only at failed
  cases called : f own.length s with
  | error e => rw [called] at failed; exact congrArg _ (Except.error.inj failed)
  | ok a => rw [called] at failed; cases failed

theorem collect_go_cases {size left : Nat} {items : Array α} (h : items.size + left = size) {s : σ}
    (before : Calls f start items.toList s) :
    (∃ r t, collect.go size f left items h s = .ok (r, t) ∧ Calls f start r.1.toList t) ∨
    ∃ e, Fails f start size e ∧ collect.go size f left items h s = .error e := by
  induction left generalizing items s with
  | zero => exact Or.inl ⟨⟨items, h⟩, s, rfl, before⟩
  | succ left ih =>
    rw [collect.go]
    cases called : f items.size s with
    | error e =>
      have length : items.toList.length = items.size := Array.length_toList
      refine Or.inr ⟨e, ⟨items.toList, s, ?_, before, ?_⟩, rfl⟩
      · omega
      · rw [length]
        exact called
    | ok answer =>
      obtain ⟨a, t⟩ := answer
      have after : Calls f start (items.push a).toList t := by
        rw [Array.toList_push]
        refine .next before ?_
        rw [Array.length_toList]
        exact called
      exact ih (by rw [Array.size_push]; omega) after

theorem collect_cases (size : Nat) (f : Nat → σ → Except ε (α × σ)) (start : σ) :
    (∃ r t, collect size f start = .ok (r, t) ∧ Calls f start r.1.toList t) ∨
    ∃ e, Fails f start size e ∧ collect size f start = .error e :=
  collect_go_cases _ Calls.none

end

namespace Declaration

/-- The properties of a declaration span a state space. -/
structure Sound (d : Declaration) : Prop where
  few : d.properties.length ≤ maxProperties
  names : (d.properties.map Property.name).Nodup
  sizes : ∀ p ∈ d.properties, 0 < p.size ∧ p.size ≤ maxValues

theorem checkProperties_eq_ok_iff {kind : Name} {seen : List String} {properties : List Property} :
    checkProperties kind seen properties = .ok () ↔
      (properties.map Property.name).Nodup ∧ (∀ p ∈ properties, p.name ∉ seen) ∧
        ∀ p ∈ properties, 0 < p.size ∧ p.size ≤ maxValues := by
  induction properties generalizing seen with
  | nil => simp [checkProperties]
  | cons p rest ih =>
    rw [checkProperties, List.map_cons, List.nodup_cons, List.forall_mem_cons, List.forall_mem_cons]
    by_cases repeated : p.name ∈ seen
    · rw [if_pos repeated]
      exact ⟨fun h => (by cases h), fun h => absurd repeated h.2.1.1⟩
    · rw [if_neg repeated]
      by_cases unsupported : p.size = 0 ∨ maxValues < p.size
      · rw [if_pos unsupported]
        exact ⟨fun h => (by cases h), fun h => by have := h.2.2.1; omega⟩
      · rw [if_neg unsupported, ih]
        have size : 0 < p.size ∧ p.size ≤ maxValues := by omega
        simp only [List.mem_cons, not_or]
        constructor
        · rintro ⟨names, apart, sizes⟩
          refine ⟨⟨?_, names⟩, ⟨repeated, fun q member => (apart q member).2⟩, size, sizes⟩
          intro member
          obtain ⟨q, inside, same⟩ := List.mem_map.mp member
          exact (apart q inside).1 same
        · rintro ⟨⟨first, names⟩, ⟨_, apart⟩, _, sizes⟩
          refine ⟨names, fun q member => ⟨fun same => ?_, apart q member⟩, sizes⟩
          exact first (same ▸ List.mem_map_of_mem member)

/-- What is wrong with a declaration that has no state space. -/
inductive Refusal (d : Declaration) : BlockError → Prop
  | tooManyProperties (many : maxProperties < d.properties.length) : Refusal d
      (.construction (.kind (.tooManyProperties d.name d.properties.length maxProperties)))
  | repeatedProperty {before after : List Property} {p : Property}
      (split : d.properties = before ++ p :: after) (repeated : p.name ∈ before.map Property.name) :
      Refusal d (.duplicate (.property p.name d.name))
  | unsupportedSize {p : Property} (member : p ∈ d.properties)
      (unsupported : p.size = 0 ∨ maxValues < p.size) :
      Refusal d (.construction (.kind (.unsupportedSize d.name p.name)))
  | tooManyStates (many : maxStates < Radix.total (d.properties.map Property.size)) :
      Refusal d (.construction (.kind (.tooManyStates d.name)))
  | defaultOutOfBounds {n : Nat} (chosen : d.default = some n)
      (outside : Radix.total (d.properties.map Property.size) ≤ n) :
      Refusal d (.construction (.kind (.defaultOutOfBounds d.name n)))

/-- A declaration with a state space. -/
structure Valid (d : Declaration) : Prop where
  sound : d.Sound
  few : Radix.total (d.properties.map Property.size) ≤ maxStates
  default : ∀ n, d.default = some n → n < Radix.total (d.properties.map Property.size)

theorem Refusal.not_valid {d : Declaration} {e : BlockError} (refusal : d.Refusal e) : ¬ d.Valid := by
  intro valid
  cases refusal with
  | tooManyProperties many => exact Nat.not_lt.mpr valid.sound.few many
  | repeatedProperty split repeated =>
    have names := valid.sound.names
    rw [split, List.map_append, List.map_cons, List.nodup_append] at names
    exact names.2.2 _ repeated _ List.mem_cons_self rfl
  | unsupportedSize member unsupported =>
    have size := valid.sound.sizes _ member
    omega
  | tooManyStates many => exact Nat.not_lt.mpr valid.few many
  | defaultOutOfBounds chosen outside => exact Nat.not_lt.mpr outside (valid.default _ chosen)

theorem Refusal.construction {d : Declaration} {e : BlockError} (refusal : d.Refusal e)
    (names : (d.properties.map Property.name).Nodup) : ∃ defect, e = .construction defect := by
  cases refusal with
  | repeatedProperty split repeated =>
    rw [split, List.map_append, List.map_cons, List.nodup_append] at names
    exact absurd rfl (names.2.2 _ repeated _ List.mem_cons_self)
  | tooManyProperties | unsupportedSize | tooManyStates | defaultOutOfBounds => exact ⟨_, rfl⟩

theorem checkProperties_error {kind : Name} {seen : List String} {properties : List Property}
    {e : BlockError} (failed : checkProperties kind seen properties = .error e) :
    ∃ before p after, properties = before ++ p :: after ∧
      (((p.name ∈ seen ∨ p.name ∈ before.map Property.name) ∧
        e = .duplicate (.property p.name kind)) ∨
      ((p.size = 0 ∨ maxValues < p.size) ∧
        e = .construction (.kind (.unsupportedSize kind p.name)))) := by
  induction properties generalizing seen with
  | nil => cases failed
  | cons p rest ih =>
    rw [checkProperties] at failed
    split at failed
    · rename_i repeated
      cases failed
      exact ⟨[], p, rest, rfl, Or.inl ⟨Or.inl repeated, rfl⟩⟩
    · split at failed
      · rename_i unsupported
        cases failed
        exact ⟨[], p, rest, rfl, Or.inr ⟨unsupported, rfl⟩⟩
      · obtain ⟨before, q, after, rfl, fault⟩ := ih failed
        refine ⟨p :: before, q, after, rfl, fault.imp_left (And.imp_left fun repeated => ?_)⟩
        rw [List.map_cons, List.mem_cons]
        obtain known | between := repeated
        · exact (List.mem_cons.mp known).symm.imp_right Or.inl
        · exact Or.inr (Or.inr between)

theorem sizes_eq_ok_iff {d : Declaration} {sizes : List Nat} :
    d.sizes = .ok sizes ↔ d.Sound ∧ sizes = d.properties.map Property.size := by
  unfold Declaration.sizes
  by_cases many : maxProperties < d.properties.length
  · rw [if_pos many]
    exact ⟨fun h => (by cases h), fun h => by have := h.1.few; omega⟩
  · rw [if_neg many]
    have checked := @checkProperties_eq_ok_iff d.name [] d.properties
    constructor
    · intro h
      obtain ⟨_, passed, h⟩ := Outcome.bind_ok h
      obtain ⟨names, _, sizes⟩ := checked.mp passed
      cases h
      exact ⟨⟨by omega, names, sizes⟩, rfl⟩
    · rintro ⟨sound, rfl⟩
      have passed := checked.mpr ⟨sound.names, fun _ _ => List.not_mem_nil, sound.sizes⟩
      simp only [passed]
      rfl

theorem sizes_error {d : Declaration} {e : BlockError} (failed : d.sizes = .error e) :
    d.Refusal e := by
  unfold Declaration.sizes at failed
  split at failed
  · rename_i many
    cases failed
    exact .tooManyProperties many
  · obtain refused | ⟨_, _, done⟩ := Outcome.bind_error failed
    · obtain ⟨before, p, after, split, ⟨repeated, rfl⟩ | ⟨unsupported, rfl⟩⟩ :=
        checkProperties_error refused
      · exact .repeatedProperty split (repeated.resolve_left List.not_mem_nil)
      · refine .unsupportedSize ?_ unsupported
        rw [split]
        exact List.mem_append_right _ List.mem_cons_self
    · cases done

theorem countStates_le {sizes : List Nat} {n : { n : Nat // n = Radix.total sizes }}
    (counted : countStates sizes = some n) : Radix.total sizes ≤ maxStates := by
  cases sizes with
  | nil => decide
  | cons size rest =>
    rw [countStates] at counted
    split at counted
    · cases counted
    · split at counted
      · rename_i m same _ few
        rw [Radix.total, ← same]
        exact few
      · cases counted

theorem countStates_eq_none {sizes : List Nat} (positive : ∀ size ∈ sizes, 0 < size)
    (counted : countStates sizes = none) : maxStates < Radix.total sizes := by
  induction sizes with
  | nil => cases counted
  | cons size rest ih =>
    have ⟨first, others⟩ := List.forall_mem_cons.mp positive
    rw [countStates] at counted
    rw [Radix.total]
    split at counted
    · rename_i tooMany
      exact Nat.lt_of_lt_of_le (ih others tooMany) (Nat.le_mul_of_pos_left _ first)
    · split at counted
      · cases counted
      · rename_i m same _ many
        rw [← same]
        exact Nat.not_le.mp many

theorem within_defaults (properties : List Property) :
    Radix.Within (properties.map Property.size) (properties.map Property.defaultIndex) := by
  rw [Radix.Within, List.forall₂_map_left_iff, List.forall₂_map_right_iff, List.forall₂_same]
  exact fun p _ => p.defaultIndex_lt

/-- A kind has what a declaration says, and states with the given numbers and data. -/
structure Enumerated (d : Declaration) (registry : RegistryId)
    (answers : List (StateId × Option UInt8)) (k : BlockKind) : Prop where
  registry : k.registry = registry
  name : k.name = d.name
  legacyId : k.legacyId = d.legacyId
  properties : k.properties = d.properties
  default : k.default =
    d.default.getD (Radix.number k.sizes (k.properties.map Property.defaultIndex))
  entries : k.entries.toList = answers.map d.entry

/-- A kind is built if its declaration is valid and the rule gives each state its number. -/
theorem enumerate_cases {σ : Type} (d : Declaration) (registry : RegistryId) (assign : Rule σ)
    (start : σ) :
    (∃ e, d.Refusal e ∧ d.enumerate registry assign start = .error (.error e)) ∨
    (∃ f, Fails (fun n => assign n (Radix.digits (d.properties.map Property.size) n)) start
        (Radix.total (d.properties.map Property.size)) f ∧
      d.enumerate registry assign start = .error f) ∨
    d.Valid ∧ ∃ answers k last, d.enumerate registry assign start = .ok (k, last) ∧
      Calls (fun n => assign n (Radix.digits (d.properties.map Property.size) n)) start answers last ∧
      d.Enumerated registry answers k := by
  unfold enumerate
  cases sized : d.sizes with
  | error e => exact Or.inl ⟨e, sizes_error sized, rfl⟩
  | ok sizes =>
  obtain ⟨sound, rfl⟩ := sizes_eq_ok_iff.mp sized
  rw [Failure.lift_ok, Outcome.ok_bind]
  cases counted : countStates (d.properties.map Property.size) with
  | none =>
    refine Or.inl ⟨_, .tooManyStates (countStates_eq_none ?_ counted), rfl⟩
    intro size member
    obtain ⟨p, inside, rfl⟩ := List.mem_map.mp member
    exact (sound.sizes p inside).1
  | some count =>
  have few := countStates_le counted
  obtain ⟨total, rfl⟩ := count
  dsimp only
  obtain ⟨⟨entries, size⟩, last, collected, calls⟩ | ⟨f, fails, stopped⟩ :=
    collect_cases (Radix.total (d.properties.map Property.size)) (fun offset s =>
      Prod.map d.entry id <$> assign offset (Radix.digits (d.properties.map Property.size) offset) s)
      start
  · obtain ⟨answers, asked, same⟩ := calls.of_map
    rw [collected, Outcome.ok_bind]
    dsimp only
    split
    · rename_i inside
      rw [size] at inside
      refine Or.inr (Or.inr ⟨⟨sound, few, fun n chosen => ?_⟩, answers, _, last, rfl, asked,
        ⟨rfl, rfl, rfl, rfl, rfl, same.symm⟩⟩)
      rw [chosen] at inside
      exact inside
    · rename_i outside
      rw [size, Nat.not_lt] at outside
      cases chosen : d.default with
      | none =>
        rw [chosen] at outside
        exact absurd (Radix.number_lt (within_defaults d.properties)) (Nat.not_lt.mpr outside)
      | some n =>
        rw [chosen] at outside
        exact Or.inl ⟨_, .defaultOutOfBounds chosen outside, rfl⟩
  · rw [stopped]
    exact Or.inr (Or.inl ⟨f, fails.of_map, rfl⟩)

theorem enumerate_names {σ : Type} {d : Declaration} {registry : RegistryId} {assign : Rule σ}
    {start last : σ} {k : BlockKind} (built : d.enumerate registry assign start = .ok (k, last)) :
    (k.properties.map Property.name).Nodup := by
  obtain ⟨_, _, refused⟩ | ⟨_, _, stopped⟩ | ⟨valid, _, _, _, made, _, enumerated⟩ :=
    d.enumerate_cases registry assign start
  · cases built.symm.trans refused
  · cases built.symm.trans stopped
  · cases built.symm.trans made
    rw [enumerated.properties]
    exact valid.sound.names

/-- A kind has what a declaration says, and at each offset what a rule says. -/
structure Built (d : Declaration) (registry : RegistryId)
    (assign : Nat → Except Failure (StateId × Option UInt8)) (k : BlockKind) : Prop where
  registry : k.registry = registry
  name : k.name = d.name
  legacyId : k.legacyId = d.legacyId
  properties : k.properties = d.properties
  default : k.default =
    d.default.getD (Radix.number k.sizes (k.properties.map Property.defaultIndex))
  assigned : ∀ offset (_ : offset < k.entries.size), ∃ id data, assign offset = .ok (id, data) ∧
    k.entries[offset] = ⟨id, d.legacyId.bind fun l => data.map fun m => ⟨l, m⟩⟩

theorem states_cases (d : Declaration) (registry : RegistryId)
    (assign : Nat → Except Failure (StateId × Option UInt8)) :
    (∃ e, d.Refusal e ∧ d.states registry assign = .error (.error e)) ∨
    (∃ f, (∃ offset < Radix.total (d.properties.map Property.size), assign offset = .error f) ∧
      d.states registry assign = .error f) ∨
    d.Valid ∧ ∃ k, d.states registry assign = .ok k ∧ d.Built registry assign k := by
  unfold Declaration.states
  obtain ⟨e, refusal, refused⟩ | ⟨f, fails, stopped⟩ | ⟨valid, answers, k, _, made, calls, enumerated⟩ :=
    d.enumerate_cases registry (fun offset _ (_ : Unit) => (·, ()) <$> assign offset) ()
  · rw [refused]
    exact Or.inl ⟨e, refusal, rfl⟩
  · rw [stopped]
    refine Or.inr (Or.inl ⟨f, ?_, rfl⟩)
    obtain ⟨before, _, less, _, failed⟩ := fails
    refine ⟨before.length, less, ?_⟩
    dsimp only at failed
    cases called : assign before.length with
    | error e => rw [called] at failed; exact congrArg _ (Except.error.inj failed)
    | ok a => rw [called] at failed; cases failed
  · rw [made]
    refine Or.inr (Or.inr ⟨valid, k, rfl, enumerated.registry, enumerated.name, enumerated.legacyId,
      enumerated.properties, enumerated.default, fun offset inside => ?_⟩)
    have entries := enumerated.entries
    have below : offset < answers.length := by
      rw [← List.length_map (f := d.entry), ← entries, Array.length_toList]
      exact inside
    obtain ⟨_, ⟨id, data⟩, _, _, called, here⟩ := calls.earlier below
    obtain ⟨_, assigned, same⟩ := Outcome.map_ok called
    cases same
    refine ⟨id, data, assigned, ?_⟩
    have there : k.entries.toList[offset]? = some (d.entry (id, data)) := by
      rw [entries, List.getElem?_map, here, Option.map_some]
    rw [Array.getElem?_toList, Array.getElem?_eq_getElem inside] at there
    exact Option.some.inj there

theorem states_ok {d : Declaration} {registry : RegistryId}
    {assign : Nat → Except Failure (StateId × Option UInt8)} {k : BlockKind}
    (h : d.states registry assign = .ok k) : d.Valid ∧ d.Built registry assign k := by
  obtain ⟨_, _, refused⟩ | ⟨_, _, stopped⟩ | ⟨valid, other, made, built⟩ :=
    d.states_cases registry assign
  · cases h.symm.trans refused
  · cases h.symm.trans stopped
  · cases h.symm.trans made
    exact ⟨valid, built⟩

/-- A valid declaration is built if a rule gives each of its states a number. -/
theorem states_total {d : Declaration} {registry : RegistryId}
    {assign : Nat → Except Failure (StateId × Option UInt8)} (valid : d.Valid)
    (total : ∀ offset < Radix.total (d.properties.map Property.size), ∃ a, assign offset = .ok a) :
    ∃ k, d.states registry assign = .ok k := by
  obtain ⟨_, refusal, _⟩ | ⟨f, ⟨offset, less, failed⟩, _⟩ | ⟨_, k, made, _⟩ :=
    d.states_cases registry assign
  · exact absurd valid refusal.not_valid
  · obtain ⟨a, assigned⟩ := total offset less
    cases assigned.symm.trans failed
  · exact ⟨k, made⟩

theorem valid_of_not_refusal {d : Declaration} (sound : ¬ ∃ e, d.Refusal e) : d.Valid := by
  obtain ⟨e, refusal, _⟩ | ⟨_, ⟨_, _, failed⟩, _⟩ | ⟨valid, _⟩ :=
    d.states_cases 0 fun _ => .ok (0, none)
  · exact absurd ⟨e, refusal⟩ sound
  · cases failed
  · exact valid

@[simp] theorem result_build (d : Declaration) (registry : RegistryId)
    (assign : Nat → Except Failure (StateId × Option UInt8)) :
    (d.build registry assign).result = d.states registry assign := by
  simp only [Declaration.build, Report.result_bind, Report.result_lift]
  cases d.states registry assign with
  | error e => rfl
  | ok k => rfl

end Declaration

end Voxel
