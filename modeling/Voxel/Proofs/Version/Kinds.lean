import Mathlib.Data.List.Pairwise
import Voxel.Proofs.Registry.Global
import Voxel.Proofs.Version.WellFormed

/-!
# Kinds of described blocks

`declare_cases` and `buildKind_cases` show that a block has a kind exactly if its description is
well-formed and its states have distinct numbers. `Describes` says what the kind is then.
-/

namespace Voxel.Version

variable {b : BlockDescription} {ps : List Property}

/-- The description of a block is sound in itself. -/
structure Buildable (b : BlockDescription) : Prop where
  wellFormed : b.WellFormed
  ids : (b.states.map (·.id)).Nodup

theorem Buildable.few (h : Buildable b) : b.states.length ≤ 2 ^ 20 := by
  have distinct : (b.states.map fun s => s.id.toNat).Nodup := by
    have values := h.ids.map (f := UInt32.toNat) fun _ _ same => UInt32.toNat_inj.mp same
    rwa [List.map_map] at values
  have included : (b.states.map fun s => s.id.toNat) ⊆ List.range (2 ^ 20) := by
    intro n member
    obtain ⟨s, inside, rfl⟩ := List.mem_map.mp member
    exact List.mem_range.mpr (h.wellFormed.ids s inside)
  have length := (distinct.subperm included).length_le
  rwa [List.length_map, List.length_range] at length

/-! ### The steps of a declaration -/

theorem inferred_cases (name : Name) (b : BlockDescription) :
    (∃ ps, Inferred b ps ∧ (b.properties.entries.mapM fun e =>
      (liftM (inferProperty name e.1 e.2) : Except Failure Property)) = .ok ps ∧
      ∀ e ∈ b.properties.entries, Values e.2) ∨
    ((∃ e ∈ b.properties.entries, ¬ Values e.2) ∧ ∃ defect, (b.properties.entries.mapM fun e =>
      (liftM (inferProperty name e.1 e.2) : Except Failure Property)) =
        .error (.error (.construction defect))) := by
  cases run : b.properties.entries.mapM fun e =>
      (liftM (inferProperty name e.1 e.2) : Except Failure Property) with
  | ok ps =>
    have all := Outcome.mapM_eq_ok_iff.mp run
    have takes : ∀ (e : String × List String) p,
        (liftM (inferProperty name e.1 e.2) : Except Failure Property) = .ok p →
        Values e.2 ∧ Takes p e.1 e.2 := by
      intro e p inferred
      rcases inferProperty_cases name e.1 e.2 with ⟨good, q, same, takes⟩ | ⟨_, _, refused⟩
      · obtain rfl := Except.ok.inj (same.symm.trans (Failure.lift_eq_ok inferred))
        exact ⟨good, takes⟩
      · rw [refused] at inferred
        cases inferred
    refine Or.inl ⟨ps, all.imp fun e p inferred => (takes e p inferred).2, rfl, fun e member => ?_⟩
    obtain ⟨p, _, inferred⟩ := forall₂_of_mem all member
    exact (takes e p inferred).1
  | error f =>
    obtain ⟨e, member, refused⟩ := Outcome.mapM_error run
    rcases inferProperty_cases name e.1 e.2 with ⟨_, q, same, _⟩ | ⟨bad, defect, same⟩
    · rw [same] at refused
      cases refused
    · rw [same] at refused
      cases refused
      exact Or.inr ⟨⟨e, member, bad⟩, defect, rfl⟩

theorem sound_iff (inferred : Inferred b ps) (values : ∀ e ∈ b.properties.entries, Values e.2)
    (name : Name) (legacyId : Option UInt16) :
    (Declaration.mk name ps legacyId none).Sound ↔
      b.properties.size ≤ 16 ∧ ∀ e ∈ b.properties.entries, e.2.length ≤ 65535 := by
  constructor
  · rintro ⟨few, _, sizes⟩
    refine ⟨inferred.length ▸ few, fun e member => ?_⟩
    obtain ⟨p, inside, takes⟩ := forall₂_of_mem inferred member
    exact takes.size ▸ (sizes p inside).2
  · rintro ⟨few, lengths⟩
    refine ⟨inferred.length ▸ few, inferred.names, fun p member => ?_⟩
    obtain ⟨e, inside, takes⟩ := inferred.entry member
    rw [takes.size]
    exact ⟨List.length_pos_iff.mpr (values e inside).nonempty, lengths e inside⟩

theorem fits_iff (inferred : Inferred b ps) {s : StateDescription} :
    Fits ps s ↔ s.id.toNat < 2 ^ 20 ∧ b.Gives s ∧ ∀ m, s.data = some m → m < 16 := by
  have limit : runtimeIdLimit.toNat = 2 ^ 20 := rfl
  constructor
  · rintro ⟨id, readables, data⟩
    rw [UInt32.lt_iff_toNat_lt, limit] at id
    exact ⟨id, (readables_iff inferred).mp readables, data⟩
  · rintro ⟨id, gives, data⟩
    refine ⟨?_, (readables_iff inferred).mpr gives, data⟩
    rw [UInt32.lt_iff_toNat_lt, limit]
    exact id

theorem buildable_iff (inferred : Inferred b ps) {legacyId : UInt16}
    (old : b.legacyId = some legacyId) (low : legacyId < 4096)
    (values : ∀ e ∈ b.properties.entries, Values e.2)
    (few : b.properties.size ≤ 16 ∧ ∀ e ∈ b.properties.entries, e.2.length ≤ 65535)
    (count : b.states.length = Radix.total (ps.map Property.size)) :
    Buildable b ↔ (∃ qs, List.Forall₂ (Places ps) b.states qs ∧
      qs.Pairwise (Apart (lowestId b.states))) ∧ ∃ s ∈ b.states, s.isDefault = true := by
  rw [placeable_iff inferred, pairwise_differ_iff]
  constructor
  · rintro ⟨h, ids⟩
    obtain ⟨marked, single⟩ := length_filter_eq_one_iff.mp h.default
    refine ⟨⟨fun s member => (fits_iff inferred).mpr ?_, h.apart, ids, h.dataApart, single⟩, marked⟩
    exact ⟨h.ids s member, h.gives s member, h.data s member⟩
  · rintro ⟨⟨fits, apart, ids, dataApart, single⟩, marked⟩
    have fit := fun s member => (fits_iff inferred).mp (fits s member)
    have product : b.states.length = (b.properties.entries.map fun p => p.2.length).prod := by
      rw [count, inferred.map_size, Radix.total_eq_prod]
    refine ⟨⟨⟨legacyId, old, low⟩, few.1, fun e member => ⟨values e member, few.2 e member⟩, product,
      fun s member => (fit s member).1, fun s member => (fit s member).2.1, apart,
      fun s member => (fit s member).2.2, dataApart, ?_⟩, ids⟩
    exact length_filter_eq_one_iff.mpr ⟨marked, single⟩

structure Declared (name : Name) (b : BlockDescription) (d : Declaration)
    (slots : Array (Option (StateId × Option UInt8))) (qs : List Placed) : Prop where
  name : d.name = name
  legacyId : d.legacyId = b.legacyId
  inferred : Inferred b d.properties
  sound : d.Sound
  count : b.states.length = Radix.total (d.properties.map Property.size)
  places : List.Forall₂ (Places d.properties) b.states qs
  apart : qs.Pairwise (Apart (lowestId b.states))
  size : slots.size = Radix.total (d.properties.map Property.size)
  slots : ∀ offset found, slots[offset]? = some (some found) ↔
    ∃ q ∈ qs, q.offset = offset ∧ found = (q.state.id, b.dataOf q.state)
  default : ∀ offset, d.default = some offset ↔
    ∃ q ∈ qs, q.state.isDefault = true ∧ q.offset = offset
  marked : ∃ offset, d.default = some offset

theorem declared_of_holds {name : Name} {qs : List Placed} {x : Draft} {legacyId : UInt16} {offset : Nat}
    (old : b.legacyId = some legacyId) (inferred : Inferred b ps)
    (sound : (Declaration.mk name ps (some legacyId) none).Sound)
    (count : b.states.length = Radix.total (ps.map Property.size))
    (places : List.Forall₂ (Places ps) b.states qs)
    (apart : qs.Pairwise (Apart (lowestId b.states)))
    (holds : x.Holds (lowestId b.states) (Radix.total (ps.map Property.size)) qs)
    (chosen : x.default = some offset) :
    Declared name b ⟨name, ps, some legacyId, some offset⟩ x.slots qs := by
  refine ⟨rfl, old.symm, inferred, ⟨sound.few, sound.names, sound.sizes⟩, count, places, apart,
    holds.size, ?_, ?_, offset, rfl⟩
  · intro n found
    rw [holds.slots]
    simp only [effective_eq]
  · intro n
    rw [← chosen]
    exact holds.default n

theorem declare_cases (name : Name) (b : BlockDescription) :
    (Buildable b ∧ ∃ d slots qs, declare name b = .ok (d, slots) ∧ Declared name b d slots qs) ∨
    (¬ Buildable b ∧ ∃ defect, declare name b = .error (.error (.construction defect))) := by
  unfold declare
  cases old : b.legacyId with
  | none =>
    refine Or.inr ⟨fun h => ?_, .version (.noLegacyId name), rfl⟩
    obtain ⟨_, same, _⟩ := h.wellFormed.legacyId
    rw [old] at same
    cases same
  | some legacyId =>
  dsimp only
  by_cases high : legacyIdLimit ≤ legacyId
  · refine Or.inr ⟨fun h => ?_, .version (.legacyIdOutOfRange name legacyId), by rw [if_pos high]; rfl⟩
    obtain ⟨_, same, low⟩ := h.wellFormed.legacyId
    obtain rfl := Option.some.inj (old.symm.trans same)
    exact absurd high (UInt16.not_le.mpr low)
  rw [if_neg high]
  rcases inferred_cases name b with ⟨ps, inferred, run, values⟩ | ⟨⟨e, member, bad⟩, defect, run⟩
  swap
  · refine Or.inr ⟨fun h => bad (h.wellFormed.values e member).1, defect, ?_⟩
    rw [run]
    rfl
  rw [run, Outcome.ok_bind]
  have sound := sound_iff inferred values name (some legacyId)
  cases sized : (Declaration.mk name ps (some legacyId) none).sizes with
  | error e =>
    obtain ⟨defect, rfl⟩ := (Declaration.sizes_error sized).construction inferred.names
    refine Or.inr ⟨fun h => ?_, defect, rfl⟩
    have good := sound.mpr ⟨h.wellFormed.properties, fun e member => (h.wellFormed.values e member).2⟩
    rw [Declaration.sizes_eq_ok_iff.mpr ⟨good, rfl⟩] at sized
    cases sized
  | ok sizes =>
  obtain ⟨good, rfl⟩ := Declaration.sizes_eq_ok_iff.mp sized
  dsimp only at good ⊢
  rw [Failure.lift_ok, Outcome.ok_bind]
  have product : Buildable b → b.states.length = Radix.total (ps.map Property.size) := by
    intro h
    rw [h.wellFormed.count, inferred.map_size, Radix.total_eq_prod]
  by_cases huge : UInt64.size ≤ Radix.total (ps.map Property.size)
  · refine Or.inr ⟨fun h => ?_, .kind (.tooManyStates name), by rw [if_pos huge]; rfl⟩
    have few := h.few
    have word : UInt64.size = 2 ^ 64 := rfl
    rw [product h] at few
    omega
  rw [if_neg huge]
  by_cases count : b.states.length ≠ Radix.total (ps.map Property.size)
  · exact Or.inr ⟨fun h => count (product h), .version (.stateCount name b.states.length
      (Radix.total (ps.map Property.size))), by rw [if_pos count]; rfl⟩
  rw [if_neg count]
  have low : legacyId < 4096 := UInt16.not_le.mp high
  have buildable := buildable_iff inferred old low values (sound.mp good) (not_not.mp count)
  rcases @foldlM_add_cases name ps (lowestId b.states) inferred.names b.states [] _
    (holds_start _ _) List.Pairwise.nil with
    ⟨qs, x, places, apart, run, holds⟩ | ⟨conflict, defect, run⟩
  swap
  · refine Or.inr ⟨fun h => ?_, defect, by rw [run]; rfl⟩
    obtain ⟨⟨qs, places, apart⟩, _⟩ := buildable.mp h
    exact conflict qs places apart
  rw [run, Outcome.ok_bind]
  obtain ⟨states, placed⟩ := places_map places
  cases chosen : x.default with
  | none =>
    refine Or.inr ⟨fun h => ?_, .version (.noDefault name), rfl⟩
    obtain ⟨_, s, member, marked⟩ := buildable.mp h
    rw [states] at member
    obtain ⟨q, inside, rfl⟩ := List.mem_map.mp member
    rw [(holds.default q.offset).mpr ⟨q, inside, marked, rfl⟩] at chosen
    cases chosen
  | some offset =>
  obtain ⟨q, inside, marked, _⟩ := (holds.default offset).mp chosen
  have member : q.state ∈ b.states := states ▸ List.mem_map_of_mem inside
  refine Or.inl ⟨buildable.mpr ⟨⟨qs, places, apart⟩, q.state, member, marked⟩, _, _, qs, rfl, ?_⟩
  exact declared_of_holds old inferred good (not_not.mp count) places apart holds chosen

/-! ### Kinds -/

/-- A state of a kind is what a state of the description says. -/
structure Matches (b : BlockDescription) (s : StateDescription) (t : BlockState) : Prop where
  runtimeId : t.runtimeId = s.id
  legacy : t.legacy = b.legacyId.bind fun l => (b.dataOf s).map fun m => ⟨l, m⟩
  given : Given t.kind.properties s.values.entries t.indices
  isDefault : t.isDefault = s.isDefault

/-- A kind is what a block of a description says. -/
structure Describes (registry : RegistryId) (name : Name) (b : BlockDescription) (k : BlockKind) :
    Prop where
  registry : k.registry = registry
  name : k.name = name
  legacyId : k.legacyId = b.legacyId
  inferred : Inferred b k.properties
  stateCount : k.stateCount = b.states.length
  states : ∀ s ∈ b.states, ∃ t : BlockState, t.kind = k ∧ Matches b s t
  declared : ∀ t : BlockState, t.kind = k → ∃ s ∈ b.states, Matches b s t
  distinct : k.Distinct

def stored (name : Name) (slots : Array (Option (StateId × Option UInt8))) (offset : Nat) :
    Except Failure (StateId × Option UInt8) :=
  match slots[offset]? with
  | some (some found) => .ok found
  | some none => refuse (.missingState name offset)
  | none => .error .fault

theorem result_buildKind (registry : RegistryId) (name : Name) (b : BlockDescription) :
    (buildKind registry name b).result =
      declare name b >>= fun (d, slots) => d.states registry (stored name slots) := by
  rw [buildKind, Report.result_bind, Report.result_lift]
  cases declare name b with
  | error f => rfl
  | ok declared => exact Declaration.result_build _ _ _

section

variable {registry : RegistryId} {name : Name} {d : Declaration} {qs : List Placed} {k : BlockKind}
  {slots : Array (Option (StateId × Option UInt8))}

theorem Declared.every (declared : Declared name b d slots qs) {offset : Nat}
    (inside : offset < Radix.total (d.properties.map Property.size)) :
    ∃ q ∈ qs, q.offset = offset := by
  obtain ⟨states, places⟩ := places_map declared.places
  have distinct : (qs.map Placed.offset).Nodup := by
    rw [List.Nodup, List.pairwise_map]
    exact declared.apart.imp fun apart => apart.offset
  have included : qs.map Placed.offset ⊆
      List.range (Radix.total (d.properties.map Property.size)) := by
    intro n member
    obtain ⟨q, inside, rfl⟩ := List.mem_map.mp member
    exact List.mem_range.mpr (places q inside).offset_lt
  have perm := (distinct.subperm included).perm_of_length_le (by
    rw [List.length_range, List.length_map, ← declared.count, declared.places.length_eq])
  exact List.mem_map.mp (perm.mem_iff.mpr (List.mem_range.mpr inside))

theorem Declared.stored_eq (declared : Declared name b d slots qs) {q : Placed} (member : q ∈ qs) :
    stored name slots q.offset = .ok (q.state.id, b.dataOf q.state) := by
  rw [stored, (declared.slots q.offset _).mpr ⟨q, member, rfl, rfl⟩]

theorem Declared.eq_of_not_apart (declared : Declared name b d slots qs) {p q : Placed} (inP : p ∈ qs)
    (inQ : q ∈ qs) (common : ¬ Apart (lowestId b.states) p q) : p = q := by
  have : Std.Symm (Apart (lowestId b.states)) := ⟨fun _ _ apart => ⟨apart.offset.symm,
    apart.id.symm, fun m left right => apart.data m right left, fun both => apart.default both.symm⟩⟩
  by_contra different
  exact common (declared.apart.forall inP inQ different)

theorem Declared.built (declared : Declared name b d slots qs)
    (built : d.Built registry (stored name slots) k) {q : Placed} (member : q ∈ qs) {t : BlockState}
    (kind : t.kind = k) (same : t.offset = q.offset) : Matches b q.state t := by
  subst kind
  obtain ⟨_, places⟩ := places_map declared.places
  obtain ⟨data, assigned, legacy⟩ := built.assigns rfl
  rw [same, declared.stored_eq member] at assigned
  obtain ⟨id, rfl⟩ := Prod.mk.inj (Except.ok.inj assigned)
  obtain ⟨ds, given, offset⟩ := (places q member).offset
  refine ⟨id.symm, declared.legacyId ▸ legacy, ?_, ?_⟩
  · rw [BlockState.indices, BlockKind.sizes, built.properties, same, offset,
      Radix.digits_number given.within]
    exact given
  · obtain ⟨chosen, default⟩ := declared.marked
    have here : t.kind.default = chosen := by rw [built.default, default, Option.getD_some]
    rw [BlockState.isDefault, here, Bool.eq_iff_iff, decide_eq_true_eq]
    constructor
    · intro isChosen
      obtain ⟨p, inside, marked, place⟩ := (declared.default chosen).mp default
      have equal : p = q := declared.eq_of_not_apart inside member fun apart =>
        apart.offset (place.trans (isChosen ▸ same))
      exact equal ▸ marked
    · intro marked
      have place := (declared.default q.offset).mpr ⟨q, member, marked, rfl⟩
      rw [default] at place
      exact same.trans (Option.some.inj place).symm

theorem Declared.describes (declared : Declared name b d slots qs) (wellFormed : b.WellFormed)
    (built : d.Built registry (stored name slots) k) : Describes registry name b k := by
  obtain ⟨states, places⟩ := places_map declared.places
  have total : k.entries.size = Radix.total (d.properties.map Property.size) := by
    rw [k.size_entries, built.properties]
  have placed : ∀ t : BlockState, t.kind = k → ∃ q ∈ qs, q.offset = t.offset := by
    rintro t rfl
    exact declared.every (total ▸ t.offset_lt)
  refine ⟨built.registry, built.name.trans declared.name, built.legacyId.trans declared.legacyId,
    built.properties ▸ declared.inferred, total.trans declared.count.symm, ?_, ?_, ?_⟩
  · intro s member
    rw [states] at member
    obtain ⟨q, inside, rfl⟩ := List.mem_map.mp member
    have below : q.offset < k.entries.size := total ▸ (places q inside).offset_lt
    exact ⟨⟨k, q.offset, below⟩, rfl, declared.built built inside rfl rfl⟩
  · intro t kind
    obtain ⟨q, inside, offset⟩ := placed t kind
    exact ⟨q.state, states ▸ List.mem_map_of_mem inside, declared.built built inside kind offset.symm⟩
  · refine BlockKind.distinct_of_entries (fun s t left right same => ?_)
      (fun s t left right pair old old' => ?_) fun s kind pair old => ?_
    · obtain ⟨p, inP, offsetP⟩ := placed s left
      obtain ⟨q, inQ, offsetQ⟩ := placed t right
      have idP := (declared.built built inP left offsetP.symm).runtimeId
      have idQ := (declared.built built inQ right offsetQ.symm).runtimeId
      have equal : p = q := declared.eq_of_not_apart inP inQ fun apart =>
        apart.id (idP.symm.trans (same.trans idQ))
      rw [← offsetP, ← offsetQ, equal]
    · obtain ⟨p, inP, offsetP⟩ := placed s left
      obtain ⟨q, inQ, offsetQ⟩ := placed t right
      have oldP := (declared.built built inP left offsetP.symm).legacy.symm.trans old
      have oldQ := (declared.built built inQ right offsetQ.symm).legacy.symm.trans old'
      obtain ⟨l, _, oldP⟩ := Option.bind_eq_some_iff.mp oldP
      obtain ⟨m, dataP, rfl⟩ := Option.map_eq_some_iff.mp oldP
      obtain ⟨l', _, oldQ⟩ := Option.bind_eq_some_iff.mp oldQ
      obtain ⟨m', dataQ, pair⟩ := Option.map_eq_some_iff.mp oldQ
      obtain rfl : m' = m := congrArg LegacyPair.data pair
      rw [← effective_eq] at dataP dataQ
      have equal : p = q := declared.eq_of_not_apart inP inQ fun apart => apart.data m' dataP dataQ
      rw [← offsetP, ← offsetQ, equal]
    · obtain ⟨q, inQ, offset⟩ := placed s kind
      have legacy := (declared.built built inQ kind offset.symm).legacy.symm.trans old
      obtain ⟨l, _, legacy⟩ := Option.bind_eq_some_iff.mp legacy
      obtain ⟨m, data, rfl⟩ := Option.map_eq_some_iff.mp legacy
      exact wellFormed.data_lt (states ▸ List.mem_map_of_mem inQ) data

end

/-- A block has a kind if it is buildable, and is a defect otherwise. -/
theorem buildKind_cases (registry : RegistryId) (name : Name) (b : BlockDescription) :
    (Buildable b ∧ ∃ k, (buildKind registry name b).result = .ok k ∧ Describes registry name b k) ∨
    (¬ Buildable b ∧ ∃ defect,
      (buildKind registry name b).result = .error (.error (.construction defect))) := by
  rw [result_buildKind]
  rcases declare_cases name b with ⟨good, d, slots, qs, run, declared⟩ | ⟨bad, defect, run⟩
  swap
  · exact Or.inr ⟨bad, defect, by rw [run]; rfl⟩
  rw [run, Outcome.ok_bind]
  obtain ⟨_, places⟩ := places_map declared.places
  obtain ⟨offset, chosen⟩ := declared.marked
  obtain ⟨q, member, _, place⟩ := (declared.default offset).mp chosen
  have few : Radix.total (d.properties.map Property.size) ≤ Declaration.maxStates := by
    have limit : Declaration.maxStates = 2 ^ 32 - 1 := rfl
    have bound := good.few
    rw [declared.count] at bound
    omega
  have total : ∀ n < Radix.total (d.properties.map Property.size), ∃ a, stored name slots n = .ok a := by
    intro n inside
    obtain ⟨p, inP, rfl⟩ := declared.every inside
    exact ⟨_, declared.stored_eq inP⟩
  have default : ∀ n, d.default = some n → n < Radix.total (d.properties.map Property.size) := by
    intro n given
    obtain rfl := Option.some.inj (chosen.symm.trans given)
    rw [← place]
    exact (places q member).offset_lt
  obtain ⟨k, built⟩ := @Declaration.states_total d registry _ ⟨declared.sound, few, default⟩ total
  exact Or.inl ⟨good, k, built, declared.describes good.wellFormed (Declaration.states_ok built).2⟩

theorem Buildable.built (good : Buildable b) (registry : RegistryId) (name : Name) :
    ∃ k, (buildKind registry name b).result = .ok k := by
  obtain ⟨_, k, built, _⟩ | ⟨bad, _⟩ := buildKind_cases registry name b
  · exact ⟨k, built⟩
  · exact absurd good bad

end Voxel.Version
