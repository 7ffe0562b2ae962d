import Voxel.Proofs.Version.Registry

/-!
# Look-ups in the registry of a version

`Represents.tells` shows that a registry tells of every declared state what its description says, and
`Represents.knows` that it knows no other state, name or old number.
-/

namespace Voxel

open Version

/-- The texts of a state are those of a description, up to the case of letters. -/
structure BlockState.Shows (t : BlockState) (s : StateDescription) : Prop where
  keys : (t.encoded.map Prod.fst).Perm s.values.keys
  texts : List.Forall₂ (fun p e => ∃ text, (p.name, text) ∈ s.values.entries ∧ e.1 = p.name ∧
    Text.fold e.2 = Text.fold text ∧ (p.sort = .int → e.2 = text)) t.kind.properties t.encoded

theorem BlockState.Shows.entry {t : BlockState} {s : StateDescription} (shows : t.Shows s)
    {e : String × String} (member : e ∈ t.encoded) :
    ∃ text, (e.1, text) ∈ s.values.entries ∧ Text.fold e.2 = Text.fold text := by
  obtain ⟨p, _, text, given, named, like, _⟩ := forall₂_of_mem shows.texts.flip member
  exact ⟨text, named ▸ given, like⟩

/-- What a registry tells of a state of a described block. -/
structure Registry.Tells (r : Registry) (block : Name) (b : BlockDescription)
    (s : StateDescription) (t : BlockState) : Prop where
  registered : r.index.hasRuntimeId s.id = true
  state : r.index.state s.id = .ok t
  runtimeId : t.runtimeId = s.id
  name : t.name = block
  texts : t.Shows s
  legacy : ∃ old, b.legacyId = some old ∧ t.legacy = (b.dataOf s).map fun data => ⟨old, data⟩
  isDefault : t.isDefault = s.isDefault
  ofTexts : ∀ texts, texts.Perm s.values.entries → r.stateOfTexts block texts = .ok t

/-- A registry knows what a version declares and nothing else. -/
structure Registry.Knows (r : Registry) (d : VersionDescription) : Prop where
  runtimeId : ∀ id, r.index.hasRuntimeId id = true ↔
    ∃ e ∈ d.blocks.entries, ∃ s ∈ e.2.states, s.id = id
  name : ∀ name, r.index.hasName name = true ↔ name ∈ d.blocks.keys
  legacyId : ∀ id, r.index.hasLegacyId id = true ↔ ∃ e ∈ d.blocks.entries, e.2.legacyId = some id
  legacyPair : ∀ p, r.index.hasLegacyPair p = true ↔ ∃ e ∈ d.blocks.entries, ∃ s ∈ e.2.states,
    e.2.legacyId = some p.id ∧ e.2.dataOf s = some p.data
  stateCount : r.index.stateCount = (d.blocks.entries.map fun e => e.2.states.length).sum

namespace Version

section

variable {registry : RegistryId} {name : Name} {b : BlockDescription} {k : BlockKind}
  {s : StateDescription} {t : BlockState}

theorem Matches.shows (matches_ : Matches b s t) (describes : Describes registry name b t.kind)
    (gives : b.Gives s) : t.Shows s := by
  refine ⟨?_, List.forall₂_iff_get.mpr ⟨?_, fun i left right => ?_⟩⟩
  · rw [BlockState.map_fst_encoded, describes.inferred.map_name]
    exact gives.keys.symm
  · have names := congrArg List.length t.map_fst_encoded
    rw [List.length_map, List.length_map] at names
    exact names.symm
  · have here := List.getElem?_eq_getElem left
    obtain ⟨text, d, member, decoded, digit⟩ := matches_.given.given i _ here
    obtain ⟨shown, encoded, like, exact_⟩ := Property.encodeIndex?_of_decodeIndex decoded
    have index := (List.getElem?_eq_some_iff.mp digit).2
    have entry : t.encoded.get ⟨i, right⟩ = (t.kind.properties[i].name, shown) := by
      simp only [List.get_eq_getElem, BlockState.encoded, List.getElem_map, List.getElem_zip, index,
        encoded, Option.getD_some]
    rw [entry]
    exact ⟨text, member, rfl, like, exact_⟩

theorem Matches.stateOfTexts (matches_ : Matches b s t) (describes : Describes registry name b t.kind)
    (gives : b.Gives s) {texts : List (String × String)} (perm : texts.Perm s.values.entries) :
    t.kind.stateOfTexts texts = .ok t := by
  have readables := (readables_iff describes.inferred).mpr gives
  refine BlockKind.stateOfTexts_of_given describes.inferred.names ?_ (fun e member => ?_) rfl ?_
  · exact (perm.map Prod.fst).nodup_iff.mpr s.values.nodup
  · exact readables.readable e (perm.mem_iff.mp member)
  · refine ⟨matches_.given.length, fun i p here => ?_⟩
    obtain ⟨text, d, member, decoded, digit⟩ := matches_.given.given i p here
    exact ⟨text, d, perm.mem_iff.mpr member, decoded, digit⟩

end

section

variable {d : VersionDescription} {r : Registry}

theorem Represents.tells (represents : Represents d r) (wellFormed : d.WellFormed)
    {e : Name × BlockDescription} (member : e ∈ d.blocks.entries) {s : StateDescription}
    (inside : s ∈ e.2.states) : ∃ t, r.Tells e.1 e.2 s t := by
  have faithful := represents.tables.faithful
  have block := wellFormed.blocks e member
  obtain ⟨t, there, describes, matches_⟩ := represents.tables.state member inside
  obtain ⟨old, legacyId, _⟩ := block.legacyId
  have found := (faithful.byRuntimeId s.id t).mpr ⟨there, matches_.runtimeId⟩
  have kind := (faithful.byName e.1 t.kind).mpr ⟨Index.mem_states.mp there, describes.name⟩
  refine ⟨t, ?_, ?_, matches_.runtimeId, describes.name, matches_.shows describes (block.gives s inside),
    ⟨old, legacyId, ?_⟩, matches_.isDefault, fun texts perm => ?_⟩
  · rw [Index.hasRuntimeId, found]
    rfl
  · rw [Index.state, found]
  · rw [matches_.legacy, legacyId]
    rfl
  · rw [Registry.stateOfTexts, Index.kind, kind]
    exact matches_.stateOfTexts describes (block.gives s inside) perm

theorem Represents.knows (represents : Represents d r) : r.Knows d := by
  have tables := represents.tables
  have faithful := tables.faithful
  refine ⟨fun id => ?_, fun name => ?_, fun id => ?_, fun p => ?_, ?_⟩
  · rw [Index.hasRuntimeId_eq_true faithful, ← tables.mem_stateIds]
    simp only [stateIds, List.mem_flatMap, List.mem_map]
  · rw [tables.mem_keys]
    exact Index.hasName_eq_true faithful
  · rw [Index.hasLegacyId_eq_true faithful, ← tables.mem_legacyIds]
    exact List.mem_map
  · rw [Index.hasLegacyPair_eq_true faithful]
    constructor
    · rintro ⟨t, there, legacy⟩
      obtain ⟨e, member, s, inside, _, matches_⟩ := tables.declared there
      exact ⟨e, member, s, inside, matches_.legacyId legacy⟩
    · rintro ⟨e, member, s, inside, old, data⟩
      obtain ⟨t, there, _, matches_⟩ := tables.state member inside
      refine ⟨t, there, ?_⟩
      rw [matches_.legacy, old, data]
      rfl
  · have counts := map_eq_of_forall₂ (f := fun e => e.2.states.length) (g := BlockKind.stateCount)
      tables.kinds fun e k describes => describes.stateCount.symm
    rw [faithful.stateCount, Index.states, List.length_flatMap, counts]
    simp only [BlockKind.length_states]

end

/-- A version's registry is exactly what its description says. -/
theorem build_exact {id : RegistryId} {d : VersionDescription} {global r : Registry}
    (built : (build id d global).result = .ok r) :
    (∀ e ∈ d.blocks.entries, ∀ s ∈ e.2.states, ∃ t, r.Tells e.1 e.2 s t) ∧ r.Knows d := by
  rcases build_cases id d global with ⟨wellFormed, other, same, _, represents⟩ | ⟨_, defect, refused⟩
  · obtain rfl := Except.ok.inj (same.symm.trans built)
    exact ⟨fun e member s inside => represents.tells wellFormed member inside,
      represents.knows⟩
  · rw [built] at refused
    cases refused

def airBlock : BlockDescription := ⟨some 0, none, .empty, .empty, [⟨0, none, true, .empty⟩]⟩

/-- A lamp that is on or off, its states in descending order of their numbers. -/
def lampBlock : BlockDescription :=
  ⟨some 7, none, .empty, ⟨[("lit", ["true", "false"])], by decide⟩, [
    ⟨5, none, false, ⟨[("lit", "TRUE")], by decide⟩⟩,
    ⟨4, some 9, true, ⟨[("lit", "false")], by decide⟩⟩]⟩

def lamps : VersionDescription :=
  ⟨"lamps", ⟨[(.air, airBlock), (.standard "lamp", lampBlock)], by decide⟩, none⟩

def plainBlock (legacyId : UInt16) (id : StateId) : BlockDescription :=
  ⟨some legacyId, none, .empty, .empty, [⟨id, none, true, .empty⟩]⟩

theorem dataOf_plainBlock (legacyId : UInt16) (id : StateId) :
    (plainBlock legacyId id).dataOf ⟨id, none, true, .empty⟩ = some 0 := by
  simp [BlockDescription.dataOf, BlockDescription.lowest, plainBlock]

theorem plainBlock_wellFormed {legacyId : UInt16} {id : StateId} (low : legacyId < 4096)
    (small : id.toNat < 2 ^ 20) : (plainBlock legacyId id).WellFormed where
  legacyId := ⟨legacyId, rfl, low⟩
  properties := by
    show 0 ≤ 16
    omega
  values _ member := absurd member List.not_mem_nil
  count := rfl
  ids s member := by
    obtain rfl := List.mem_singleton.mp member
    exact small
  gives s member := by
    obtain rfl := List.mem_singleton.mp member
    exact ⟨.refl _, fun _ _ _ declared => absurd declared List.not_mem_nil⟩
  apart := List.pairwise_singleton _ _
  data s member m given := by
    obtain rfl := List.mem_singleton.mp member
    cases given
  dataApart := by
    show ([_].filterMap (plainBlock legacyId id).dataOf).Nodup
    rw [List.filterMap_cons_some (dataOf_plainBlock legacyId id)]
    exact List.nodup_singleton _
  default := rfl

theorem airBlock_wellFormed : airBlock.WellFormed :=
  @plainBlock_wellFormed 0 0 (by decide) (by decide)

theorem lampBlock_wellFormed : lampBlock.WellFormed where
  legacyId := ⟨7, rfl, by decide⟩
  properties := by decide
  values e member := by
    obtain rfl := List.mem_singleton.mp member
    exact ⟨⟨by decide, by decide⟩, by decide⟩
  count := rfl
  ids := by decide
  gives s member := by
    have value : ∀ text, text = "TRUE" ∨ text = "false" → IsValue ["true", "false"] text := by
      rintro text (rfl | rfl)
      · exact ⟨"true", by decide, by decide⟩
      · exact ⟨"false", by decide, by decide⟩
    rcases List.mem_pair.mp member with rfl | rfl
    all_goals
      refine ⟨.refl _, fun p values text declared given => ?_⟩
      obtain ⟨_, rfl⟩ := Prod.mk.inj (List.mem_singleton.mp declared)
      obtain ⟨_, rfl⟩ := Prod.mk.inj (List.mem_singleton.mp given)
      exact value _ (by decide)
  apart := by
    refine List.pairwise_pair.mpr fun same => ?_
    exact absurd (same "lit" "TRUE" "false" (by decide) (by decide)) (by decide)
  data s member m given := by
    rcases List.mem_pair.mp member with rfl | rfl
    · cases given
    · cases given
      decide
  dataApart := by decide
  default := rfl

theorem drains_lampBlock {s t : StateDescription} (inS : s ∈ lampBlock.states)
    (inT : t ∈ lampBlock.states) (drains : s.Drains "lit" t) : s.id = 5 ∧ t.id = 4 := by
  obtain ⟨full, yes, likeYes⟩ := drains.full
  obtain ⟨empty, no, likeNo⟩ := drains.empty
  obtain rfl | rfl := List.mem_pair.mp inS
  · obtain rfl | rfl := List.mem_pair.mp inT
    · obtain rfl := (Prod.mk.inj (List.mem_singleton.mp no)).2
      exact absurd likeNo (by decide)
    · exact ⟨rfl, rfl⟩
  · obtain rfl := (Prod.mk.inj (List.mem_singleton.mp yes)).2
    exact absurd likeYes (by decide)

theorem lamps_wellFormed : lamps.WellFormed where
  blocks e member := by
    rcases List.mem_pair.mp member with rfl | rfl
    · exact airBlock_wellFormed
    · exact lampBlock_wellFormed
  legacyIds := by decide
  air := by decide
  ids := by decide
  fluids f given := by cases given

theorem lamps_exact : ∃ global r, (build 1 lamps global).result = .ok r ∧
    (∃ t, r.Tells (.standard "lamp") lampBlock ⟨5, none, false, ⟨[("lit", "TRUE")], by decide⟩⟩ t ∧
      t.legacy = some ⟨7, 1⟩) ∧ r.Knows lamps := by
  obtain ⟨global, _⟩ := Registry.newGlobal_ok 0
  rcases build_cases 1 lamps global with ⟨_, r, built, _⟩ | ⟨bad, _⟩
  · obtain ⟨tells, knows⟩ := build_exact built
    obtain ⟨t, told⟩ := tells (.standard "lamp", lampBlock) (by decide) _ List.mem_cons_self
    refine ⟨global, r, built, ⟨t, told, ?_⟩, knows⟩
    obtain ⟨old, same, legacy⟩ := told.legacy
    obtain rfl := Option.some.inj same
    exact legacy
  · exact absurd lamps_wellFormed bad

end Version
end Voxel
