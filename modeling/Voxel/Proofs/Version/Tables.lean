import Voxel.Proofs.Version.Kinds
import Voxel.Version.Registry

/-!
# Tables of a version

`addKinds_cases` shows which blocks have kinds that fit into one index, and `Tables` says what the
index then holds of them.
-/

namespace Voxel.Version

def stateIds (blocks : List (Name × BlockDescription)) : List StateId :=
  blocks.flatMap fun e => e.2.states.map (·.id)

/-- Blocks that are well-formed and have no number in common. -/
structure Separate (blocks : List (Name × BlockDescription)) : Prop where
  wellFormed : ∀ e ∈ blocks, e.2.WellFormed
  legacyIds : (blocks.map fun e => e.2.legacyId).Nodup
  ids : (stateIds blocks).Nodup

/-- The kinds of an index are those of described blocks. -/
structure Tables (registry : RegistryId) (blocks : List (Name × BlockDescription)) (x : Index) :
    Prop where
  faithful : x.Faithful
  kinds : List.Forall₂ (fun e k => Describes registry e.1 e.2 k) blocks x.kinds.toList

section

variable {registry : RegistryId} {blocks : List (Name × BlockDescription)} {x : Index}

theorem Tables.kind (tables : Tables registry blocks x) {e : Name × BlockDescription}
    (member : e ∈ blocks) : ∃ k ∈ x.kinds.toList, Describes registry e.1 e.2 k :=
  forall₂_of_mem tables.kinds member

theorem Tables.block (tables : Tables registry blocks x) {k : BlockKind}
    (member : k ∈ x.kinds.toList) : ∃ e ∈ blocks, Describes registry e.1 e.2 k :=
  forall₂_of_mem tables.kinds.flip member

theorem Tables.state (tables : Tables registry blocks x) {e : Name × BlockDescription}
    (member : e ∈ blocks) {s : StateDescription} (inside : s ∈ e.2.states) :
    ∃ t ∈ x.states, Describes registry e.1 e.2 t.kind ∧ Matches e.2 s t := by
  obtain ⟨k, there, describes⟩ := tables.kind member
  obtain ⟨t, rfl, matches_⟩ := describes.states s inside
  exact ⟨t, Index.mem_states.mpr there, describes, matches_⟩

theorem Tables.declared (tables : Tables registry blocks x) {t : BlockState} (member : t ∈ x.states) :
    ∃ e ∈ blocks, ∃ s ∈ e.2.states, Describes registry e.1 e.2 t.kind ∧ Matches e.2 s t := by
  obtain ⟨e, there, describes⟩ := tables.block (Index.mem_states.mp member)
  obtain ⟨s, inside, matches_⟩ := describes.declared t rfl
  exact ⟨e, there, s, inside, describes, matches_⟩

theorem Tables.mem_stateIds (tables : Tables registry blocks x) {id : StateId} :
    id ∈ stateIds blocks ↔ ∃ t ∈ x.states, t.runtimeId = id := by
  unfold stateIds
  simp only [List.mem_flatMap, List.mem_map]
  constructor
  · rintro ⟨e, member, s, inside, rfl⟩
    obtain ⟨t, there, _, matches_⟩ := tables.state member inside
    exact ⟨t, there, matches_.runtimeId⟩
  · rintro ⟨t, there, rfl⟩
    obtain ⟨e, member, s, inside, _, matches_⟩ := tables.declared there
    exact ⟨e, member, s, inside, matches_.runtimeId.symm⟩

theorem Tables.mem_legacyIds (tables : Tables registry blocks x) {id : Option UInt16} :
    id ∈ blocks.map (fun e => e.2.legacyId) ↔ ∃ k ∈ x.kinds.toList, k.legacyId = id := by
  simp only [List.mem_map]
  constructor
  · rintro ⟨e, member, rfl⟩
    obtain ⟨k, there, describes⟩ := tables.kind member
    exact ⟨k, there, describes.legacyId⟩
  · rintro ⟨k, there, rfl⟩
    obtain ⟨e, member, describes⟩ := tables.block there
    exact ⟨e, member, describes.legacyId.symm⟩

theorem Matches.legacyId {b : BlockDescription} {s : StateDescription} {t : BlockState}
    (matches_ : Matches b s t) {p : LegacyPair} (legacy : t.legacy = some p) :
    b.legacyId = some p.id ∧ b.dataOf s = some p.data := by
  rw [matches_.legacy] at legacy
  obtain ⟨l, old, legacy⟩ := Option.bind_eq_some_iff.mp legacy
  obtain ⟨m, data, rfl⟩ := Option.map_eq_some_iff.mp legacy
  exact ⟨old, data⟩

theorem separate_snoc {e : Name × BlockDescription} :
    Separate (blocks ++ [e]) ↔ Separate blocks ∧ Buildable e.2 ∧
      e.2.legacyId ∉ blocks.map (fun e => e.2.legacyId) ∧
      ∀ s ∈ e.2.states, s.id ∉ stateIds blocks := by
  have ids : stateIds (blocks ++ [e]) = stateIds blocks ++ e.2.states.map (·.id) := by
    simp [stateIds]
  constructor
  · rintro ⟨wellFormed, legacyIds, distinct⟩
    rw [List.map_append, List.nodup_append] at legacyIds
    rw [ids, List.nodup_append] at distinct
    refine ⟨⟨fun b member => wellFormed b (List.mem_append_left _ member), legacyIds.1, distinct.1⟩,
      ⟨wellFormed e (List.mem_append_right _ (List.mem_singleton_self e)), distinct.2.1⟩,
      fun taken => ?_, fun s member taken => ?_⟩
    · exact legacyIds.2.2 _ taken _ (List.mem_singleton_self _) rfl
    · exact distinct.2.2 _ taken _ (List.mem_map_of_mem member) rfl
  · rintro ⟨⟨wellFormed, legacyIds, distinct⟩, own, old, new⟩
    refine ⟨?_, ?_, ?_⟩
    · intro b member
      rcases List.mem_append.mp member with before | last
      · exact wellFormed b before
      · rw [List.mem_singleton.mp last]
        exact own.wellFormed
    · rw [List.map_append, List.nodup_append]
      refine ⟨legacyIds, List.nodup_singleton _, fun a before c last same => ?_⟩
      rw [List.map_singleton, List.mem_singleton] at last
      exact old (last ▸ same ▸ before)
    · rw [ids, List.nodup_append]
      refine ⟨distinct, own.ids, fun a before c last same => ?_⟩
      obtain ⟨s, member, rfl⟩ := List.mem_map.mp last
      exact new s member (same ▸ before)

theorem Tables.free_iff (tables : Tables registry blocks x) {e : Name × BlockDescription}
    {k : BlockKind} (describes : Describes registry e.1 e.2 k) (own : Buildable e.2)
    (name : e.1 ∉ blocks.map Prod.fst) :
    x.Free k ↔ e.2.legacyId ∉ blocks.map (fun e => e.2.legacyId) ∧
      ∀ s ∈ e.2.states, s.id ∉ stateIds blocks := by
  obtain ⟨old, given, _⟩ := own.wellFormed.legacyId
  constructor
  · intro free
    refine ⟨fun taken => ?_, fun s member taken => ?_⟩
    · obtain ⟨j, there, same⟩ := tables.mem_legacyIds.mp taken
      exact free.legacyId j there old (describes.legacyId.trans given) (same.trans given)
    · obtain ⟨t, there, same⟩ := tables.mem_stateIds.mp taken
      obtain ⟨u, kind, matches_⟩ := describes.states s member
      exact (free.states u (BlockKind.mem_states.mpr kind)).runtimeId t there
        (same.trans matches_.runtimeId.symm)
  · rintro ⟨legacyIds, ids⟩
    have apart : ∀ j ∈ x.kinds.toList, j.legacyId ≠ e.2.legacyId := fun j there same =>
      legacyIds (tables.mem_legacyIds.mpr ⟨j, there, same⟩)
    refine ⟨fun j there same => ?_, fun j there id legacy same => ?_, fun u member => ⟨?_, ?_⟩⟩
    · obtain ⟨b, inside, other⟩ := tables.block there
      rw [other.name, describes.name] at same
      exact name (same ▸ List.mem_map_of_mem inside)
    · exact apart j there (same.trans (legacy.symm.trans describes.legacyId))
    · intro t there same
      obtain ⟨s, inside, matches_⟩ := describes.declared u (BlockKind.mem_states.mp member)
      refine ids s inside (tables.mem_stateIds.mpr ⟨t, there, ?_⟩)
      exact same.trans matches_.runtimeId
    · -- equal pairs of old numbers have equal first parts
      intro t there p new taken
      obtain ⟨s, _, matches_⟩ := describes.declared u (BlockKind.mem_states.mp member)
      obtain ⟨b, _, r, _, other, known⟩ := tables.declared there
      refine apart t.kind (Index.mem_states.mp there) (other.legacyId.trans ?_)
      exact (known.legacyId taken).1.trans (matches_.legacyId new).1.symm

theorem Tables.snoc (tables : Tables registry blocks x) {e : Name × BlockDescription} {k : BlockKind}
    (describes : Describes registry e.1 e.2 k) (free : x.Free k) :
    Tables registry (blocks ++ [e]) (x.add k) := by
  refine ⟨Index.add_faithful tables.faithful describes.distinct free, ?_⟩
  rw [Index.kinds_add]
  exact List.rel_append tables.kinds (.cons describes .nil)

end

/-- Blocks have an index exactly if they are separate, and are a defect otherwise. -/
theorem addKinds_cases {registry : RegistryId} (version : String)
    (rest done : List (Name × BlockDescription)) (x : Index) (tables : Tables registry done x)
    (apart : Separate done) (names : ((done ++ rest).map Prod.fst).Nodup) :
    (Separate (done ++ rest) ∧
      ∃ y, (addKinds registry version x rest).result = .ok y ∧ Tables registry (done ++ rest) y) ∨
    (¬ Separate (done ++ rest) ∧ ∃ defect,
      (addKinds registry version x rest).result = .error (.error (.construction defect))) := by
  induction rest generalizing done x with
  | nil => exact Or.inl ⟨by rwa [List.append_nil], x, rfl, by rwa [List.append_nil]⟩
  | cons e rest ih =>
    obtain ⟨name, b⟩ := e
    have regroup : done ++ (name, b) :: rest = (done ++ [(name, b)]) ++ rest := by simp
    have shorter : Separate (done ++ (name, b) :: rest) → Separate (done ++ [(name, b)]) := by
      rw [regroup]
      rintro ⟨wellFormed, legacyIds, ids⟩
      rw [List.map_append] at legacyIds
      rw [stateIds, List.flatMap_append] at ids
      exact ⟨fun b member => wellFormed b (List.mem_append_left _ member),
        (List.nodup_append.mp legacyIds).1, (List.nodup_append.mp ids).1⟩
    have new : name ∉ done.map Prod.fst := by
      rw [List.map_append, List.map_cons, List.nodup_append] at names
      exact fun taken => names.2.2 name taken name List.mem_cons_self rfl
    rw [addKinds, Report.result_bind]
    rcases buildKind_cases registry name b with ⟨own, k, built, describes⟩ | ⟨bad, defect, built⟩
    swap
    · refine Or.inr ⟨fun all => bad (separate_snoc.mp (shorter all)).2.1, defect, ?_⟩
      rw [built]
      rfl
    rw [built, Outcome.ok_bind, Report.result_bind, Report.result_liftError]
    have free := tables.free_iff (e := (name, b)) describes own new
    cases inserted : x.insert k with
    | error c =>
      refine Or.inr ⟨fun all => ?_, .version (.clash version c), rfl⟩
      obtain ⟨_, _, apart⟩ := separate_snoc.mp (shorter all)
      rw [(Index.insert_eq_ok_iff tables.faithful describes.distinct).mpr ⟨free.mpr apart, rfl⟩]
        at inserted
      cases inserted
    | ok y =>
      obtain ⟨fits, rfl⟩ := (Index.insert_eq_ok_iff tables.faithful describes.distinct).mp
        inserted
      rw [regroup] at names ⊢
      exact ih (done ++ [(name, b)]) (x.add k) (tables.snoc describes fits)
        (separate_snoc.mpr ⟨apart, own, free.mp fits⟩) names

end Voxel.Version
