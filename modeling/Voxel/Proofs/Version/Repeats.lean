import Voxel.Proofs.Json.Text
import Voxel.Proofs.Version.Document
import Voxel.Proofs.Version.Lookup

/-!
# Blocks that a document repeats

A document can give a block twice, under the two spellings of a name or under the same one. The last
of the entries counts (`ofJson_blocks`), so `buildText_lists` finds a block for each entry but for those
whose name comes again.
-/

namespace Voxel

/-! ### The blocks of a document -/

namespace VersionDescription

/-- A document gives blocks by their names, in order. -/
def Gives (root : Json) (given : List (Name × BlockDescription)) : Prop :=
  ∃ fields, root.member? 1 "blocks" = some (.object fields true) ∧
    List.Forall₂ (fun e b => ∃ key, e.1 = some key ∧ Name.ofText? key = some b.1 ∧
      BlockDescription.ofJson e.2 = .ok b.2) fields given

theorem ofJson_blocks {root : Json} {d : VersionDescription} (run : ofJson root = .ok d) :
    ∃ given, Gives root given ∧ d.blocks = .ofList given := by
  obtain ⟨⟨e, seen⟩, record, run⟩ := Outcome.bind_ok run
  unfold requireFields at run
  split at run
  · rename_i all
    cases run
    have there : 1 ∈ seen := by
      have both : 0 ∈ seen ∧ 1 ∈ seen := by simpa using all
      exact both.2
    have keeps : ∀ (s : VersionDescription) n j t, n < fields.length → n ≠ 1 →
        readField s n j = .ok t → t.blocks = s.blocks := by
      intro s n j t _ other read
      match n with
      | 0 =>
        obtain ⟨_, _, read⟩ := Outcome.bind_ok read
        cases read
        rfl
      | 1 => exact absurd rfl other
      | n + 2 =>
        obtain ⟨_, _, read⟩ := Outcome.bind_ok read
        cases read
        rfl
    have sets : ∀ (s : VersionDescription) j t, readField s 1 j = .ok t →
        j.asMap (fun s => Json.asName (.text s)) BlockDescription.ofJson = .ok t.blocks := by
      intro s j t read
      obtain ⟨_, blocks, read⟩ := Outcome.bind_ok read
      cases read
      exact blocks
    obtain ⟨reads, listed⟩ := Json.foldRecord_field (by decide) rfl keeps sets record
    obtain ⟨v, found⟩ := listed there
    rw [found] at reads
    obtain ⟨fields, given, rfl, entries, result⟩ := Json.asMap_ok reads
    refine ⟨given, ⟨fields, found, entries.imp fun e b reads => ?_⟩, result⟩
    obtain ⟨key, present, name, block⟩ := reads
    exact ⟨key, present, Json.asName_text_ok name, block⟩
  · cases run

end VersionDescription

/-- A registry has a block as it was given, with all of its states. -/
structure Registry.Has (r : Registry) (name : Name) (b : BlockDescription) (k : BlockKind) : Prop where
  kind : r.index.kind name = .ok k
  legacyId : k.legacyId = b.legacyId
  stateCount : k.stateCount = b.states.length
  states : ∀ s ∈ b.states, ∃ t, t.kind = k ∧ r.Tells name b s t

/-- A registry has the last of the blocks that were given under each name, and no others. -/
structure Registry.Lists (r : Registry) (given : List (Name × BlockDescription)) : Prop where
  last : ∀ e, OrderedMap.LastOf given e → ∃ k, r.Has e.1 e.2 k
  only : ∀ k ∈ r.index.kinds.toList, ∃ e, OrderedMap.LastOf given e ∧ r.Has e.1 e.2 k
  whole : (given.map Prod.fst).Nodup → ∀ e ∈ given, ∃ k, r.Has e.1 e.2 k

namespace Version

variable {d : VersionDescription} {r : Registry}

theorem Represents.has (represents : Represents d r) (wellFormed : d.WellFormed)
    {e : Name × BlockDescription} (member : e ∈ d.blocks.entries) {k : BlockKind}
    (there : k ∈ r.index.kinds.toList) (describes : Describes r.id e.1 e.2 k) : r.Has e.1 e.2 k := by
  have faithful := represents.tables.faithful
  refine ⟨(Index.kind_eq_ok_iff faithful).mpr ⟨there, describes.name⟩, describes.legacyId,
    describes.stateCount, fun s inside => ?_⟩
  obtain ⟨t, tells⟩ := represents.tells wellFormed member inside
  have state := ((Index.state_eq_ok_iff faithful).mp tells.state).1
  refine ⟨t, ?_, tells⟩
  exact faithful.eq_of_name (Index.mem_states.mp state) there (tells.name.trans describes.name.symm)

theorem Represents.lists (represents : Represents d r) (wellFormed : d.WellFormed)
    {given : List (Name × BlockDescription)} (blocks : d.blocks = .ofList given) : r.Lists given := by
  have member : ∀ {e}, e ∈ d.blocks.entries ↔ OrderedMap.LastOf given e := by
    rw [blocks]
    exact OrderedMap.mem_ofList
  have last : ∀ e, OrderedMap.LastOf given e → ∃ k, r.Has e.1 e.2 k := by
    intro e last
    obtain ⟨k, there, describes⟩ := represents.tables.kind (member.mpr last)
    exact ⟨k, represents.has wellFormed (member.mpr last) there describes⟩
  refine ⟨last, fun k there => ?_, fun distinct e inside => last e ?_⟩
  · obtain ⟨e, inside, describes⟩ := represents.tables.block there
    exact ⟨e, member.mp inside, represents.has wellFormed inside there describes⟩
  · obtain ⟨before, after, rfl⟩ := List.append_of_mem inside
    rw [List.map_append, List.map_cons] at distinct
    exact ⟨before, after, rfl, (List.nodup_cons.mp (List.nodup_append.mp distinct).2.1).1⟩

theorem ofText_error {text : String} {e : BlockError}
    (read : VersionDescription.ofText text = .error e) : ∃ defect, e = .construction defect := by
  unfold VersionDescription.ofText at read
  cases document : (Json.Document.ofText text).read VersionDescription.ofJson with
  | error defect =>
    rw [document] at read
    exact ⟨_, (Except.error.inj read).symm⟩
  | ok d =>
    rw [document] at read
    cases read

theorem ofText_blocks {text : String} {d : VersionDescription}
    (read : VersionDescription.ofText text = .ok d) :
    ∃ given, VersionDescription.Gives (Json.Document.ofText text).root given ∧
      d.blocks = .ofList given := by
  unfold VersionDescription.ofText Json.Document.read at read
  cases root : VersionDescription.ofJson (Json.Document.ofText text).root with
  | error defect =>
    rw [root] at read
    cases read
  | ok e =>
    rw [root, Outcome.ok_bind] at read
    split at read
    · cases read
      exact VersionDescription.ofJson_blocks root
    · cases read

/-- The registry of a document has the last block of each name in it. A document without a registry is
a defect, and describes no version or none that is well-formed. -/
theorem buildText_lists (id : RegistryId) (text : String) (global : Registry) :
    match (buildText id text global).result with
    | .ok r => ∃ given, VersionDescription.Gives (Json.Document.ofText text).root given ∧ r.Lists given
    | .error e => (∃ defect, e = .error (.construction defect)) ∧
      ∀ d, VersionDescription.ofText text = .ok d → ¬ d.WellFormed := by
  unfold buildText
  rw [Report.result_bind, Report.result_liftError]
  cases read : VersionDescription.ofText text with
  | error e =>
    obtain ⟨defect, rfl⟩ := ofText_error read
    exact ⟨⟨_, rfl⟩, nofun⟩
  | ok d =>
    obtain ⟨given, gives, blocks⟩ := ofText_blocks read
    rw [Failure.lift_ok, Outcome.ok_bind]
    obtain ⟨wellFormed, r, built, _, represents⟩ | ⟨bad, defect, refused⟩ := build_cases id d global
    · rw [built]
      exact ⟨given, gives, represents.lists wellFormed blocks⟩
    · rw [refused]
      refine ⟨⟨defect, rfl⟩, fun e same => ?_⟩
      obtain rfl := Except.ok.inj same
      exact bad

/-! ### A stone given twice -/

def plainJson (legacyId id : Nat) : Json :=
  .record [("legacy_id", .nat legacyId),
    ("states", .list [.record [("id", .nat id), ("default", .bool true)]])]

/-- A version with two blocks of one name, which is spelled out the second time. -/
def stonesJson : Json :=
  .record [("version", .text "stones"),
    ("blocks", .record [("minecraft:air", plainJson 0 0), ("stone", plainJson 1 16),
      ("minecraft:stone", plainJson 2 32)])]

def stones : VersionDescription :=
  ⟨"stones", ⟨[(.air, plainBlock 0 0), (.standard "stone", plainBlock 2 32)], by decide⟩, none⟩

theorem plain_plainJson (legacyId id : Nat) : (plainJson legacyId id).Plain := by
  have state : (Json.record [("id", .nat id), ("default", .bool true)]).Plain := by
    refine .record fun f member => ?_
    obtain rfl | rfl := List.mem_pair.mp member
    · exact .number _
    · exact .bool true
  refine .record fun f member => ?_
  obtain rfl | rfl := List.mem_pair.mp member
  · exact .number _
  · exact .list fun j member => List.mem_singleton.mp member ▸ state

theorem plain_stonesJson : stonesJson.Plain := by
  refine .record fun f member => ?_
  obtain rfl | rfl := List.mem_pair.mp member
  · exact .text _
  · refine .record fun g inside => ?_
    simp only [List.mem_cons, List.not_mem_nil, or_false] at inside
    obtain rfl | rfl | rfl := inside <;> exact plain_plainJson _ _

theorem ofText_stonesJson : Json.Document.ofText (stonesJson.pretty 0) = ⟨stonesJson, true⟩ :=
  plain_stonesJson.ofText_pretty

theorem ofJson_stonesJson : VersionDescription.ofJson stonesJson = .ok stones := rfl

theorem gives_stonesJson : VersionDescription.Gives (Json.Document.ofText (stonesJson.pretty 0)).root
    [(.air, plainBlock 0 0), (.standard "stone", plainBlock 1 16),
      (.standard "stone", plainBlock 2 32)] := by
  rw [ofText_stonesJson]
  exact ⟨_, rfl, .cons ⟨_, rfl, by decide, rfl⟩ (.cons ⟨_, rfl, by decide, rfl⟩
    (.cons ⟨_, rfl, by decide, rfl⟩ .nil))⟩

theorem stones_wellFormed : stones.WellFormed where
  blocks e member := by
    obtain rfl | rfl := List.mem_pair.mp member
    · exact plainBlock_wellFormed (by decide) (by decide)
    · exact plainBlock_wellFormed (by decide) (by decide)
  legacyIds := by decide
  air := by decide
  ids := by decide
  fluids _ given := by cases given

/-- A block that is given again is lost, and no error tells of it. -/
theorem not_all_listed : ¬ ∀ (id : RegistryId) (text : String) (global r : Registry),
    (buildText id text global).result = .ok r →
    ∀ given, VersionDescription.Gives (Json.Document.ofText text).root given →
      (given.map Prod.fst).Nodup ∧ ∀ e ∈ given, ∃ k, r.Has e.1 e.2 k := by
  intro all
  obtain ⟨global, _⟩ := Registry.newGlobal_ok 0
  obtain ⟨_, r, built, _⟩ | ⟨bad, _⟩ := build_cases 1 stones global
  · have accepted : (buildText 1 (stonesJson.pretty 0) global).result = .ok r := by
      rw [buildText, Report.result_bind, VersionDescription.ofText, ofText_stonesJson,
        Json.Document.read, ofJson_stonesJson]
      exact built
    obtain ⟨_, kept⟩ := all 1 _ global r accepted _ gives_stonesJson
    -- there is one block of the name, and it has one old number
    obtain ⟨k, first⟩ := kept _ (List.mem_cons_of_mem _ List.mem_cons_self)
    obtain ⟨l, second⟩ := kept _ (List.mem_cons_of_mem _ (List.mem_cons_of_mem _ List.mem_cons_self))
    obtain rfl := Except.ok.inj (first.kind.symm.trans second.kind)
    exact absurd (first.legacyId.symm.trans second.legacyId) (by decide)
  · exact absurd stones_wellFormed bad

end Version

end Voxel
