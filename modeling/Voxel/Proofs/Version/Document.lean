import Mathlib.Data.List.Induction
import Voxel.Proofs.Json
import Voxel.Proofs.Version.Order

/-!
# Descriptions as documents

A description is read as what it was written from, whatever order its maps are written in, if the names
in it are proper (`ofJson_toJson` for each of its records). `readsProperties` is the reading of properties,
which fails exactly at the first name that comes again, and `survives` the whole of it.
-/

namespace Voxel

open Json (Read Taken)

theorem Json.Taken.read {σ : Type} {names : List String} {step : σ → Nat → Json → Read σ}
    {needed : List Nat} {s t : σ} {fields : List (String × Json)} (distinct : names.Nodup)
    (taken : Taken names step needed 0 s fields t) :
    ((Json.record fields).foldRecord names step s >>= requireFields needed) = .ok t := by
  obtain ⟨places, run, there⟩ := taken.foldRecord_ok distinct
  rw [run, Outcome.ok_bind, requireFields, if_pos]
  simpa using there

theorem StateDescription.ofJson_toJson (s : StateDescription) : ofJson s.toJson = .ok s := by
  obtain ⟨id, data, isDefault, values⟩ := s
  have readId : readField ⟨0, none, false, .empty⟩ 0 (.nat id.toNat) =
      .ok ⟨id, none, false, .empty⟩ := by
    simp only [readField, Json.asNatBelow_nat id.toNat_lt, Outcome.ok_bind, UInt32.ofNat_toNat]
    rfl
  have readData : ∀ m, data = some m → readField ⟨id, none, false, .empty⟩ 1 (.nat m.toNat) =
      .ok ⟨id, data, false, .empty⟩ := by
    rintro m rfl
    simp only [readField, Json.asOption_nat m.toNat_lt, UInt8.ofNat_toNat]
    rfl
  have readValues : readField ⟨id, data, isDefault, .empty⟩ 3
      (.record (values.entries.map fun e => (e.1, .text e.2))) = .ok ⟨id, data, isDefault, values⟩ := by
    simp only [readField, Json.asMap_texts]
    rfl
  have readDefault : readField ⟨id, data, false, .empty⟩ 2 (.bool isDefault) =
      .ok ⟨id, data, isDefault, .empty⟩ := rfl
  have last : Taken fields readField [0] 2 ⟨id, data, false, .empty⟩
      [("default", .bool isDefault),
        ("properties", .record (values.entries.map fun e => (e.1, .text e.2)))]
      ⟨id, data, isDefault, values⟩ :=
    .take rfl readDefault (.take rfl readValues (.nil (by decide)))
  refine Taken.read (by decide) (.take rfl readId ?_)
  exact Taken.option rfl (by decide) (by rintro rfl; rfl) readData last

/-! ### Properties -/

namespace BlockDescription

def addProperty (m : OrderedMap String (List String)) (e : String × List String) :
    Read (OrderedMap String (List String)) :=
  if m.contains e.1 then .error (.repeatedProperty e.1) else .ok (m.insert e.1 e.2)

theorem propertiesOfJson_eq (entries : List (String × List String)) :
    propertiesOfJson (propertiesToJson entries) = entries.foldlM addProperty .empty := by
  rw [propertiesToJson, propertiesOfJson, Json.foldFields_record, List.foldlM_map]
  congr 1
  funext m e
  obtain ⟨k, values⟩ := e
  have texts : Json.asList Json.asText (.list (values.map .text)) = .ok values :=
    Json.asList_list fun _ _ => rfl
  simp only [texts, Outcome.ok_bind, addProperty]
  split <;> rfl

theorem foldlM_addProperty {entries : List (String × List String)}
    (distinct : (entries.map Prod.fst).Nodup) :
    ∃ m, entries.foldlM addProperty .empty = .ok m ∧ m.entries = entries := by
  have inserted : ∀ m, ∀ e ∈ entries, e.1 ∉ m.keys → addProperty m e = .ok (m.insert e.1 e.2) := by
    intro m e _ new
    rw [addProperty, if_neg (by rwa [OrderedMap.contains_eq_true_iff])]
  obtain ⟨m, run, same⟩ := Json.foldlM_insert entries .empty inserted distinct
  exact ⟨m, run, same.trans (List.map_id _)⟩

theorem propertiesOfJson_ok {entries : List (String × List String)}
    (distinct : (entries.map Prod.fst).Nodup) :
    propertiesOfJson (propertiesToJson entries) = .ok ⟨entries, distinct⟩ := by
  obtain ⟨m, run, same⟩ := foldlM_addProperty distinct
  rw [propertiesOfJson_eq, run]
  exact congrArg Except.ok (OrderedMap.eq_of_entries same)

theorem propertiesOfJson_error {before : List (String × List String)} {k : String}
    (values : List String) (after : List (String × List String))
    (distinct : (before.map Prod.fst).Nodup) (again : k ∈ before.map Prod.fst) :
    propertiesOfJson (propertiesToJson (before ++ (k, values) :: after)) =
      .error (.repeatedProperty k) := by
  obtain ⟨m, run, same⟩ := foldlM_addProperty distinct
  have known : m.contains k = true := by
    rw [OrderedMap.contains_eq_true_iff, OrderedMap.keys, same]
    exact again
  rw [propertiesOfJson_eq, List.foldlM_append, run, Outcome.ok_bind, List.foldlM_cons,
    addProperty, if_pos known, Outcome.error_bind]

end BlockDescription

theorem exists_again {α κ : Type} {key : α → κ} {l : List α} (again : ¬ (l.map key).Nodup) :
    ∃ before a after, l = before ++ a :: after ∧ (before.map key).Nodup ∧ key a ∈ before.map key := by
  induction l using List.reverseRecOn with
  | nil => exact absurd .nil again
  | append_singleton l a ih =>
    by_cases distinct : (l.map key).Nodup
    · refine ⟨l, a, [], rfl, distinct, ?_⟩
      by_contra new
      apply again
      rw [List.map_append, List.map_singleton]
      exact List.nodup_append.mpr ⟨distinct, List.nodup_singleton _, by simpa using new⟩
    · obtain ⟨before, b, after, rfl, first, there⟩ := ih distinct
      exact ⟨before, b, after ++ [a], by simp, first, there⟩

/-! ### Blocks -/

def BlockDescription.Named (b : BlockDescription) : Prop := ∀ n, b.global = some n → n.Proper

theorem BlockDescription.ofJson_toJson {b : BlockDescription} (named : b.Named) :
    ofJson b.toJson = .ok b := by
  obtain ⟨legacyId, global, renames, properties, states⟩ := b
  have readLegacyId : readField ⟨none, none, .empty, .empty, []⟩ 0
      ((legacyId.map fun id => Json.nat id.toNat).getD .null) =
        .ok ⟨legacyId, none, .empty, .empty, []⟩ := by
    cases legacyId with
    | none => rfl
    | some id =>
      simp only [readField, Option.map_some, Option.getD_some, Json.asOption_nat id.toNat_lt,
        UInt16.ofNat_toNat]
      rfl
  have readGlobal : ∀ n, global = some n →
      readField ⟨legacyId, none, .empty, .empty, []⟩ 1 (.text n.text) =
        .ok ⟨legacyId, global, .empty, .empty, []⟩ := by
    rintro n rfl
    simp only [readField, Json.asOption_ok rfl (Json.asName_text (named n rfl))]
    rfl
  have readRenames : readField ⟨legacyId, global, .empty, .empty, []⟩ 2
      (.record (renames.entries.map fun e => (e.1, .text e.2))) =
        .ok ⟨legacyId, global, renames, .empty, []⟩ := by
    simp only [readField, Json.asMap_texts]
    rfl
  have readProperties : readField ⟨legacyId, global, renames, .empty, []⟩ 3
      (propertiesToJson properties.entries) = .ok ⟨legacyId, global, renames, properties, []⟩ := by
    simp only [readField, propertiesOfJson_ok properties.nodup]
    rfl
  have readStates : readField ⟨legacyId, global, renames, properties, []⟩ 4
      (.list (states.map StateDescription.toJson)) =
        .ok ⟨legacyId, global, renames, properties, states⟩ := by
    simp only [readField, Json.asList_list fun s _ => StateDescription.ofJson_toJson s]
    rfl
  -- from the last field to the first, as one that is left out depends on what follows
  have last : Taken fields readField [4] 3 ⟨legacyId, global, renames, .empty, []⟩
      [("properties", propertiesToJson properties.entries),
        ("states", .list (states.map StateDescription.toJson))]
      ⟨legacyId, global, renames, properties, states⟩ :=
    .take rfl readProperties (.take rfl readStates (.nil (by decide)))
  have later : Taken fields readField [4] 2 ⟨legacyId, global, .empty, .empty, []⟩
      ((if renames.entries.isEmpty then []
        else [("global_traits", .record (renames.entries.map fun e => (e.1, .text e.2)))]) ++
        [("properties", propertiesToJson properties.entries),
          ("states", .list (states.map StateDescription.toJson))])
      ⟨legacyId, global, renames, properties, states⟩ := by
    refine Taken.optional rfl (by decide) ?_ last
    by_cases none : renames.entries.isEmpty = true
    · have empty : renames = .empty := OrderedMap.eq_of_entries (List.isEmpty_iff.mp none)
      exact Or.inl ⟨if_pos none, by rw [empty]⟩
    · exact Or.inr ⟨_, if_neg none, readRenames⟩
  simp only [toJson, List.append_assoc, List.cons_append, List.nil_append]
  refine Taken.read (by decide) (.take rfl readLegacyId ?_)
  exact Taken.option rfl (by decide) (by rintro rfl; rfl) readGlobal later

/-! ### Versions -/

structure FluidDescription.Named (f : FluidDescription) : Prop where
  liquids : ∀ n ∈ f.liquids, n.Proper
  fluid : ∀ n, f.fluid = some n → n.Proper

theorem FluidDescription.ofJson_toJson {f : FluidDescription} (named : f.Named) :
    ofJson f.toJson = .ok f := by
  obtain ⟨liquids, waterlogged, fluid⟩ := f
  have readLiquids : readField ⟨[], none, none⟩ 0 (.list (liquids.map fun n => .text n.text)) =
      .ok ⟨liquids, none, none⟩ := by
    simp only [readField, Json.asList_list fun n member => Json.asName_text (named.liquids n member)]
    rfl
  have readWaterlogged : ∀ p, waterlogged = some p →
      readField ⟨liquids, none, none⟩ 1 (.text p) = .ok ⟨liquids, waterlogged, none⟩ := by
    rintro p rfl
    rfl
  have readFluid : ∀ n, fluid = some n → readField ⟨liquids, waterlogged, none⟩ 2 (.text n.text) =
      .ok ⟨liquids, waterlogged, fluid⟩ := by
    rintro n rfl
    simp only [readField, Json.asOption_ok rfl (Json.asName_text (named.fluid n rfl))]
    rfl
  have last : Taken fields readField [] 2 ⟨liquids, waterlogged, none⟩
      (fluid.map fun n => ("waterlogged_fluid", Json.text n.text)).toList
        ⟨liquids, waterlogged, fluid⟩ := by
    rw [← List.append_nil (Option.toList _)]
    exact Taken.option rfl (by decide) (by rintro rfl; rfl) readFluid (.nil (by decide))
  simp only [toJson, List.cons_append, List.nil_append]
  refine Taken.read (by decide) (.take rfl readLiquids ?_)
  exact Taken.option rfl (by decide) (by rintro rfl; rfl) readWaterlogged last

/-- A description of which every name is proper. -/
structure VersionDescription.Named (d : VersionDescription) : Prop where
  blocks : ∀ e ∈ d.blocks.entries, e.1.Proper ∧ e.2.Named
  fluids : ∀ f, d.fluids = some f → f.Named

theorem VersionDescription.ofJson_toJson {d : VersionDescription} (named : d.Named) :
    ofJson d.toJson = .ok d := by
  obtain ⟨version, blocks, fluids⟩ := d
  have readVersion : readField ⟨"", .empty, none⟩ 0 (.text version) = .ok ⟨version, .empty, none⟩ := rfl
  have readBlocks : readField ⟨version, .empty, none⟩ 1
      (.record (blocks.entries.map fun e => (e.1.text, e.2.toJson))) =
        .ok ⟨version, blocks, none⟩ := by
    have written : Json.asMap (fun s => Json.asName (.text s)) BlockDescription.ofJson
        (.record (blocks.entries.map fun e => (e.1.text, e.2.toJson))) = .ok blocks :=
      Json.asMap_record Name.text BlockDescription.toJson blocks
        (fun e member => Json.asName_text (named.blocks e member).1)
        fun e member => BlockDescription.ofJson_toJson (named.blocks e member).2
    simp only [readField, written]
    rfl
  have readFluids : ∀ f, fluids = some f →
      readField ⟨version, blocks, none⟩ 2 f.toJson = .ok ⟨version, blocks, fluids⟩ := by
    rintro f rfl
    simp only [readField, Json.asOption_ok rfl (FluidDescription.ofJson_toJson (named.fluids f rfl))]
    rfl
  have last : Taken fields readField [0, 1] 2 ⟨version, blocks, none⟩
      (fluids.map fun f => ("fluids", f.toJson)).toList ⟨version, blocks, fluids⟩ := by
    rw [← List.append_nil (Option.toList _)]
    exact Taken.option rfl (by decide) (by rintro rfl; rfl) readFluids (.nil (i := 3) (by decide))
  simp only [toJson, List.cons_append, List.nil_append]
  exact Taken.read (by decide) (.take rfl readVersion (.take rfl readBlocks last))

/-! ### Writing, reading and building -/

namespace BlockDescription

/-- Properties in a document are refused exactly if a name comes again, at the first that does, and are
kept in the order of the document otherwise. -/
structure ReadsProperties (entries : List (String × List String)) : Prop where
  fails : (∃ defect, propertiesOfJson (propertiesToJson entries) = .error defect) ↔
    ¬ (entries.map Prod.fst).Nodup
  first : ∀ defect, propertiesOfJson (propertiesToJson entries) = .error defect →
    ∃ before k values after, entries = before ++ (k, values) :: after ∧
      (before.map Prod.fst).Nodup ∧ k ∈ before.map Prod.fst ∧ defect = .repeatedProperty k
  order : ∀ m, propertiesOfJson (propertiesToJson entries) = .ok m → m.entries = entries

theorem readsProperties (entries : List (String × List String)) : ReadsProperties entries := by
  by_cases distinct : (entries.map Prod.fst).Nodup
  · have run := propertiesOfJson_ok distinct
    refine ⟨iff_of_false ?_ (not_not.mpr distinct), fun defect failed => ?_, fun m given => ?_⟩
    · rintro ⟨defect, failed⟩
      rw [run] at failed
      cases failed
    · rw [run] at failed
      cases failed
    · obtain rfl := Except.ok.inj (run.symm.trans given)
      rfl
  · obtain ⟨before, ⟨name, values⟩, after, rfl, first, again⟩ := exists_again distinct
    have run := propertiesOfJson_error values after first again
    refine ⟨iff_of_true ⟨_, run⟩ distinct, fun defect failed => ?_, fun m given => ?_⟩
    · obtain rfl := Except.error.inj (run.symm.trans failed)
      exact ⟨before, name, values, after, rfl, first, again, rfl⟩
    · rw [run] at given
      cases given

end BlockDescription

theorem VersionDescription.Named.alike {d e : VersionDescription} (named : d.Named)
    (alike : d.Alike e) : e.Named := by
  refine ⟨fun c member => ?_, fun f given => named.fluids f (alike.fluids.trans given)⟩
  obtain ⟨b, there, name, block⟩ := forall₂_of_mem alike.blocks.flip member
  obtain ⟨proper, global⟩ := named.blocks b there
  exact ⟨name ▸ proper, fun n given => global n (block.global.trans given)⟩

/-- What becomes of a description that is written, with its maps in any order, and read again. -/
structure VersionDescription.Survives (d : VersionDescription) : Prop where
  read : ∀ e, d.Alike e → ofJson e.toJson = .ok e
  text : ∀ e text, d.Alike e → Json.Document.ofText text = ⟨e.toJson, true⟩ → ofText text = .ok e
  builds : ∀ e, d.Alike e → ∀ id global,
    (∃ r, (Version.build id d global).result = .ok r ∧ (Version.build id e global).result = .ok r) ∨
    (∃ defect other, (Version.build id d global).result = .error (.error (.construction defect)) ∧
      (Version.build id e global).result = .error (.error (.construction other)))

/-- A description with proper names survives being written and read, and properties in a document are
read in order or refused for a repeated name. -/
theorem VersionDescription.survives {d : VersionDescription} (named : d.Named) :
    d.Survives ∧ ∀ entries, BlockDescription.ReadsProperties entries := by
  refine ⟨⟨fun e alike => ?_, fun e text alike given => ?_, fun e alike id global => ?_⟩,
    BlockDescription.readsProperties⟩
  · exact ofJson_toJson (named.alike alike)
  · rw [ofText, given, Json.Document.read, ofJson_toJson (named.alike alike)]
    rfl
  · exact Version.build_alike id alike global

-- a text that is read as what was written
example : Json.Document.ofText (VersionDescription.toJson ⟨"1.2", .empty, none⟩).compact =
    ⟨VersionDescription.toJson ⟨"1.2", .empty, none⟩, true⟩ := by cbv

def lantern (id : StateId) (data : Option UInt8) (isDefault : Bool) (lit soaked : String) :
    StateDescription :=
  ⟨id, data, isDefault, ⟨[("soaked", soaked), ("lit", lit)], by simp⟩⟩

def lanterns : VersionDescription where
  version := "1.2"
  blocks := ⟨[
    (.air, ⟨some 0, none, .empty, .empty, [⟨0, none, true, .empty⟩]⟩),
    (.standard "lantern", ⟨some 7, some ⟨"old", "lamp"⟩,
      ⟨[("soaked", "wet"), ("lit", "on")], by decide⟩,
      ⟨[("soaked", ["false", "true"]), ("lit", ["true", "false"])], by decide⟩,
      [lantern 112 none false "true" "false", lantern 113 (some 9) true "false" "false",
        lantern 114 none false "true" "true", lantern 115 (some 4) false "false" "true"]⟩)],
    by decide⟩
  fluids := some ⟨[], some "soaked", none⟩

theorem proper_lantern : (Name.standard "lantern").Proper := ⟨by decide, by decide, by decide⟩

theorem lanterns_named : lanterns.Named := by
  refine ⟨List.forall_mem_cons.mpr ⟨⟨⟨by decide, by decide, by decide⟩, nofun⟩,
    List.forall_mem_cons.mpr ⟨⟨proper_lantern, ?_⟩, nofun⟩⟩, ?_⟩
  · rintro _ ⟨⟩
    exact ⟨by decide, by decide, by decide⟩
  · rintro _ ⟨⟩
    exact ⟨nofun, nofun⟩

theorem lanterns_survive : lanterns.Named ∧
    VersionDescription.ofJson lanterns.arranged.toJson = .ok lanterns.arranged ∧
    ∃ defect, BlockDescription.propertiesOfJson
      (BlockDescription.propertiesToJson [("lit", []), ("soaked", []), ("lit", [])]) = .error defect := by
  obtain ⟨survives, properties⟩ := VersionDescription.survives lanterns_named
  refine ⟨lanterns_named, survives.read _ lanterns.alike_arranged, ?_⟩
  exact (properties _).fails.mpr (by decide)

end Voxel
