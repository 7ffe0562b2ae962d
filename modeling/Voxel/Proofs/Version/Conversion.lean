import Voxel.Proofs.Registry.Global
import Voxel.Proofs.Version.Lookup

/-!
# Conversion to the global numbering

`Converts` says what each number of a version becomes, in terms of names and texts, and
`toGlobal_eq_iff_converts` shows that the bridge of a registry leads there and nowhere else.
-/

namespace Voxel

/-- A state takes over the texts of another. Each of its properties has the value of the last text
that it can read under a name that stands for it, or else its kind's default. -/
def BlockDescription.Carries (b : BlockDescription) (u t : BlockState) : Prop :=
  ∀ (i : Nat) (p : Property), t.kind.properties[i]? = some p →
    t.indices[i]? = (b.carried? p u.encoded).or t.kind.defaultState.indices[i]?

theorem BlockDescription.Carries.unique {b : BlockDescription} {u s t : BlockState}
    (kind : s.kind = t.kind) (left : b.Carries u s) (right : b.Carries u t) : s = t := by
  apply BlockState.eq_of_indices kind
  apply List.ext_getElem?
  intro i
  cases here : s.kind.properties[i]? with
  | some p =>
    have there := here
    rw [kind] at there
    rw [left i p here, right i p there, kind]
  | none =>
    have outside := List.getElem?_eq_none_iff.mp here
    rw [List.getElem?_eq_none (s.length_indices ▸ outside),
      List.getElem?_eq_none (t.length_indices ▸ kind ▸ outside)]

namespace Version

/-- What a number of a version becomes globally. -/
inductive Converts (d : VersionDescription) (global r : Registry) (k : StateId) : StateId → Prop
  | unknown (absent : r.index.hasRuntimeId k = false) : Converts d global r k 0
  | unlinked {u : BlockState} {b : BlockDescription} (state : r.index.state k = .ok u)
      (block : (u.name, b) ∈ d.blocks.entries)
      (absent : global.index.hasName (b.globalName u.name) = false) : Converts d global r k 0
  | linked {u t : BlockState} {b : BlockDescription} (state : r.index.state k = .ok u)
      (block : (u.name, b) ∈ d.blocks.entries)
      (kind : global.index.kind (b.globalName u.name) = .ok t.kind)
      (order : u.encoded.map Prod.fst = b.properties.keys) (carries : b.Carries u t) :
      Converts d global r k t.runtimeId

structure Linked (d : VersionDescription) (global : Registry) (u : BlockState)
    (b : BlockDescription) (g : BlockKind) : Prop where
  block : (u.name, b) ∈ d.blocks.entries
  kind : global.index.kind (b.globalName u.name) = .ok g

variable {id : RegistryId} {d : VersionDescription} {global r : Registry}

theorem toGlobal_of_unknown (built : (build id d global).result = .ok r) {k : StateId}
    (absent : r.index.hasRuntimeId k = false) : r.toGlobal k = 0 := by
  obtain ⟨b, bridge, _, leads⟩ := build_bridge built
  have faithful := (build_ok built).2.tables.faithful
  unfold Registry.toGlobal
  rw [bridge]
  apply leads.toGlobal_other
  intro e member same
  have known := (Index.hasRuntimeId_eq_true faithful).mpr ⟨e.1, (mem_images.mp member).1, same⟩
  rw [absent] at known
  cases known

theorem toGlobal_of_state (built : (build id d global).result = .ok r) {u : BlockState}
    (member : u ∈ r.index.states) : r.toGlobal u.runtimeId =
      ((counterpart? global.index d.blocks u).map BlockState.runtimeId).getD 0 := by
  obtain ⟨b, bridge, _, leads⟩ := build_bridge built
  have faithful := (build_ok built).2.tables.faithful
  unfold Registry.toGlobal
  rw [bridge]
  cases found : (counterpart? global.index d.blocks u).map BlockState.runtimeId with
  | some g => exact leads.toGlobal (u, g) (mem_images.mpr ⟨member, found⟩)
  | none =>
    apply leads.toGlobal_other
    intro e image same
    obtain ⟨inside, target⟩ := mem_images.mp image
    have equal : e.1 = u := faithful.eq_of_runtimeId inside member same
    rw [equal, found] at target
    cases target

theorem Linked.counterpart?_eq {u : BlockState} {b : BlockDescription} {g : BlockKind}
    (linked : Linked d global u b g) :
    counterpart? global.index d.blocks u = some (b.translate g u.encoded) := by
  rw [counterpart?, OrderedMap.find?_of_mem linked.block]
  show ((global.index.kind (b.globalName u.name)).toOption.map fun g => b.translate g u.encoded) = _
  rw [linked.kind]
  rfl

theorem isSome_counterpart? {u : BlockState} {b : BlockDescription}
    (block : (u.name, b) ∈ d.blocks.entries) :
    (counterpart? global.index d.blocks u).isSome = global.index.hasName (b.globalName u.name) := by
  rw [counterpart?, OrderedMap.find?_of_mem block, Option.isSome_map]
  exact Index.isSome_toOption_kind

theorem Linked.toGlobal_eq (built : (build id d global).result = .ok r) {u : BlockState}
    (member : u ∈ r.index.states) {b : BlockDescription} {g : BlockKind}
    (linked : Linked d global u b g) :
    r.toGlobal u.runtimeId = (b.translate g u.encoded).runtimeId := by
  rw [toGlobal_of_state built member, linked.counterpart?_eq]
  rfl

theorem toGlobal_of_unlinked (built : (build id d global).result = .ok r) {u : BlockState}
    (member : u ∈ r.index.states) {b : BlockDescription} (block : (u.name, b) ∈ d.blocks.entries)
    (absent : global.index.hasName (b.globalName u.name) = false) : r.toGlobal u.runtimeId = 0 := by
  rw [← isSome_counterpart? block, Option.isSome_eq_false_iff, Option.isNone_iff_eq_none] at absent
  rw [toGlobal_of_state built member, absent]
  rfl

theorem Represents.block (represents : Represents d r) {u : BlockState}
    (member : u ∈ r.index.states) : ∃ b, (u.name, b) ∈ d.blocks.entries ∧
      u.encoded.map Prod.fst = b.properties.keys := by
  obtain ⟨e, inside, describes⟩ := represents.tables.block (Index.mem_states.mp member)
  refine ⟨e.2, ?_, ?_⟩
  · have named : u.name = e.1 := describes.name
    rw [named]
    exact inside
  · rw [BlockState.map_fst_encoded, describes.inferred.map_name]

theorem translate_mem (registered : Registry.Global global) {name : Name} {g : BlockKind}
    (kind : global.index.kind name = .ok g) (b : BlockDescription) (texts : List (String × String)) :
    b.translate g texts ∈ global.index.states := by
  rw [Index.mem_states, BlockDescription.kind_translate]
  exact ((Index.kind_eq_ok_iff registered.sound.index).mp kind).1

theorem Linked.kind_unique (registered : Registry.Global global)
    (built : (build id d global).result = .ok r) {u v : BlockState} {b c : BlockDescription}
    {g h : BlockKind} (left : Linked d global u b g) (right : Linked d global v c h)
    (inU : u ∈ r.index.states) (inV : v ∈ r.index.states)
    (same : r.toGlobal u.runtimeId = r.toGlobal v.runtimeId) : g = h := by
  rw [left.toGlobal_eq built inU, right.toGlobal_eq built inV] at same
  have target := registered.sound.index.eq_of_runtimeId
    (translate_mem registered left.kind b u.encoded)
    (translate_mem registered right.kind c v.encoded) same
  calc g = (b.translate g u.encoded).kind := BlockDescription.kind_translate.symm
    _ = (c.translate h v.encoded).kind := congrArg BlockState.kind target
    _ = h := BlockDescription.kind_translate

theorem carries_translate (registered : Registry.Global global) {b : BlockDescription} {name : Name}
    {g : BlockKind} (kind : global.index.kind name = .ok g) (u : BlockState) :
    b.Carries u (b.translate g u.encoded) := by
  have member := ((Index.kind_eq_ok_iff registered.sound.index).mp kind).1
  intro i p here
  rw [BlockDescription.kind_translate] at here ⊢
  exact BlockDescription.indices_translate (registered.names g member) here

theorem Converts.toGlobal_eq (registered : Registry.Global global)
    (built : (build id d global).result = .ok r) {k g : StateId} (converts : Converts d global r k g) :
    r.toGlobal k = g := by
  have faithful := (build_ok built).2.tables.faithful
  cases converts with
  | unknown absent => exact toGlobal_of_unknown built absent
  | unlinked state block absent =>
    obtain ⟨member, rfl⟩ := (Index.state_eq_ok_iff faithful).mp state
    exact toGlobal_of_unlinked built member block absent
  | @linked u t b state block kind order carries =>
    obtain ⟨member, rfl⟩ := (Index.state_eq_ok_iff faithful).mp state
    have same := BlockDescription.Carries.unique BlockDescription.kind_translate
      (carries_translate registered kind u) carries
    rw [Linked.toGlobal_eq built member ⟨block, kind⟩, same]

theorem exists_converts (registered : Registry.Global global)
    (built : (build id d global).result = .ok r) (k : StateId) : ∃ g, Converts d global r k g := by
  have represents := (build_ok built).2
  have faithful := represents.tables.faithful
  cases known : r.index.hasRuntimeId k with
  | false => exact ⟨0, .unknown known⟩
  | true =>
    obtain ⟨u, member, same⟩ := (Index.hasRuntimeId_eq_true faithful).mp known
    have state := (Index.state_eq_ok_iff faithful).mpr ⟨member, same⟩
    obtain ⟨b, block, order⟩ := represents.block member
    cases named : global.index.hasName (b.globalName u.name) with
    | false => exact ⟨0, .unlinked state block named⟩
    | true =>
      obtain ⟨g, found⟩ := Index.exists_kind named
      have kind : (b.translate g u.encoded).kind = g := BlockDescription.kind_translate
      rw [← kind] at found
      exact ⟨_, .linked state block found order (kind ▸ carries_translate registered found u)⟩

/-- The bridge of a version leads each number to what it converts to, and to nothing else. -/
theorem toGlobal_eq_iff_converts (registered : Registry.Global global)
    (built : (build id d global).result = .ok r) (k g : StateId) :
    r.toGlobal k = g ↔ Converts d global r k g := by
  constructor
  · intro same
    obtain ⟨h, converts⟩ := exists_converts registered built k
    rw [← same, converts.toGlobal_eq registered built]
    exact converts
  · intro converts
    exact converts.toGlobal_eq registered built

/-! ### A lamp that is always on -/

def alwaysLit : Declaration :=
  ⟨.standard "lamp", [⟨"lit", .choice ⟨.text, ["true"], 0, List.nodup_singleton _, by decide⟩⟩], none,
    none⟩

def lampOn : StateDescription := ⟨5, none, false, ⟨[("lit", "TRUE")], List.nodup_singleton _⟩⟩

def lampOff : StateDescription := ⟨4, some 9, true, ⟨[("lit", "false")], List.nodup_singleton _⟩⟩

/-- The global registry has a lamp that is always on, and the version one that goes on and off. -/
structure Lit (global r : Registry) (k : BlockKind) (on off : BlockState) : Prop where
  registered : Registry.Global global
  built : (build 1 lamps global).result = .ok r
  kind : global.index.kind (.standard "lamp") = .ok k
  properties : k.properties = alwaysLit.properties
  on : r.Tells (.standard "lamp") lampBlock lampOn on
  off : r.Tells (.standard "lamp") lampBlock lampOff off

theorem alwaysLit_sound : alwaysLit.Sound where
  few := by decide
  names := List.nodup_singleton _
  sizes p member := by
    obtain rfl := List.mem_singleton.mp member
    decide

theorem exists_lit : ∃ global r k on off, Lit global r k on off := by
  obtain ⟨global, k, registered, kind, properties⟩ := Registry.exists_global alwaysLit_sound rfl
    (by decide) rfl (by decide)
  obtain ⟨_, r, built, _, represents⟩ | ⟨bad, _⟩ := build_cases 1 lamps global
  · have block : (Name.standard "lamp", lampBlock) ∈ lamps.blocks.entries := by decide
    obtain ⟨on, toldOn⟩ := represents.tells lamps_wellFormed block (s := lampOn) (by decide)
    obtain ⟨off, toldOff⟩ := represents.tells lamps_wellFormed block (s := lampOff) (by decide)
    exact ⟨global, r, k, on, off, registered, built, kind, properties, toldOn, toldOff⟩
  · exact absurd lamps_wellFormed bad

section

variable {k : BlockKind} {on off : BlockState} (lit : Lit global r k on off)
include lit

theorem Lit.single {t : BlockState} (kind : t.kind = k) : t = k.defaultState := by
  apply BlockState.eq_of_single kind
  show k.entries.size = 1
  rw [k.size_entries, lit.properties]
  rfl

theorem Lit.linked {s : StateDescription} {t : BlockState}
    (told : r.Tells (.standard "lamp") lampBlock s t) : Linked lamps global t lampBlock k := by
  constructor
  · rw [told.name]
    decide
  · rw [told.name]
    exact lit.kind

end

theorem lamps_toGlobal : ∃ global r k on off, Lit global r k on off ∧
    r.toGlobal 5 = k.defaultState.runtimeId := by
  obtain ⟨global, r, k, on, off, lit⟩ := exists_lit
  refine ⟨global, r, k, on, off, lit, ?_⟩
  obtain ⟨block, kind⟩ := lit.linked lit.on
  have order : on.encoded.map Prod.fst = lampBlock.properties.keys :=
    List.perm_singleton.mp lit.on.texts.keys
  have carries : lampBlock.Carries on (lampBlock.translate k on.encoded) :=
    carries_translate lit.registered kind on
  rw [lit.single BlockDescription.kind_translate] at carries
  apply (toGlobal_eq_iff_converts lit.registered lit.built 5 _).mpr
  exact .linked lit.on.state block kind order carries

end Version
end Voxel
