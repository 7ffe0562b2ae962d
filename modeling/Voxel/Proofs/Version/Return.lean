import Voxel.Proofs.Version.Conversion

/-!
# The way back from the global numbering

Of the states that become a global number, the way back takes the first default state, or else the
first (`fromGlobal_eq`). It leads back to the number it came from (`toGlobal_fromGlobal`).
-/

namespace Voxel

/-- The states of the blocks that have a global kind, in the order of the version. -/
def VersionDescription.linked (d : VersionDescription) (global r : Registry) : List BlockState :=
  d.blocks.entries.flatMap fun e =>
    if global.index.hasName (e.2.globalName e.1) then
      match r.index.kind e.1 with
      | .ok k => k.states
      | .error _ => []
    else []

/-- The states that become a global number. -/
def VersionDescription.sources (d : VersionDescription) (global r : Registry) (g : StateId) :
    List BlockState :=
  (d.linked global r).filter fun s => r.toGlobal s.runtimeId = g

namespace Version

/-! ### Preferred states -/

theorem preferred_eq_none_iff {states : List BlockState} : preferred states = none ↔ states = [] := by
  cases states with
  | nil => simp [preferred]
  | cons s rest => simp [preferred]

theorem mem_of_preferred {states : List BlockState} {s : BlockState}
    (found : preferred states = some s) : s ∈ states := by
  unfold preferred at found
  obtain first | ⟨_, first⟩ := Option.or_eq_some_iff.mp found
  · exact List.mem_of_find?_eq_some first
  · exact List.mem_of_mem_head? first

/-! ### Linked states -/

variable {id : RegistryId} {d : VersionDescription} {global r : Registry}

theorem linked_eq (represents : Represents d r) : d.linked global r =
    r.index.states.filter fun s => (counterpart? global.index d.blocks s).isSome := by
  have faithful := represents.tables.faithful
  unfold VersionDescription.linked Index.states
  rw [List.filter_flatMap]
  apply flatMap_eq_of_forall₂ represents.tables.kinds
  intro e inside k member describes
  have named : k.name = e.1 := describes.name
  have linked : ∀ s ∈ k.states, (counterpart? global.index d.blocks s).isSome =
      global.index.hasName (e.2.globalName e.1) := by
    intro s state
    have same : s.name = e.1 := (congrArg BlockKind.name (BlockKind.mem_states.mp state)).trans named
    rw [← same]
    apply isSome_counterpart?
    rw [same]
    exact inside
  rw [(Index.kind_eq_ok_iff faithful).mpr ⟨member, named⟩, List.filter_congr linked]
  cases global.index.hasName (e.2.globalName e.1) <;> simp

theorem mem_linked (represents : Represents d r) {s : BlockState} :
    s ∈ d.linked global r ↔ s ∈ r.index.states ∧ ∃ b g, Linked d global s b g := by
  rw [linked_eq represents, List.mem_filter]
  apply and_congr_right
  intro member
  obtain ⟨b, block, _⟩ := represents.block member
  constructor
  · intro known
    rw [isSome_counterpart? block] at known
    obtain ⟨g, found⟩ := Index.exists_kind known
    exact ⟨b, g, block, found⟩
  · intro h
    obtain ⟨c, g, linked⟩ := h
    rw [linked.counterpart?_eq]
    rfl

theorem toGlobal_of_linked (registered : Registry.Global global)
    (built : (build id d global).result = .ok r) {s : BlockState} (member : s ∈ d.linked global r) :
    global.index.hasRuntimeId (r.toGlobal s.runtimeId) = true := by
  obtain ⟨inside, b, g, linked⟩ := (mem_linked (build_ok built).2).mp member
  rw [linked.toGlobal_eq built inside]
  apply (Index.hasRuntimeId_eq_true registered.sound.index).mpr
  exact ⟨b.translate g s.encoded, translate_mem registered linked.kind b s.encoded, rfl⟩

theorem sources_eq (built : (build id d global).result = .ok r) {g : StateId} :
    d.sources global r g =
      ((images global.index d.blocks r.index.states).filter fun e => e.2 = g).map Prod.fst := by
  unfold VersionDescription.sources
  rw [linked_eq (build_ok built).2, ← map_fst_images, List.filter_map]
  congr 1
  apply List.filter_congr
  intro e member
  obtain ⟨inside, found⟩ := mem_images.mp member
  show decide (r.toGlobal e.1.runtimeId = g) = decide (e.2 = g)
  rw [toGlobal_of_state built inside, found, Option.getD_some]

theorem mem_sources {g : StateId} {s : BlockState} :
    s ∈ d.sources global r g ↔ s ∈ d.linked global r ∧ r.toGlobal s.runtimeId = g := by
  unfold VersionDescription.sources
  rw [List.mem_filter, decide_eq_true_eq]

/-! ### The way back -/

theorem sources_of_unregistered (registered : Registry.Global global)
    (built : (build id d global).result = .ok r) {g : StateId}
    (absent : global.index.hasRuntimeId g = false) : d.sources global r g = [] := by
  apply List.eq_nil_iff_forall_not_mem.mpr
  intro s member
  obtain ⟨linked, rfl⟩ := mem_sources.mp member
  rw [toGlobal_of_linked registered built linked] at absent
  cases absent

theorem fromGlobal_eq (registered : Registry.Global global)
    (built : (build id d global).result = .ok r) (g : StateId) : r.fromGlobal g =
      ((preferred (d.sources global r g)).map BlockState.runtimeId).getD r.air.runtimeId := by
  obtain ⟨b, bridge, air, leads⟩ := build_bridge built
  unfold Registry.fromGlobal
  rw [bridge]
  by_cases below : g.toNat < global.index.limit
  · rw [sources_eq built, ← air]
    exact leads.fromGlobal g below
  · have absent : global.index.hasRuntimeId g = false := by
      apply Bool.eq_false_iff.mpr
      intro known
      exact below (Index.lt_limit_of_hasRuntimeId known)
    rw [sources_of_unregistered registered built absent, ← air]
    exact leads.fromGlobal_other g (Nat.not_lt.mp below)

theorem toGlobal_fromGlobal (registered : Registry.Global global)
    (built : (build id d global).result = .ok r) {g : StateId}
    (reached : d.sources global r g ≠ []) : r.toGlobal (r.fromGlobal g) = g := by
  rw [fromGlobal_eq registered built]
  cases chosen : preferred (d.sources global r g) with
  | none => exact absurd (preferred_eq_none_iff.mp chosen) reached
  | some s => exact (mem_sources.mp (mem_of_preferred chosen)).2

/-- The way back from the global numbering is the preferred inverse of the way there. -/
structure Inverts (d : VersionDescription) (global r : Registry) : Prop where
  fromGlobal : ∀ g, r.fromGlobal g =
    ((preferred (d.sources global r g)).map BlockState.runtimeId).getD r.air.runtimeId
  toGlobal : ∀ g, d.sources global r g ≠ [] → r.toGlobal (r.fromGlobal g) = g
  unregistered : ∀ g, global.index.hasRuntimeId g = false → r.fromGlobal g = r.air.runtimeId
  stable : ∀ s ∈ d.linked global r,
    r.toGlobal (r.fromGlobal (r.toGlobal s.runtimeId)) = r.toGlobal s.runtimeId

theorem build_inverts (registered : Registry.Global global)
    (built : (build id d global).result = .ok r) : Inverts d global r where
  fromGlobal := fromGlobal_eq registered built
  toGlobal _ reached := toGlobal_fromGlobal registered built reached
  unregistered g absent := by
    rw [fromGlobal_eq registered built, sources_of_unregistered registered built absent]
    rfl
  stable s linked := by
    apply toGlobal_fromGlobal registered built
    exact List.ne_nil_of_mem (mem_sources.mpr ⟨linked, rfl⟩)

theorem lamps_inverts : ∃ global r k on off, Lit global r k on off ∧ Inverts lamps global r := by
  obtain ⟨global, r, k, on, off, lit⟩ := exists_lit
  exact ⟨global, r, k, on, off, lit, build_inverts lit.registered lit.built⟩

end Version
end Voxel
