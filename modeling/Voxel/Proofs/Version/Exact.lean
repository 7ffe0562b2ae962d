import Voxel.Proofs.Version.Return

/-!
# Exact equivalents

A state with an exact equivalent comes back from the global numbering unless a state without one
goes before it (`fromGlobal_toGlobal_iff`).
-/

namespace Voxel

/-- A state has an exact equivalent if the properties of its block are by name those of the global
kind, which can read each of its texts. -/
def VersionDescription.Exact (d : VersionDescription) (global : Registry) (u : BlockState) : Prop :=
  ∃ b g, (u.name, b) ∈ d.blocks.entries ∧ global.index.kind (b.globalName u.name) = .ok g ∧
    (b.properties.keys.map b.globalProperty).Perm (g.properties.map Property.name) ∧
    ∀ e ∈ u.encoded, Readable g.properties (b.globalProperty e.1, e.2)

/-- A default state goes before the others, and of two alike the one that comes first. -/
def GoesBefore (states : List BlockState) (s t : BlockState) : Prop :=
  (s.isDefault = true ∧ t.isDefault = false) ∨ (s.isDefault = t.isDefault ∧
    ∃ before after, states = before ++ t :: after ∧ s ∈ before)

namespace Version

/-! ### The order of preference -/

variable {states : List BlockState} {s t : BlockState}

theorem before_unique (distinct : states.Nodup) {before after before' after' : List BlockState}
    (split : states = before ++ t :: after) (split' : states = before' ++ t :: after') :
    before = before' := by
  rw [split', List.nodup_append, List.nodup_cons] at distinct
  have new : t ∉ before' := fun member => distinct.2.2 t member t List.mem_cons_self rfl
  exact ((List.append_cons_inj_of_notMem new distinct.2.1.1).mp (split'.symm.trans split)).1.symm

theorem goesBefore_total (left : s ∈ states) (right : t ∈ states) (other : s ≠ t) :
    GoesBefore states s t ∨ GoesBefore states t s := by
  cases first : s.isDefault <;> cases second : t.isDefault
  case true.false => exact Or.inl (Or.inl ⟨first, second⟩)
  case false.true => exact Or.inr (Or.inl ⟨second, first⟩)
  all_goals
    have alike : s.isDefault = t.isDefault := first.trans second.symm
    obtain ⟨before, after, split⟩ := List.append_of_mem right
    have place := left
    rw [split, List.mem_append, List.mem_cons] at place
    obtain inside | same | inside := place
    · exact Or.inl (Or.inr ⟨alike, before, after, split, inside⟩)
    · exact absurd same other
    · obtain ⟨between, rest, behind⟩ := List.append_of_mem inside
      refine Or.inr (Or.inr ⟨alike.symm, before ++ t :: between, rest, ?_, ?_⟩)
      · rw [split, behind, List.append_assoc, List.cons_append]
      · exact List.mem_append_right _ List.mem_cons_self

theorem not_goesBefore_preferred (distinct : states.Nodup) (chosen : preferred states = some t)
    (member : s ∈ states) : ¬ GoesBefore states s t := by
  intro first
  unfold preferred at chosen
  obtain found | ⟨none, head⟩ := Option.or_eq_some_iff.mp chosen
  · obtain ⟨isDefault, before, after, split, others⟩ := List.find?_eq_some_iff_append.mp found
    obtain ⟨_, notDefault⟩ | ⟨alike, before', after', split', inside⟩ := first
    · rw [isDefault] at notDefault
      cases notDefault
    · rw [before_unique distinct split' split] at inside
      have notDefault := others s inside
      rw [alike, isDefault] at notDefault
      cases notDefault
  · obtain ⟨isDefault, _⟩ | ⟨_, before, after, split, inside⟩ := first
    · exact List.find?_eq_none.mp none s member isDefault
    · obtain ⟨rest, head⟩ := List.head?_eq_some_iff.mp head
      have start : states = [] ++ t :: rest := head
      rw [before_unique distinct split start] at inside
      cases inside

theorem not_goesBefore_self (distinct : states.Nodup) : ¬ GoesBefore states t t := by
  intro first
  obtain ⟨isDefault, notDefault⟩ | ⟨_, before, after, split, inside⟩ := first
  · rw [isDefault] at notDefault
    cases notDefault
  · rw [split, List.nodup_append] at distinct
    exact distinct.2.2 t inside t List.mem_cons_self rfl

theorem preferred_eq_some_iff (distinct : states.Nodup) : preferred states = some t ↔
    t ∈ states ∧ ∀ s ∈ states, ¬ GoesBefore states s t := by
  constructor
  · intro chosen
    exact ⟨mem_of_preferred chosen, fun s member => not_goesBefore_preferred distinct chosen member⟩
  · intro h
    obtain ⟨member, first⟩ := h
    cases chosen : preferred states with
    | none => exact absurd (preferred_eq_none_iff.mp chosen) (List.ne_nil_of_mem member)
    | some s =>
      apply congrArg some
      by_contra other
      have inside := mem_of_preferred chosen
      obtain before | before := goesBefore_total inside member other
      · exact first s inside before
      · exact not_goesBefore_preferred distinct chosen member before

/-! ### There and back -/

variable {id : RegistryId} {d : VersionDescription} {global r : Registry}

theorem nodup_sources (represents : Represents d r) (g : StateId) :
    (d.sources global r g).Nodup := by
  unfold VersionDescription.sources
  rw [linked_eq represents]
  apply List.Nodup.filter
  apply List.Nodup.filter
  exact List.Nodup.of_map _ represents.tables.faithful.distinct

theorem fromGlobal_eq_iff (registered : Registry.Global global)
    (built : (build id d global).result = .ok r) {g : StateId} {v : BlockState}
    (source : v ∈ d.sources global r g) : r.fromGlobal g = v.runtimeId ↔
      ∀ w ∈ d.sources global r g, ¬ GoesBefore (d.sources global r g) w v := by
  have represents := (build_ok built).2
  have distinct : (d.sources global r g).Nodup := nodup_sources represents g
  have known : ∀ w ∈ d.sources global r g, w ∈ r.index.states := fun w member =>
    ((mem_linked represents).mp (mem_sources.mp member).1).1
  rw [fromGlobal_eq registered built]
  cases chosen : preferred (d.sources global r g) with
  | none => exact absurd (preferred_eq_none_iff.mp chosen) (List.ne_nil_of_mem source)
  | some s =>
    have inside := mem_of_preferred chosen
    have same : s.runtimeId = v.runtimeId ↔ preferred (d.sources global r g) = some v := by
      rw [chosen, Option.some.injEq]
      constructor
      · intro equal
        exact represents.tables.faithful.eq_of_runtimeId (known s inside) (known v source) equal
      · exact congrArg BlockState.runtimeId
    show s.runtimeId = v.runtimeId ↔ _
    rw [same, preferred_eq_some_iff distinct]
    exact and_iff_right source

/-- An exact state that shares its equivalent with no other exact state comes back exactly if no
state that is not exact goes before it. -/
theorem fromGlobal_toGlobal_iff (registered : Registry.Global global)
    (built : (build id d global).result = .ok r) {v : BlockState} (member : v ∈ r.index.states)
    (exact_ : d.Exact global v) (single : ∀ w ∈ r.index.states, d.Exact global w →
      r.toGlobal w.runtimeId = r.toGlobal v.runtimeId → w = v) :
    r.fromGlobal (r.toGlobal v.runtimeId) = v.runtimeId ↔
      ∀ w ∈ d.sources global r (r.toGlobal v.runtimeId), ¬ d.Exact global w →
        ¬ GoesBefore (d.sources global r (r.toGlobal v.runtimeId)) w v := by
  have represents := (build_ok built).2
  obtain ⟨b, g, block, kind, _⟩ := exact_
  have linked := (mem_linked represents).mpr ⟨member, b, g, ⟨block, kind⟩⟩
  have source : v ∈ d.sources global r (r.toGlobal v.runtimeId) := mem_sources.mpr ⟨linked, rfl⟩
  rw [fromGlobal_eq_iff registered built source]
  constructor
  · intro first w inside _
    exact first w inside
  · intro first w inside
    by_cases exactToo : d.Exact global w
    · obtain ⟨other, same⟩ := mem_sources.mp inside
      rw [single w ((mem_linked represents).mp other).1 exactToo same]
      exact not_goesBefore_self (nodup_sources represents _)
    · exact first w inside exactToo

/-! ### A lamp that never comes back -/

theorem readable_alwaysLit {e : String × String} (named : e.1 = "lit") :
    Readable alwaysLit.properties e ↔ Text.fold e.2 = Text.fold "true" := by
  have here : ∀ p ∈ alwaysLit.properties, p.decodeIndex "true" = .ok 0 := by decide
  constructor
  · intro readable
    obtain ⟨p, member, _, i, decoded⟩ := readable
    have below := Property.decodeIndex_lt decoded
    rw [List.mem_singleton.mp member] at below
    have zero : i = 0 := Nat.lt_one_iff.mp below
    rw [zero] at decoded
    exact Property.fold_eq_of_decodeIndex decoded (here p member)
  · intro like
    refine ⟨_, List.mem_singleton_self _, named.symm, 0, ?_⟩
    exact Property.decodeIndex_congr (here _ (List.mem_singleton_self _)) like.symm

section

variable {k : BlockKind} {on off : BlockState} (lit : Lit global r k on off)
include lit

theorem Lit.readable_iff {s : StateDescription} {t : BlockState}
    (told : r.Tells (.standard "lamp") lampBlock s t) (keys : s.values.keys = ["lit"])
    {e : String × String} (member : e ∈ t.encoded) :
    Readable k.properties (lampBlock.globalProperty e.1, e.2) ↔ Text.fold e.2 = Text.fold "true" := by
  have named : e.1 = "lit" := by
    have key := told.texts.keys.mem_iff.mp (List.mem_map_of_mem (f := Prod.fst) member)
    rw [keys] at key
    exact List.mem_singleton.mp key
  rw [lit.properties]
  exact readable_alwaysLit named

theorem Lit.exact_on : lamps.Exact global on := by
  obtain ⟨block, kind⟩ := lit.linked lit.on
  refine ⟨lampBlock, k, block, kind, ?_, fun e member => ?_⟩
  · rw [lit.properties]
    exact List.Perm.refl _
  · rw [lit.readable_iff lit.on rfl member]
    obtain ⟨text, given, like⟩ := lit.on.texts.entry member
    obtain ⟨_, rfl⟩ := Prod.mk.inj (List.mem_singleton.mp given)
    rw [like]
    decide

theorem Lit.not_exact_off : ¬ lamps.Exact global off := by
  intro exact_
  obtain ⟨b, g, block, kind, _, readable⟩ := exact_
  obtain ⟨lamp, lampKind⟩ := lit.linked lit.off
  obtain rfl : b = lampBlock := OrderedMap.value_eq block lamp
  obtain rfl : g = k := Except.ok.inj (kind.symm.trans lampKind)
  have order : off.encoded.map Prod.fst = ["lit"] := List.perm_singleton.mp lit.off.texts.keys
  obtain ⟨e, member, _⟩ := List.mem_map.mp (order ▸ List.mem_singleton_self "lit")
  have like := (lit.readable_iff lit.off rfl member).mp (readable e member)
  obtain ⟨text, given, same⟩ := lit.off.texts.entry member
  obtain ⟨_, rfl⟩ := Prod.mk.inj (List.mem_singleton.mp given)
  rw [like] at same
  revert same
  decide

theorem Lit.mem {s : StateDescription} {t : BlockState}
    (told : r.Tells (.standard "lamp") lampBlock s t) : t ∈ r.index.states := by
  have faithful := (build_ok lit.built).2.tables.faithful
  exact ((Index.state_eq_ok_iff faithful).mp told.state).1

theorem Lit.source {s : StateDescription} {t : BlockState}
    (told : r.Tells (.standard "lamp") lampBlock s t) :
    t ∈ lamps.sources global r k.defaultState.runtimeId := by
  have linked := lit.linked told
  have member := lit.mem told
  apply mem_sources.mpr
  refine ⟨(mem_linked (build_ok lit.built).2).mpr ⟨member, lampBlock, k, linked⟩, ?_⟩
  rw [linked.toGlobal_eq lit.built member, lit.single BlockDescription.kind_translate]

theorem Lit.on_or_off {w : BlockState} (linked : w ∈ lamps.linked global r)
    (same : r.toGlobal w.runtimeId = r.toGlobal on.runtimeId) : w = on ∨ w = off := by
  have represents := (build_ok lit.built).2
  have faithful := lit.registered.sound.index
  obtain ⟨member, b, g, block, kind⟩ := (mem_linked represents).mp linked
  have equal := Linked.kind_unique lit.registered lit.built ⟨block, kind⟩ (lit.linked lit.on) member
    (lit.mem lit.on) same
  have named : b.globalName w.name = .standard "lamp" := by
    rw [← ((Index.kind_eq_ok_iff faithful).mp kind).2, equal]
    exact ((Index.kind_eq_ok_iff faithful).mp lit.kind).2
  have number : ∀ t ∈ r.index.states, w.runtimeId = t.runtimeId → w = t := fun t inside equal =>
    represents.tables.faithful.eq_of_runtimeId member inside equal
  obtain air | onOff := List.mem_pair.mp block
  · -- air is called air globally, too
    obtain ⟨name, rfl⟩ := Prod.mk.inj air
    rw [name] at named
    exact absurd named (by decide)
  · obtain ⟨_, rfl⟩ := Prod.mk.inj onOff
    obtain ⟨⟨key, b⟩, inside, s, declared, describes, matches_⟩ := represents.tables.declared member
    obtain rfl : w.name = key := describes.name
    obtain rfl : b = lampBlock := OrderedMap.value_eq inside block
    obtain rfl | rfl := List.mem_pair.mp declared
    · exact Or.inl (number on (lit.mem lit.on) (matches_.runtimeId.trans lit.on.runtimeId.symm))
    · exact Or.inr (number off (lit.mem lit.off) (matches_.runtimeId.trans lit.off.runtimeId.symm))

theorem Lit.exact_unique {w : BlockState} (member : w ∈ r.index.states)
    (exact_ : lamps.Exact global w) (same : r.toGlobal w.runtimeId = r.toGlobal on.runtimeId) :
    w = on := by
  have ⟨b, g, block, kind, _⟩ := exact_
  have linked := (mem_linked (build_ok lit.built).2).mpr ⟨member, b, g, ⟨block, kind⟩⟩
  obtain rfl | rfl := lit.on_or_off linked same
  · rfl
  · exact absurd exact_ lit.not_exact_off

end

/-- The lamp that is on, state 5, shares its equivalent with no other exact state, and comes back
off, as state 4. -/
theorem lamp_not_returned : ∃ global r k on off, Lit global r k on off ∧
    lamps.Exact global on ∧ (∀ w ∈ r.index.states, lamps.Exact global w →
      r.toGlobal w.runtimeId = r.toGlobal on.runtimeId → w = on) ∧
    on.runtimeId = 5 ∧ r.fromGlobal (r.toGlobal 5) = 4 := by
  obtain ⟨global, r, k, on, off, lit⟩ := exists_lit
  have five : on.runtimeId = 5 := lit.on.runtimeId
  have four : off.runtimeId = 4 := lit.off.runtimeId
  refine ⟨global, r, k, on, off, lit, lit.exact_on, fun w => lit.exact_unique, five, ?_⟩
  have becomes := (mem_sources.mp (lit.source lit.on)).2
  have source : off ∈ lamps.sources global r (r.toGlobal on.runtimeId) := by
    rw [becomes]
    exact lit.source lit.off
  have isDefault : off.isDefault = true := lit.off.isDefault
  rw [← five, ← four, fromGlobal_eq_iff lit.registered lit.built source]
  intro w member before
  obtain ⟨linked, same⟩ := mem_sources.mp member
  obtain rfl | rfl := lit.on_or_off linked same
  · obtain ⟨_, notDefault⟩ | ⟨alike, _⟩ := before
    · rw [isDefault] at notDefault
      cases notDefault
    · rw [isDefault, lit.on.isDefault] at alike
      cases alike
  · exact not_goesBefore_self (nodup_sources (build_ok lit.built).2 _) before

theorem lamp_returned_iff : ∃ global r k on off, Lit global r k on off ∧
    (r.fromGlobal (r.toGlobal on.runtimeId) = on.runtimeId ↔
      ∀ w ∈ lamps.sources global r (r.toGlobal on.runtimeId), ¬ lamps.Exact global w →
        ¬ GoesBefore (lamps.sources global r (r.toGlobal on.runtimeId)) w on) := by
  obtain ⟨global, r, k, on, off, lit⟩ := exists_lit
  refine ⟨global, r, k, on, off, lit, ?_⟩
  exact fromGlobal_toGlobal_iff lit.registered lit.built (lit.mem lit.on) lit.exact_on
    fun w => lit.exact_unique

end Version
end Voxel
