import Voxel.Proofs.Storage.Legacy
import Voxel.Proofs.Storage.Run
import Voxel.Proofs.Version.Lookup
import Voxel.Storage.Upgrade

/-!
# Upgrades of old layers

An upgrade splits each state into what is left without its fluid and the fluid. `Upgraded.Holds` says
what the layers hold after some of the cells, and `upgrade_splits` what they hold in the end.
-/

namespace Voxel

/-- The parts of states are registered, and a state without fluid has only one. -/
structure Registry.Splits (r : Registry) : Prop where
  sound : r.Sound
  strip : ∀ id, r.index.hasRuntimeId id = true → r.index.hasRuntimeId (r.fluids.strip id) = true
  extract : ∀ id, r.fluids.extract id ≠ 0 → r.index.hasRuntimeId (r.fluids.extract id) = true
  dry : ∀ id, r.fluids.extract id = 0 → r.fluids.strip id = id

/-- The fluid of a state, or air if it has none. -/
def Registry.fluidOrAir (r : Registry) (id : StateId) : StateId :=
  if r.fluids.extract id = 0 then r.air.runtimeId else r.fluids.extract id

theorem Version.build_splits {id : RegistryId} {d : VersionDescription} {global r : Registry}
    (built : (Version.build id d global).result = .ok r) : r.Splits := by
  obtain ⟨wellFormed, represents⟩ := Version.build_ok built
  have filled : ∀ {a b c : StateId}, r.fluids.split[a]? = some (b, c) →
      ∃ f, d.fluids = some f ∧ f.Declares d ⟨a, b, c⟩ := fun found =>
    (represents.fluids.split ⟨_, _, _⟩).mp found
  refine ⟨(Registry.Built.ofVersion built).sound, ?_, ?_, ?_⟩
  · intro a known
    unfold FluidTable.strip
    split
    · rename_i found
      obtain ⟨f, _, declared⟩ := filled found
      exact (represents.known_of_declares declared).1
    · exact known
  · intro a wet
    unfold FluidTable.extract at wet ⊢
    split
    · rename_i found
      obtain ⟨f, _, declared⟩ := filled found
      exact (represents.known_of_declares declared).2
    · rename_i none
      rw [none] at wet
      exact absurd rfl wet
  · intro a dry
    unfold FluidTable.extract at dry
    unfold FluidTable.strip
    split
    · rename_i found
      rw [found] at dry
      obtain ⟨f, given, declared⟩ := filled found
      exact absurd dry ((wellFormed.fluids f given).consistent.fluid _ declared)
    · rfl

theorem Registry.Built.splits {r : Registry} (built : r.Built) : r.Splits := by
  cases built with
  | ofVersion h => exact Version.build_splits h
  | isGlobal h =>
    -- a global registry knows no fluids
    have whole : ∀ id : StateId, r.fluids.split[id]? = none := by
      intro id
      rw [h.fluids_eq]
      exact Std.HashMap.getElem?_empty
    refine ⟨h.sound, fun id known => ?_, fun id wet => ?_, fun id _ => ?_⟩
    · rw [FluidTable.strip, whole]
      exact known
    · rw [FluidTable.extract, whole] at wet
      exact absurd rfl wet
    · rw [FluidTable.strip, whole]

theorem Registry.Splits.fluidOrAir_known {r : Registry} (splits : r.Splits) (id : StateId) :
    r.index.hasRuntimeId (r.fluidOrAir id) = true := by
  unfold Registry.fluidOrAir
  split
  · exact splits.sound.knows_air
  · rename_i wet
    exact splits.extract id wet

namespace Legacy

def stateAt (r : Registry) (s : Legacy) (c : Cell) : StateId := (s.read r c).toOption.getD 0

theorem read_cases {r : Registry} (faithful : r.index.Faithful) (s : Legacy) (c : Cell) :
    (r.index.hasLegacyPair (s.pairAt c) = true ∧ s.read r c = .ok (s.stateAt r c) ∧
      r.index.hasRuntimeId (s.stateAt r c) = true) ∨
    (r.index.hasLegacyPair (s.pairAt c) = false ∧
      s.read r c = .error (.unknownLegacyState (s.idAt c) (s.dataAt c))) := by
  unfold stateAt read
  obtain ⟨known, id, found, registered⟩ | unknown :=
    Index.legacyRuntimeId_cases faithful (s.pairAt c)
  · rw [found]
    exact Or.inl ⟨known, rfl, registered⟩
  · exact Or.inr unknown

end Legacy

/-! ### Layers in the making -/

/-- What a layer holds that takes a part of the state at some of the cells. -/
def Legacy.layer (r : Registry) (s : Legacy) (part : StateId → StateId) (done : List Cell)
    (c : Cell) : StateId :=
  Flat.filled r (fun c => part (s.stateAt r c)) done c

section

variable {r : Registry} {s : Legacy} {part : StateId → StateId} {done : List Cell} {c : Cell}

theorem layer_of_air (air : part (s.stateAt r c) = r.air.runtimeId) :
    s.layer r part done = s.layer r part (done ++ [c]) := by
  funext e
  unfold Legacy.layer Flat.filled
  by_cases same : e = c
  · subst same
    simp [air]
  · simp [same]

end

namespace Upgraded

/-- What the layers hold after some of the cells. -/
structure Holds (r : Registry) (s : Legacy) (done : List Cell) (x : Upgraded) : Prop where
  known : ∀ c ∈ done, r.index.hasRuntimeId (s.stateAt r c) = true
  blocks : x.blocks.Shows (s.layer r r.fluids.strip done)
  fluids : (x.fluids.getD (.fresh r)).Shows (s.layer r r.fluidOrAir done)
  wet : x.fluids.isSome = true ↔ ∃ c ∈ done, r.fluids.extract (s.stateAt r c) ≠ 0

variable {r : Registry} {s : Legacy} {done : List Cell} {x : Upgraded}

theorem start_holds (r : Registry) (s : Legacy) : Holds r s [] ⟨.fresh r, none, 0⟩ where
  known _ member := absurd member List.not_mem_nil
  blocks := Flat.fresh_shows r
  fluids := Flat.fresh_shows r
  wet := by simp

theorem write_part (sound : r.Sound) {l : Flat} {part : StateId → StateId}
    (shows : l.Shows (s.layer r part done))
    (parts : ∀ c ∈ done, r.index.hasRuntimeId (part (s.stateAt r c)) = true) {c : Cell}
    (known : r.index.hasRuntimeId (part (s.stateAt r c)) = true) :
    ∃ t, (l.write r c (part (s.stateAt r c))).result = .ok t ∧ t.registry = l.registry ∧
      t.Shows (s.layer r part (done ++ [c])) :=
  @Flat.write_filled r sound.index.limit_le sound.knows_air (fun c => part (s.stateAt r c)) done l
    shows parts c known

theorem add_spec (splits : r.Splits) (holds : Holds r s done x) {c : Cell}
    (found : s.read r c = .ok (s.stateAt r c))
    (known : r.index.hasRuntimeId (s.stateAt r c) = true) :
    ∃ y, (Upgraded.add r s x c).result = .ok y ∧ y.blocks.registry = x.blocks.registry ∧
      Holds r s (done ++ [c]) y := by
  have strips : ∀ e ∈ done, r.index.hasRuntimeId (r.fluids.strip (s.stateAt r e)) = true :=
    fun e member => splits.strip _ (holds.known e member)
  have both : ∀ e ∈ done ++ [c], r.index.hasRuntimeId (s.stateAt r e) = true := by
    intro e member
    obtain old | new := List.mem_append.mp member
    · exact holds.known e old
    · rw [List.mem_singleton.mp new]
      exact known
  obtain ⟨blocks, wrote, owner, shows⟩ := write_part splits.sound holds.blocks strips
    (splits.strip _ known)
  unfold add
  rw [Report.result_bind, Report.result_liftError, found, Failure.lift_ok, Outcome.ok_bind]
  dsimp only
  by_cases dry : r.fluids.extract (s.stateAt r c) = 0
  · rw [splits.dry _ dry] at wrote
    have air : r.fluidOrAir (s.stateAt r c) = r.air.runtimeId := if_pos dry
    rw [if_pos dry, Report.result_bind, wrote]
    refine ⟨_, rfl, owner, both, shows, ?_, ?_⟩
    · rw [← layer_of_air air]
      exact holds.fluids
    · rw [holds.wet]
      simp [dry, or_and_right, exists_or]
  · have fluids : ∀ e ∈ done, r.index.hasRuntimeId (r.fluidOrAir (s.stateAt r e)) = true :=
      fun e _ => splits.fluidOrAir_known _
    obtain ⟨fluid, poured, _, full⟩ := write_part splits.sound holds.fluids fluids
      (splits.fluidOrAir_known (s.stateAt r c))
    have part : r.fluidOrAir (s.stateAt r c) = r.fluids.extract (s.stateAt r c) := if_neg dry
    rw [part] at poured
    rw [if_neg dry]
    simp only [Report.result_bind, Report.result_log, wrote, poured, Outcome.ok_bind]
    refine ⟨_, rfl, owner, both, shows, full, ?_⟩
    simp [dry, or_and_right, exists_or]

theorem add_unknown {c : Cell}
    (unknown : s.read r c = .error (.unknownLegacyState (s.idAt c) (s.dataAt c))) :
    (Upgraded.add r s x c).result =
      .error (.error (.unknownLegacyState (s.idAt c) (s.dataAt c))) := by
  unfold add
  rw [Report.result_bind, Report.result_liftError, unknown]
  rfl

theorem foldlM_add_cases (splits : r.Splits) (rest : List Cell) (holds : Holds r s done x) :
    ((∀ c ∈ rest, r.index.hasLegacyPair (s.pairAt c) = true) ∧
      ∃ y, (rest.foldlM (Upgraded.add r s) x).result = .ok y ∧
        y.blocks.registry = x.blocks.registry ∧ Holds r s (done ++ rest) y) ∨
    ∃ before c after, rest = before ++ c :: after ∧
      (∀ e ∈ before, r.index.hasLegacyPair (s.pairAt e) = true) ∧
      r.index.hasLegacyPair (s.pairAt c) = false ∧
      (rest.foldlM (Upgraded.add r s) x).result =
        .error (.error (.unknownLegacyState (s.idAt c) (s.dataAt c))) := by
  induction rest generalizing done x with
  | nil =>
    rw [List.append_nil]
    exact Or.inl ⟨fun _ member => absurd member List.not_mem_nil, x, rfl, rfl, holds⟩
  | cons c rest ih =>
    rw [List.foldlM_cons, Report.result_bind]
    obtain ⟨pair, found, known⟩ | ⟨unknown, missing⟩ :=
      Legacy.read_cases splits.sound.index s c
    · obtain ⟨y, added, owner, next⟩ := add_spec splits holds found known
      rw [added, Outcome.ok_bind]
      obtain ⟨all, z, run, kept, last⟩ | ⟨before, e, after, split, first, unknown, run⟩ := ih next
      · rw [List.append_assoc] at last
        exact Or.inl ⟨List.forall_mem_cons.mpr ⟨pair, all⟩, z, run, kept.trans owner, last⟩
      · refine Or.inr ⟨c :: before, e, after, ?_, List.forall_mem_cons.mpr ⟨pair, first⟩, unknown, run⟩
        rw [split, List.cons_append]
    · refine Or.inr ⟨[], c, rest, rfl, fun _ member => absurd member List.not_mem_nil, unknown, ?_⟩
      rw [add_unknown missing]
      rfl

theorem layer_all (part : StateId → StateId) :
    s.layer r part Cell.all = fun c => part (s.stateAt r c) := by
  funext c
  rw [Legacy.layer, Flat.filled, if_pos (Cell.mem_all c)]

end Upgraded

namespace Legacy

/-- Layers that an old layer is split into: one without the fluids, and one with nothing else, which
is there if there are any. -/
structure SplitInto (r : Registry) (s : Legacy) (blocks : Flat) (fluids : Option Flat) : Prop where
  cells : ∀ c, ∃ id, s.read r c = .ok id ∧ blocks.read c = .ok (r.fluids.strip id) ∧
    ∀ l, fluids = some l → l.read c = .ok (r.fluidOrAir id)
  wet : fluids.isSome = true ↔ ∃ c id, s.read r c = .ok id ∧ r.fluids.extract id ≠ 0

variable {r : Registry}

theorem mem_before {before after : List Cell} {c e : Cell} (split : Cell.all = before ++ c :: after)
    (less : e < c) : e ∈ before := by
  have rising : Cell.all.Pairwise (· < ·) := List.pairwise_ofFn.mpr fun i j below => below
  have member := Cell.mem_all e
  rw [split] at rising member
  obtain inside | last := List.mem_append.mp member
  · exact inside
  · have later := (List.pairwise_cons.mp (List.pairwise_append.mp rising).2.1).1
    obtain same | behind := List.mem_cons.mp last
    · exact absurd less (same ▸ Fin.lt_irrefl c)
    · exact absurd (Fin.lt_trans less (later e behind)) (Fin.lt_irrefl e)

theorem splitInto_of_holds (faithful : r.index.Faithful) {s : Legacy} {x : Upgraded}
    (all : ∀ c, r.index.hasLegacyPair (s.pairAt c) = true) (holds : x.Holds r s Cell.all) :
    s.SplitInto r x.blocks x.fluids := by
  have found : ∀ c, s.read r c = .ok (s.stateAt r c) := by
    intro c
    obtain ⟨_, found, _⟩ | ⟨unknown, _⟩ := read_cases faithful s c
    · exact found
    · rw [all c] at unknown
      cases unknown
  have blocks := holds.blocks
  have fluids := holds.fluids
  rw [Upgraded.layer_all] at blocks fluids
  refine ⟨fun c => ⟨s.stateAt r c, found c, blocks.read c, fun l given => ?_⟩, ?_⟩
  · rw [given] at fluids
    exact fluids.read c
  · rw [holds.wet]
    constructor
    · intro h
      obtain ⟨c, _, wet⟩ := h
      exact ⟨c, s.stateAt r c, found c, wet⟩
    · intro h
      obtain ⟨c, id, read, wet⟩ := h
      obtain rfl := Except.ok.inj ((found c).symm.trans read)
      exact ⟨c, Cell.mem_all c, wet⟩

theorem upgrade_cases (splits : r.Splits) (s : Legacy) :
    ((∀ c, r.index.hasLegacyPair (s.pairAt c) = true) ∧
      ∃ blocks fluids, (s.upgrade r).result = .ok (blocks, fluids) ∧ s.SplitInto r blocks fluids) ∨
    ∃ c, r.index.hasLegacyPair (s.pairAt c) = false ∧
      (∀ e < c, r.index.hasLegacyPair (s.pairAt e) = true) ∧
      (s.upgrade r).result = .error (.error (.unknownLegacyState (s.idAt c) (s.dataAt c))) := by
  unfold upgrade
  rw [Report.result_bind]
  obtain ⟨all, x, run, _, holds⟩ | ⟨before, c, after, split, first, unknown, run⟩ :=
    Upgraded.foldlM_add_cases splits Cell.all (Upgraded.start_holds r s)
  · have every : ∀ c, r.index.hasLegacyPair (s.pairAt c) = true := fun c => all c (Cell.mem_all c)
    rw [List.nil_append] at holds
    rw [run]
    exact Or.inl ⟨every, x.blocks, x.fluids, rfl,
      splitInto_of_holds splits.sound.index every holds⟩
  · refine Or.inr ⟨c, unknown, fun e less => first e (mem_before split less), ?_⟩
    rw [run]
    rfl

/-- The layers of an upgrade hold the parts of all states, where a missing one is as good as air. -/
theorem upgrade_shows (splits : r.Splits) {s : Legacy} {blocks : Flat} {fluids : Option Flat}
    (upgraded : (s.upgrade r).result = .ok (blocks, fluids)) : blocks.registry = r.id ∧
      blocks.Shows (fun c => r.fluids.strip (s.stateAt r c)) ∧
      (fluids.getD (.fresh r)).Shows (fun c => r.fluidOrAir (s.stateAt r c)) ∧
      ∀ c, r.index.hasRuntimeId (s.stateAt r c) = true := by
  unfold upgrade at upgraded
  rw [Report.result_bind] at upgraded
  obtain ⟨x, run, upgraded⟩ := Outcome.bind_ok upgraded
  cases upgraded
  obtain ⟨_, y, same, owner, holds⟩ | ⟨_, _, _, _, _, _, failed⟩ :=
    Upgraded.foldlM_add_cases splits Cell.all (Upgraded.start_holds r s)
  · obtain rfl := Except.ok.inj (run.symm.trans same)
    rw [List.nil_append] at holds
    have blocks := holds.blocks
    have fluids := holds.fluids
    rw [Upgraded.layer_all] at blocks fluids
    exact ⟨owner, blocks, fluids, fun c => holds.known c (Cell.mem_all c)⟩
  · cases run.symm.trans failed

theorem upgrade_sound (splits : r.Splits) {s : Legacy} {blocks : Flat} {fluids : Option Flat}
    (upgraded : (s.upgrade r).result = .ok (blocks, fluids)) :
    blocks.Sound r ∧ ∀ l, fluids = some l → l.Sound r := by
  obtain ⟨_, drained, poured, known⟩ := upgrade_shows splits upgraded
  refine ⟨⟨_, drained, fun c => splits.strip _ (known c)⟩, fun l given => ?_⟩
  rw [given] at poured
  exact ⟨_, poured, fun c => splits.fluidOrAir_known _⟩

/-- An upgrade succeeds exactly if every cell has a state, and then splits all of them. Otherwise it
fails at the first cell without one. -/
theorem upgrade_splits {id : RegistryId} {d : VersionDescription} {global : Registry}
    (built : (Version.build id d global).result = .ok r) (s : Legacy) :
    ((∃ layers, (s.upgrade r).result = .ok layers) ↔
      ∀ c, r.index.hasLegacyPair (s.pairAt c) = true) ∧
    (¬ (∀ c, r.index.hasLegacyPair (s.pairAt c) = true) →
      ∃ c, r.index.hasLegacyPair (s.pairAt c) = false ∧
        (∀ e < c, r.index.hasLegacyPair (s.pairAt e) = true) ∧
        (s.upgrade r).result = .error (.error (.unknownLegacyState (s.idAt c) (s.dataAt c)))) ∧
    ∀ blocks fluids, (s.upgrade r).result = .ok (blocks, fluids) → s.SplitInto r blocks fluids := by
  obtain ⟨all, blocks, fluids, run, splitInto⟩ | ⟨c, unknown, first, run⟩ :=
    upgrade_cases (Version.build_splits built) s
  · refine ⟨iff_of_true ⟨_, run⟩ all, fun missing => absurd all missing, fun b f same => ?_⟩
    cases run.symm.trans same
    exact splitInto
  · have missing : ¬ ∀ c, r.index.hasLegacyPair (s.pairAt c) = true := by
      intro all
      rw [all c] at unknown
      cases unknown
    refine ⟨iff_of_false ?_ missing, fun _ => ⟨c, unknown, first, run⟩, fun b f same => ?_⟩
    · intro h
      obtain ⟨layers, same⟩ := h
      cases run.symm.trans same
    · cases run.symm.trans same

end Legacy

section

open Version

def pond : VersionDescription :=
  ⟨"pond", ⟨[(.air, airBlock), (.standard "water", plainBlock 9 144)], by decide⟩,
    some ⟨[.standard "water"], none, none⟩⟩

theorem eq_of_declares_pond {g : Filling}
    (declared : FluidDescription.Declares ⟨[.standard "water"], none, none⟩ pond g) :
    g = ⟨144, 0, 144⟩ := by
  obtain liquid | ⟨_, _, none, _⟩ := declared
  · obtain ⟨e, member, named, s, inside, filled, fluid, b, air, t, there, _, drained⟩ := liquid
    obtain rfl | rfl := List.mem_pair.mp member
    · exact absurd named (by decide)
    · obtain rfl := List.mem_singleton.mp inside
      obtain first | second := List.mem_pair.mp air
      · obtain ⟨_, rfl⟩ := Prod.mk.inj first
        obtain rfl := List.mem_singleton.mp there
        cases g
        cases filled
        cases fluid
        cases drained
        rfl
      · exact absurd (Prod.mk.inj second).1 (by decide)
  · cases none

theorem pond_wellFormed : pond.WellFormed where
  blocks e member := by
    obtain rfl | rfl := List.mem_pair.mp member
    · exact airBlock_wellFormed
    · exact plainBlock_wellFormed (by decide) (by decide)
  legacyIds := by decide
  air := by decide
  ids := by decide
  fluids f given := by
    cases given
    refine ⟨by decide, ?_, ?_, ⟨?_, ?_⟩⟩
    · intro _ given
      cases given
    · intro _ given
      cases given
    · intro g declared
      rw [eq_of_declares_pond declared]
      decide
    · intro g h left right _
      rw [eq_of_declares_pond left, eq_of_declares_pond right]

def puddle : Legacy := (Legacy.fresh 1).putId 0 9

theorem pairAt_puddle (c : Cell) : puddle.pairAt c = if c = 0 then ⟨9, 0⟩ else ⟨0, 0⟩ := by
  have air := (Legacy.holds_fresh 1).pair
  have data : (Legacy.fresh 1).dataAt 0 = 0 := congrArg LegacyPair.data (air 0)
  rw [puddle, Legacy.pairAt_putId _ 0 c (by decide), data, air]

theorem upgrade_splits_puddle : ∃ global r, (build 1 pond global).result = .ok r ∧
    ∃ blocks fluids, (puddle.upgrade r).result = .ok (blocks, fluids) ∧
      puddle.SplitInto r blocks fluids := by
  obtain ⟨global, _⟩ := Registry.newGlobal_ok 0
  obtain ⟨_, r, built, _, represents⟩ | ⟨bad, _⟩ := build_cases 1 pond global
  · obtain ⟨succeeds, _, splits⟩ := Legacy.upgrade_splits built puddle
    have all : ∀ c, r.index.hasLegacyPair (puddle.pairAt c) = true := by
      intro c
      rw [pairAt_puddle]
      apply (represents.knows.legacyPair _).mpr
      split
      · exact ⟨_, List.mem_cons_of_mem _ (List.mem_singleton_self _), _, List.mem_singleton_self _,
          rfl, dataOf_plainBlock 9 144⟩
      · exact ⟨_, List.mem_cons_self, _, List.mem_singleton_self _, rfl, dataOf_plainBlock 0 0⟩
    obtain ⟨⟨blocks, fluids⟩, run⟩ := succeeds.mpr all
    exact ⟨global, r, built, blocks, fluids, run, splits blocks fluids run⟩
  · exact absurd pond_wellFormed bad

end

end Voxel
