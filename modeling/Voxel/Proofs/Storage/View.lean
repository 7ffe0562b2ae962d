import Voxel.Proofs.Registry.Growth
import Voxel.Proofs.Storage.Run
import Voxel.Proofs.Version.Return

/-!
# Storages in global numbers

A view converts a state whenever it is read, and a copy converts all states at once. `copy_cases` says
when a copy can be made and what it holds then. Whatever a state becomes is registered
(`toGlobal_known`), so a copy takes all that a view shows, and `toGlobal_alike` finds the two alike.
-/

namespace Voxel

namespace Version

variable {id : RegistryId} {d : VersionDescription} {global r : Registry}
  (registered : Registry.Global global) (built : (build id d global).result = .ok r)
include registered built

theorem toGlobal_known (k : StateId) : global.index.hasRuntimeId (r.toGlobal k) = true := by
  have faithful := registered.sound.index
  have zero : global.index.hasRuntimeId 0 = true :=
    (registered.consecutive.hasRuntimeId_iff 0).mpr registered.consecutive.stateCount_pos
  obtain ⟨g, converts⟩ := exists_converts registered built k
  rw [converts.toGlobal_eq registered built]
  cases converts with
  | unknown absent => exact zero
  | unlinked state block absent => exact zero
  | linked state block kind order carries =>
    have member := Index.mem_states.mpr ((Index.kind_eq_ok_iff faithful).mp kind).1
    exact (Index.hasRuntimeId_eq_true faithful).mpr ⟨_, member, rfl⟩

theorem toGlobal_known_later (run : List Declaration) (k : StateId) :
    (global.attempts run).index.hasRuntimeId (r.toGlobal k) = true :=
  (Registry.attempts_remember registered.sound run).runtimeIds _ (toGlobal_known registered built k)

end Version

namespace Storage

/-! ### Copies -/

def seenAt (f : Frame) (s : Storage) (c : Cell) : StateId := (s.read f c.position).toOption.getD 0

def copyCell (f : Frame) (s : Storage) (t : Flat) (c : Cell) : Report Flat := do
  let id ← s.read f c.position
  t.write f.seen c id

theorem copy_eq (f : Frame) (s : Storage) :
    s.copy f = Cell.all.foldlM (copyCell f s) (Flat.fresh f.seen) := rfl

section

variable {f : Frame} {s : Storage} (sound : f.seen.Sound)
  (known : ∀ (c : Cell) id, s.read f c.position = .ok id → f.seen.index.hasRuntimeId id = true)
include sound known

theorem foldlM_copyCell_cases (rest : List Cell) {done : List Cell} {t : Flat}
    (before : ∀ c ∈ done, f.seen.index.hasRuntimeId (s.seenAt f c) = true)
    (shows : t.Shows (Flat.filled f.seen (s.seenAt f) done)) :
    ((∀ c ∈ rest, s.read f (Cell.position c) = .ok (s.seenAt f c)) ∧
      ∃ u, (rest.foldlM (copyCell f s) t).result = .ok u ∧ u.registry = t.registry ∧
        u.Shows (Flat.filled f.seen (s.seenAt f) (done ++ rest))) ∨
    ∃ (c : Cell) (e : Failure), s.read f c.position = .error e ∧
      (rest.foldlM (copyCell f s) t).result = .error e := by
  -- on the cells that are left: those that are done are filled in, the others are still air
  induction rest generalizing done t with
  | nil =>
    rw [List.append_nil]
    exact Or.inl ⟨fun _ member => absurd member List.not_mem_nil, t, rfl, rfl, shows⟩
  | cons c rest ih =>
    rw [List.foldlM_cons, Report.result_bind, copyCell, Report.result_bind, Report.result_lift]
    cases read : s.read f c.position with
    | error e => exact Or.inr ⟨c, e, read, rfl⟩
    | ok id =>
      have seen : s.seenAt f c = id := by
        rw [seenAt, read]
        rfl
      have new : f.seen.index.hasRuntimeId (s.seenAt f c) = true := seen ▸ known c id read
      obtain ⟨u, wrote, owner, after⟩ :=
        Flat.write_filled sound.index.limit_le sound.knows_air shows before new
      have all : ∀ e ∈ done ++ [c], f.seen.index.hasRuntimeId (s.seenAt f e) = true := by
        intro e member
        obtain old | last := List.mem_append.mp member
        · exact before e old
        · rw [List.mem_singleton.mp last]
          exact new
      rw [Outcome.ok_bind, ← seen, wrote, Outcome.ok_bind]
      obtain ⟨reads, w, copied, same, last⟩ | ⟨e, failure, failed, run⟩ := ih all after
      · rw [List.append_assoc] at last
        refine Or.inl ⟨List.forall_mem_cons.mpr ⟨?_, reads⟩, w, copied, same.trans owner, last⟩
        rw [read, seen]
      · exact Or.inr ⟨e, failure, failed, run⟩

/-- A copy can be made if every cell can be read, and holds what was read then. -/
theorem copy_cases :
    ((∀ c : Cell, s.read f c.position = .ok (s.seenAt f c)) ∧
      ∃ t, (s.copy f).result = .ok t ∧ t.registry = f.seen.id ∧ t.Shows (s.seenAt f)) ∨
    ∃ (c : Cell) (e : Failure), s.read f c.position = .error e ∧ (s.copy f).result = .error e := by
  have start : Flat.filled f.seen (s.seenAt f) [] = fun _ => f.seen.air.runtimeId :=
    funext fun c => if_neg List.not_mem_nil
  have fresh : (Flat.fresh f.seen).Shows (Flat.filled f.seen (s.seenAt f) []) :=
    start ▸ Flat.fresh_shows f.seen
  rw [copy_eq]
  obtain ⟨reads, t, copied, owner, shows⟩ | failed := foldlM_copyCell_cases sound known Cell.all
    (fun _ member => absurd member List.not_mem_nil) fresh
  · have whole : Flat.filled f.seen (s.seenAt f) Cell.all = s.seenAt f :=
      funext fun c => if_pos (Cell.mem_all c)
    rw [List.nil_append, whole] at shows
    exact Or.inl ⟨fun c => reads c (Cell.mem_all c), t, copied, owner, shows⟩
  · exact Or.inr failed

end

/-! ### Views -/

/-- A layer seen in global numbers. -/
def viewOf (r : Registry) (l : Layout) : Storage := ⟨l, some r.globalId⟩

theorem read_viewOf (r : Registry) (l : Layout) (seen : Registry) (p : Position) :
    (viewOf r l).read ⟨r, seen⟩ p = r.toGlobal <$> l.read r p := by
  unfold Storage.read viewOf
  dsimp only
  cases l.read r p <;> rfl

theorem view_eq {r : Registry} (isVersion : r.isGlobal = false) (l : Layout) :
    (plain l).view r = .ok (viewOf r l) := by
  have plainly : (plain l).isGlobal r = false := isVersion
  rw [view, plainly]
  rfl

theorem result_toGlobal_of_isGlobal {home : Registry} {s : Storage} (isGlobal : s.isGlobal home = true)
    (seen : Registry) (preferView : Bool) : (s.toGlobal home seen preferView).result = .ok s := by
  rw [toGlobal, if_pos isGlobal]
  rfl

section

variable {r : Registry} (isVersion : r.isGlobal = false) (seen : Registry) (l : Layout)
include isVersion

theorem result_toGlobal_view : ((plain l).toGlobal r seen true).result = .ok (viewOf r l) := by
  have plainly : ¬ (plain l).isGlobal r = true := Bool.eq_false_iff.mp isVersion
  rw [toGlobal, if_neg plainly, Report.result_bind, view_eq isVersion]
  rfl

theorem result_toGlobal_copy : ((plain l).toGlobal r seen false).result =
    (fun t => plain (.flat t)) <$> ((viewOf r l).copy ⟨r, seen⟩).result := by
  have plainly : ¬ (plain l).isGlobal r = true := Bool.eq_false_iff.mp isVersion
  rw [toGlobal, if_neg plainly, Report.result_bind, view_eq isVersion, Report.result_liftError,
    Failure.lift_ok, Outcome.ok_bind, if_neg Bool.false_ne_true, Report.result_bind]
  cases ((viewOf r l).copy ⟨r, seen⟩).result <;> rfl

end

/-! ### Views and copies -/

/-- Each cell is seen as what its state becomes globally, which is registered there. -/
structure Shown (r now : Registry) (l : Layout) (f : Frame) (s : Storage) : Prop where
  registry : s.registry = now.id
  cells : ∀ p c, p.cell = .ok c → ∃ k u, l.read r p = .ok k ∧ s.read f p = .ok (r.toGlobal k) ∧
    now.index.state (r.toGlobal k) = .ok u ∧ s.readState f p = .ok u

/-- A view and a copy of a layer are alike, and what is global already stays as it is. -/
structure Alike (r now : Registry) (l : Layout) (view : Storage) : Prop where
  viewed : ((plain l).toGlobal r now true).result = .ok view
  registry : view.registry = now.id
  copied_iff : (∃ copy, ((plain l).toGlobal r now false).result = .ok copy) ↔
    ∀ p c, p.cell = .ok c → ∃ g, view.read ⟨r, now⟩ p = .ok g
  shown : ∀ copy, ((plain l).toGlobal r now false).result = .ok copy →
    Shown r now l ⟨r, now⟩ view ∧ Shown r now l ⟨now, now⟩ copy
  again : ∀ preferView, (view.toGlobal r now preferView).result = .ok view
  unchanged : ∀ m preferView, ((plain m).toGlobal now now preferView).result = .ok (plain m)

theorem readState_of_read {f : Frame} {s : Storage} {p : Position} {id : StateId} {u : BlockState}
    (read : s.read f p = .ok id) (state : f.seen.index.state id = .ok u) :
    s.readState f p = .ok u := by
  rw [readState, read, Outcome.ok_bind, state]
  rfl

section

variable {id : RegistryId} {d : VersionDescription} {global r : Registry}
  (registered : Registry.Global global) (built : (Version.build id d global).result = .ok r)
  (run : List Declaration) (l : Layout)
include registered built

omit registered in
theorem registry_viewOf : (viewOf r l).registry = (global.attempts run).id :=
  (Version.build_globalId built).trans (Registry.id_attempts global run).symm

theorem viewOf_known (c : Cell) (k : StateId)
    (read : (viewOf r l).read ⟨r, global.attempts run⟩ c.position = .ok k) :
    (global.attempts run).index.hasRuntimeId k = true := by
  rw [read_viewOf] at read
  obtain ⟨local_, _, rfl⟩ := Outcome.map_ok read
  exact Version.toGlobal_known_later registered built run local_

theorem copy_shown (copy : Storage)
    (copied : ((plain l).toGlobal r (global.attempts run) false).result = .ok copy) :
    Shown r (global.attempts run) l ⟨r, global.attempts run⟩ (viewOf r l) ∧
      Shown r (global.attempts run) l ⟨global.attempts run, global.attempts run⟩ copy := by
  have sound := (registered.attempts run).sound
  rw [result_toGlobal_copy (Version.build_isGlobal built)] at copied
  obtain ⟨t, flat, rfl⟩ := Outcome.map_ok copied
  obtain ⟨reads, u, all, owner, shows⟩ | ⟨c, e, _, failed⟩ :=
    copy_cases sound (viewOf_known registered built run l)
  swap
  · rw [flat] at failed
    cases failed
  obtain rfl := Except.ok.inj (flat.symm.trans all)
  have cells : ∀ c : Cell, ∃ k u, l.read r c.position = .ok k ∧
      (viewOf r l).read ⟨r, global.attempts run⟩ c.position = .ok (r.toGlobal k) ∧
      t.read c = .ok (r.toGlobal k) ∧ (global.attempts run).index.state (r.toGlobal k) = .ok u := by
    intro c
    have view := reads c
    obtain ⟨k, read, same⟩ := Outcome.map_ok ((read_viewOf r l _ _).symm.trans view)
    obtain ⟨_, u, _, state, _⟩ | ⟨unknown, _⟩ :=
      Registry.state_cases sound.index (r.toGlobal k)
    · rw [← same] at view
      refine ⟨k, u, read, view, ?_, state⟩
      rw [shows.read, same]
    · rw [Version.toGlobal_known_later registered built run k] at unknown
      cases unknown
  constructor
  · refine ⟨registry_viewOf built run l, fun p c inside => ?_⟩
    obtain rfl := Cell.eq_position inside
    obtain ⟨k, u, read, view, _, state⟩ := cells c
    exact ⟨k, u, read, view, state, readState_of_read view state⟩
  · refine ⟨owner, fun p c inside => ?_⟩
    obtain rfl := Cell.eq_position inside
    obtain ⟨k, u, read, _, stored, state⟩ := cells c
    have here : (plain (.flat t)).read ⟨global.attempts run, global.attempts run⟩ c.position =
        .ok (r.toGlobal k) := by
      rw [Storage.read, plain, Layout.read_flat inside, stored]
      rfl
    exact ⟨k, u, read, here, state, readState_of_read here state⟩

/-- Views and copies of a version's layers are alike, however the global registry has grown. -/
theorem toGlobal_alike : Alike r (global.attempts run) l (viewOf r l) where
  viewed := result_toGlobal_view (Version.build_isGlobal built) _ l
  registry := registry_viewOf built run l
  copied_iff := by
    have sound := (registered.attempts run).sound
    rw [result_toGlobal_copy (Version.build_isGlobal built)]
    obtain ⟨reads, t, copied, _⟩ | ⟨c, e, failed, stopped⟩ :=
      copy_cases sound (viewOf_known registered built run l)
    · refine iff_of_true ⟨_, by rw [copied]; rfl⟩ fun p c inside => ?_
      obtain rfl := Cell.eq_position inside
      exact ⟨_, reads c⟩
    · refine iff_of_false ?_ fun all => ?_
      · rintro ⟨copy, copied⟩
        rw [stopped] at copied
        cases copied
      · obtain ⟨g, read⟩ := all c.position c (Cell.cell_position c)
        rw [failed] at read
        cases read
  shown := copy_shown registered built run l
  again preferView := result_toGlobal_of_isGlobal rfl _ preferView
  unchanged m preferView := by
    have isGlobal : (plain m).isGlobal (global.attempts run) = true :=
      (registered.attempts run).isGlobal
    exact result_toGlobal_of_isGlobal isGlobal _ preferView

end

theorem exists_lamps : ∃ global r, ∃ s t : Flat, Registry.Global global ∧
    (Version.build 1 Version.lamps global).result = .ok r ∧
    ((Flat.fresh r).write r 0 5).result = .ok s ∧ (s.write r 4095 4).result = .ok t ∧
    t.read 0 = .ok 5 ∧ t.read 4095 = .ok 4 := by
  obtain ⟨global, r, _, on, off, lit⟩ := Version.exists_lit
  have sound := (Registry.Built.ofVersion lit.built).sound
  have known {id : StateId} {u : BlockState} (state : r.index.state id = .ok u) :
      r.index.hasRuntimeId id = true :=
    (Index.hasRuntimeId_eq_true sound.index).mpr ⟨u, (Index.state_eq_ok_iff sound.index).mp state⟩
  have start : (Flat.fresh r).Sound r := ⟨_, Flat.fresh_shows r, fun _ => sound.knows_air⟩
  obtain ⟨_, s, first, between, readOn, _⟩ | ⟨unknown, _⟩ :=
    start.write sound.index.limit_le 0 5
  · obtain ⟨_, t, second, _, readOff, others⟩ | ⟨unknown, _⟩ :=
      between.write sound.index.limit_le 4095 4
    · refine ⟨global, r, s, t, lit.registered, lit.built, first, second, ?_, readOff⟩
      rw [others 0 (by decide), readOn]
    · cases (known lit.off.state).symm.trans unknown
  · cases (known lit.on.state).symm.trans unknown

theorem lamps_alike : ∃ global r, ∃ s t : Flat, Registry.Global global ∧
    (Version.build 1 Version.lamps global).result = .ok r ∧
    ((Flat.fresh r).write r 0 5).result = .ok s ∧ (s.write r 4095 4).result = .ok t ∧
    t.read 0 = .ok 5 ∧ t.read 4095 = .ok 4 ∧
    Alike r (global.attempts [⟨.standard "torch", [.bool "lit" false], none, none⟩])
      (.flat t) (viewOf r (.flat t)) := by
  obtain ⟨global, r, s, t, registered, built, first, second, on, off⟩ := exists_lamps
  exact ⟨global, r, s, t, registered, built, first, second, on, off,
    toGlobal_alike registered built _ _⟩

end Storage
end Voxel
