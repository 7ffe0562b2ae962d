import Voxel.Proofs.Storage.Loans
import Voxel.Proofs.Workspace.Registries
import Voxel.Workspace.Pools

/-!
# The pools behind storages

A storage takes its buffers from its pool when it is made, tells it of every buffer that a write takes or
gives back, and returns them when it is replaced or dropped. `Settled` says that the pools have lent what the
storages have, those under a name and those in hand while a request is under way. Each request keeps it
(`Settled.ends`), so at every moment of a run the counts of a pool are those of the storages that draw from
it (`run_settles`).
-/

namespace Voxel

/-! ### Storages and pools -/

namespace Holding

/-- The buffers that a storage has from a pool. -/
def draws (h : Holding) (r : PoolRef) : Nat :=
  if h.pool = some r then h.storage.layout.buffers.length else 0

def Fits (h : Holding) (d : Depot) : Prop :=
  ∀ r, h.pool = some r → d.Has r ∧ r.width = h.storage.layout.width

theorem Fits.mono {h : Holding} {d e : Depot} (fits : h.Fits d) (has : ∀ q, d.Has q → e.Has q) : h.Fits e :=
  fun r drawn => ⟨has r (fits r drawn).1, (fits r drawn).2⟩

theorem draws_self {h : Holding} {r : PoolRef} (drawn : h.pool = some r) :
    h.draws r = h.storage.layout.buffers.length := if_pos drawn

theorem draws_other {h : Holding} {q : PoolRef} (other : h.pool ≠ some q) : h.draws q = 0 := if_neg other

end Holding

namespace Depot

def inUse (hs : List Holding) (r : PoolRef) : Nat := (hs.map fun h => h.draws r).sum

theorem inUse_cons (h : Holding) (hs : List Holding) (r : PoolRef) :
    inUse (h :: hs) r = inUse hs r + h.draws r := by
  rw [inUse, List.map_cons, List.sum_cons, Nat.add_comm, ← inUse]

/-- Every pool has lent the buffers that storages have from it, and pools that have a name are there. -/
structure Settled (d : Depot) (named : List PoolRef) (hs : List Holding) : Prop where
  balanced : ∀ r, ∃ capacity, (d.pool r).Balanced capacity (inUse hs r)
  fits : ∀ h ∈ hs, h.Fits d
  named : ∀ r ∈ named, d.Has r

section

variable {d e : Depot} {named : List PoolRef} {h k : Holding} {hs ks : List Holding}

theorem Settled.perm (settled : d.Settled named hs) (same : hs.Perm ks) : d.Settled named ks where
  balanced r := by
    have counts : inUse hs r = inUse ks r := (same.map (Holding.draws · r)).sum_nat
    exact counts ▸ settled.balanced r
  fits h member := settled.fits h (same.mem_iff.mpr member)
  named := settled.named

theorem Settled.turn (settled : d.Settled named hs) (pool : Option PoolRef) (fits : ∀ k ∈ ks, k.Fits d)
    (still : pool = none → e = d)
    (turns : ∀ r, pool = some r → Turns r (inUse hs r) (inUse ks r) d e)
    (others : ∀ q, pool ≠ some q → inUse ks q = inUse hs q) : e.Settled named ks := by
  cases pool with
  | none =>
    rw [still rfl]
    refine ⟨fun q => ?_, fits, settled.named⟩
    rw [others q nofun]
    exact settled.balanced q
  | some r =>
    obtain ⟨has, apart, balanced⟩ := turns r rfl
    refine ⟨fun q => ?_, fun k member => (fits k member).mono has,
      fun q member => has q (settled.named q member)⟩
    obtain ⟨capacity, before⟩ := settled.balanced q
    by_cases same : q = r
    · subst same
      exact ⟨capacity, balanced capacity before⟩
    · rw [apart q same, others q fun equal => same (Option.some.inj equal).symm]
      exact ⟨capacity, before⟩

theorem Settled.acquire (settled : d.Settled named hs) (fits : h.Fits d) {r : PoolRef}
    (drawn : h.pool = some r) :
    (h.storage.layout.buffers.foldl (fun d n => d.acquire r n) d).Settled named (h :: hs) := by
  refine settled.turn (some r) (List.forall_mem_cons.mpr ⟨fits, settled.fits⟩) nofun ?_ ?_
  · rintro _ ⟨⟩
    rw [inUse_cons, Holding.draws_self drawn]
    exact acquireAll_turns (fits r drawn).1 _ _
  · intro q other
    rw [inUse_cons, Holding.draws_other (drawn ▸ other), Nat.add_zero]

theorem Settled.release (settled : d.Settled named (h :: hs)) {r : PoolRef} (drawn : h.pool = some r) :
    (h.storage.layout.buffers.foldl (fun d n => d.release r n) d).Settled named hs := by
  obtain ⟨fits, rest⟩ := List.forall_mem_cons.mp settled.fits
  refine settled.turn (some r) rest nofun ?_ ?_
  · rintro _ ⟨⟩
    rw [inUse_cons, Holding.draws_self drawn]
    exact releaseAll_turns (fits r drawn).1 _ _
  · intro q other
    rw [inUse_cons, Holding.draws_other (drawn ▸ other), Nat.add_zero]

theorem Settled.add (settled : d.Settled named hs) (w : Width) (capacity : Nat) :
    (d.add w capacity).1.Settled named hs := by
  have has {q : PoolRef} (here : d.Has q) := d.has_add_of_has w capacity here
  refine ⟨fun q => ?_, fun h member => (settled.fits h member).mono fun _ => has,
    fun q member => has (settled.named q member)⟩
  by_cases new : q = (d.add w capacity).2
  · have unused : inUse hs q = 0 := List.sum_eq_zero_iff_forall_eq_nat.mpr fun n member => by
      obtain ⟨h, inside, rfl⟩ := List.mem_map.mp member
      refine Holding.draws_other fun drawn => d.not_has_add w capacity ?_
      exact new ▸ (settled.fits h inside q drawn).1
    subst new
    exact ⟨capacity, unused ▸ d.pool_add w capacity ▸ Pool.fresh_balanced capacity⟩
  · exact d.pool_add_other w capacity new ▸ settled.balanced q

theorem settled_cons_of_none (unpooled : h.pool = none) :
    d.Settled named (h :: hs) ↔ d.Settled named hs := by
  have counts (q : PoolRef) : inUse (h :: hs) q = inUse hs q := by
    rw [inUse_cons, Holding.draws_other (unpooled ▸ nofun), Nat.add_zero]
  constructor
  · intro settled
    have fits := (List.forall_mem_cons.mp settled.fits).2
    exact settled.turn none fits (fun _ => rfl) nofun
      fun q _ => (counts q).symm
  · intro settled
    have fits : h.Fits d := fun r drawn => nomatch unpooled.symm.trans drawn
    exact settled.turn none (List.forall_mem_cons.mpr ⟨fits, settled.fits⟩) (fun _ => rfl)
      nofun fun q _ => counts q

theorem Settled.book (settled : d.Settled named (h :: hs)) {es : Array Event} (pool : k.pool = h.pool)
    (width : k.storage.layout.width = h.storage.layout.width)
    (trail : ∀ n, Event.Trail (n + h.storage.layout.buffers.length) es.toList
      (n + k.storage.layout.buffers.length)) :
    (match h.pool with
      | some r => es.foldl (Depot.book r) d
      | none => d).Settled named (k :: hs) := by
  cases drawn : h.pool with
  | none => exact (settled_cons_of_none (pool.trans drawn)).mpr ((settled_cons_of_none drawn).mp settled)
  | some r =>
    obtain ⟨fits, rest⟩ := List.forall_mem_cons.mp settled.fits
    have fitsToo : k.Fits d := by
      intro q drawnToo
      rw [width]
      exact fits q (pool.symm.trans drawnToo)
    refine settled.turn (some r) (List.forall_mem_cons.mpr ⟨fitsToo, rest⟩) nofun ?_ ?_
    · rintro _ ⟨⟩
      dsimp only
      rw [inUse_cons, inUse_cons, Holding.draws_self drawn, Holding.draws_self (pool.trans drawn),
        ← Array.foldl_toList]
      exact book_turns (fits r drawn).1 (trail _)
    · intro q other
      rw [← drawn] at other
      rw [inUse_cons, inUse_cons, Holding.draws_other (pool ▸ other), Holding.draws_other other]

end

end Depot

/-! ### Workspaces -/

namespace Workspace

/-- The pools have lent what the storages have, those with a name and those in hand. -/
structure Settled (w : Workspace) (hand : List Holding) : Prop where
  lawful : w.Lawful
  depot : w.depot.Settled w.pools.values (hand ++ w.storages.values)

theorem empty_settled : empty.Settled [] where
  lawful := empty_lawful
  depot := by
    refine ⟨fun r => ⟨0, ?_⟩, nofun, nofun⟩
    obtain ⟨width, place⟩ := r
    cases width <;> exact Pool.fresh_balanced 0

end Workspace

namespace Session

open Workspace

variable {w : Workspace} {hand : List Holding} {h : Holding}

theorem ends_acquire (settled : w.Settled hand) (fits : h.Fits w.depot) :
    Ends (forBuffers Depot.acquire h) w (fun _ v => v.Settled (h :: hand) ∧ v.storages = w.storages)
      fun _ => False := by
  obtain ⟨lawful, depot⟩ := settled
  unfold forBuffers
  cases drawn : h.pool with
  | none => exact ⟨⟨lawful, (Depot.settled_cons_of_none drawn).mpr depot⟩, rfl⟩
  | some r => exact ⟨⟨lawful.congr rfl rfl rfl, depot.acquire fits drawn⟩, rfl⟩

theorem ends_discard (settled : w.Settled (h :: hand)) :
    Ends (discard h) w (fun _ v => v.Settled hand ∧ v.storages = w.storages) fun _ => False := by
  obtain ⟨lawful, depot⟩ := settled
  unfold discard forBuffers
  cases drawn : h.pool with
  | none => exact ⟨⟨lawful, (Depot.settled_cons_of_none drawn).mp depot⟩, rfl⟩
  | some r => exact ⟨⟨lawful.congr rfl rfl rfl, depot.release drawn⟩, rfl⟩

theorem ends_keep (settled : w.Settled (h :: hand)) (name : String) : Ends (keep name h) w
    (fun _ v => v.Settled hand ∧ v.storages = w.storages.insert name h) fun _ => False := by
  obtain ⟨lawful, depot⟩ := settled
  have now := w.storages.values_insert_perm name h
  simp only [keep, ends_bind, ends_get, ends_modify]
  cases old : w.storages.find? name with
  | none =>
    rw [OrderedMap.erase_of_absent old] at now
    have same : (h :: hand ++ w.storages.values).Perm (hand ++ (w.storages.insert name h).values) :=
      List.perm_middle.symm.trans (now.symm.append_left hand)
    exact ⟨⟨lawful.congr rfl rfl rfl, depot.perm same⟩, rfl⟩
  | some k =>
    have before := w.storages.values_perm old
    have same : (h :: hand ++ w.storages.values).Perm (k :: hand ++ (w.storages.insert name h).values) :=
      calc h :: hand ++ w.storages.values
        List.Perm _ (h :: hand ++ k :: (w.storages.erase name).values) := before.append_left _
        List.Perm _ (k :: (h :: hand ++ (w.storages.erase name).values)) := List.perm_middle
        List.Perm _ (k :: (hand ++ h :: (w.storages.erase name).values)) := List.perm_middle.symm.cons k
        List.Perm _ (k :: hand ++ (w.storages.insert name h).values) := (now.symm.append_left hand).cons k
    exact ends_discard ⟨lawful.congr rfl rfl rfl, depot.perm same⟩

theorem ends_create (settled : w.Settled hand) (fits : h.Fits w.depot) (name : String) :
    Ends (create name h) w (fun _ v => v.Settled hand ∧ v.storages = w.storages.insert name h)
      fun _ => False := by
  rw [create, ends_bind]
  refine (ends_acquire settled fits).mono (fun _ v acquired => ?_) fun _ never => never
  exact acquired.2 ▸ ends_keep acquired.1 name

theorem ends_holding {name : String} {ok : Holding → Workspace → Prop} {refused : Workspace → Prop}
    (answered : ∀ h, w.storages.find? name = some h → ok h w) (denied : refused w) :
    Ends (holding name) w ok refused := by
  simp only [holding, ends_bind, ends_get, ends_found]
  exact ⟨answered, fun _ => denied⟩

theorem ends_drop (settled : w.Settled hand) (name : String) :
    Ends (drop name) w (fun _ v => v.Settled hand ∧ v.storages = w.storages.erase name)
      (fun v => v.Settled hand ∧ v.storages = w.storages.erase name) := by
  simp only [drop, take, ends_bind, ends_modify, ends_pure, holding, ends_get, ends_found]
  refine ⟨fun h here => ?_, fun absent => ⟨settled, (OrderedMap.erase_of_absent absent).symm⟩⟩
  obtain ⟨lawful, depot⟩ := settled
  have same : (hand ++ w.storages.values).Perm (h :: hand ++ (w.storages.erase name).values) :=
    ((w.storages.values_perm here).append_left hand).trans List.perm_middle
  have taken : Settled { w with storages := w.storages.erase name } (h :: hand) :=
    ⟨lawful.congr rfl rfl rfl, depot.perm same⟩
  exact (ends_discard taken).mono (fun _ v dropped => dropped) fun _ never => never.elim

/-! ### Writes -/

/-- A storage is replaced by another of its layout, and no other storage changes. -/
def Rewritten (w v : Workspace) : Prop :=
  ∃ name h storage, w.storages.find? name = some h ∧ storage.layout.width = h.storage.layout.width ∧
    v.storages = w.storages.insert name { h with storage }

/-- What a write does to a storage, if it is not refused, and to the pool of the storage. -/
theorem ends_rewrite {α : Type} (settled : w.Settled hand) {name : String}
    (here : w.storages.find? name = some h) {x : Report α} (make : α → Storage)
    (uses : ∀ n, x.Uses (n + h.storage.layout.buffers.length)
      fun a => n + (make a).layout.buffers.length)
    (width : ∀ a, x.result = .ok a → (make a).layout.width = h.storage.layout.width) :
    Ends (do
      let a ← performIn h.pool x
      update name { h with storage := make a }) w
      (fun _ v => v.Settled hand ∧ Rewritten w v)
      (fun v => v.Settled hand ∧ v.storages = w.storages) := by
  simp only [update, ends_bind, ends_modify, ends_performIn]
  obtain ⟨lawful, depot⟩ := settled
  have before : (hand ++ w.storages.values).Perm (h :: (hand ++ (w.storages.erase name).values)) :=
    ((w.storages.values_perm here).append_left hand).trans List.perm_middle
  have held := depot.perm before
  refine ⟨fun a done => ⟨⟨lawful.congr rfl rfl rfl, ?_⟩, name, h, _, here, width a done, rfl⟩,
    fun e failed => ⟨⟨lawful.congr rfl rfl rfl, ?_⟩, rfl⟩⟩
  · let k : Holding := { h with storage := make a }
    have now : (k :: (hand ++ (w.storages.erase name).values)).Perm
        (hand ++ (w.storages.insert name k).values) :=
      List.perm_middle.symm.trans ((w.storages.values_insert_perm name k).symm.append_left hand)
    refine (held.book (k := k) rfl (width a done) fun n => ?_).perm now
    have trail := uses n
    rw [Report.Uses, done] at trail
    exact trail
  · refine (held.book rfl rfl fun n => ?_).perm before.symm
    have trail := uses n
    rw [Report.Uses, failed] at trail
    exact trail

theorem ends_frame {s : Storage} {ok : Frame → Workspace → Prop} {refused : Workspace → Prop}
    (answered : ∀ f, ok f w) (denied : refused w) : Ends (frame s) w ok refused := by
  rw [frame, ends_bind]
  refine ends_registryAt (fun home _ => ?_) denied
  cases s.viewed with
  | none => exact answered _
  | some id =>
    rw [ends_bind]
    exact ends_registryAt (fun seen _ => answered _) denied

theorem ends_framed (settled : w.Settled hand) (name : String) (op : Frame → Storage → Report Storage)
    (uses : ∀ f s n, (op f s).Uses (n + s.layout.buffers.length) fun t => n + t.layout.buffers.length)
    (width : ∀ f s t, (op f s).result = .ok t → t.layout.width = s.layout.width) :
    Ends (do
      let h ← holding name
      let f ← frame h.storage
      let s ← performIn h.pool (op f h.storage)
      update name { h with storage := s }) w
      (fun _ v => v.Settled hand ∧ Rewritten w v)
      (fun v => v.Settled hand ∧ v.storages = w.storages) := by
  rw [ends_bind]
  refine ends_holding (fun h here => ?_) ⟨settled, rfl⟩
  rw [ends_bind]
  refine ends_frame (fun f => ?_) ⟨settled, rfl⟩
  exact ends_rewrite settled here (fun s => s) (uses f h.storage) (width f h.storage)

theorem ends_write (settled : w.Settled hand) (name : String) (p : Position) (id : StateId) :
    Ends (write name p id) w (fun _ v => v.Settled hand ∧ Rewritten w v)
      (fun v => v.Settled hand ∧ v.storages = w.storages) :=
  ends_framed settled name (fun f s => s.write f p id) (fun f s n => s.write_uses f p n id)
    fun _ _ _ => Storage.width_write

theorem ends_writeState (settled : w.Settled hand) (name : String) (p : Position) (t : BlockState) :
    Ends (writeState name p t) w (fun _ v => v.Settled hand ∧ Rewritten w v)
      (fun v => v.Settled hand ∧ v.storages = w.storages) :=
  ends_framed settled name (fun f s => s.writeState f p t) (fun f s n => s.writeState_uses f p n t)
    fun _ _ _ => Storage.width_writeState

theorem ends_legacy {name : String} {ok : Legacy → Workspace → Prop} {refused : Workspace → Prop}
    (answered : ∀ h s, w.storages.find? name = some h → h.storage.layout = .legacy s → ok s w)
    (denied : refused w) : Ends (legacy name) w ok refused := by
  rw [legacy, ends_bind]
  refine ends_holding (fun h here => ?_) denied
  split
  · rename_i old
    exact answered h _ here old
  · exact denied

theorem ends_put (settled : w.Settled hand) (name : String) (p : Position) (e : Legacy.Entry) :
    Ends (changeLegacy name fun s => s.put p e) w (fun _ v => v.Settled hand ∧ Rewritten w v)
      (fun v => v.Settled hand ∧ v.storages = w.storages) := by
  rw [changeLegacy, ends_bind]
  refine ends_legacy (fun h s here old => ?_) ⟨settled, rfl⟩
  rw [ends_bind]
  refine ends_holding (fun k there => ?_) ⟨settled, rfl⟩
  cases here.symm.trans there
  refine ends_rewrite settled here (fun s => .plain (.legacy s)) (fun n => ?_) fun t _ => ?_
  · rw [old]
    simp only [Storage.plain, Layout.length_buffers_legacy]
    exact s.put_uses p n e
  · rw [old]
    rfl

/-! ### Storages and pools that are made -/

theorem ends_registry {name : String} {ok : Registry → Workspace → Prop} {refused : Workspace → Prop}
    (answered : ∀ r, ok r w) (denied : refused w) : Ends (registry name) w ok refused := by
  simp only [registry, ends_bind, ends_get, ends_found]
  exact ⟨fun id _ => ends_registryAt (fun r _ => answered r) denied, fun _ => denied⟩

theorem ends_poolOf (settled : w.Settled hand) {width : Width} {pool : Option String}
    {ok : Option PoolRef → Workspace → Prop} {refused : Workspace → Prop}
    (answered : ∀ pool, (∀ r, pool = some r → w.depot.Has r ∧ r.width = width) → ok pool w)
    (denied : refused w) : Ends (pool.mapM (poolOf width)) w ok refused := by
  cases pool with
  | none => exact answered none nofun
  | some name =>
    show Ends (some <$> poolOf width name) w ok refused
    rw [map_eq_pure_bind, ends_bind, poolOf, ends_bind]
    simp only [ends_bind, ends_get, ends_found]
    refine ⟨fun r named => ?_, fun _ => denied⟩
    split
    · rename_i same
      refine answered (some r) fun q equal => ?_
      cases equal
      exact ⟨settled.depot.named r (OrderedMap.mem_values_of_find? named), same⟩
    · exact denied

theorem ends_createOn {α : Type} (settled : w.Settled hand) (name registryName : String)
    (pool : Option String) {width : Width} (make : Registry → Layout) (answer : Registry → α)
    (layout : ∀ r, width = (make r).width) :
    Ends (do
      let r ← registry registryName
      let pool ← pool.mapM (poolOf width)
      create name ⟨.plain (make r), pool, .layout⟩
      return answer r) w (fun _ v => v.Settled hand) (·.Settled hand) := by
  rw [ends_bind]
  refine ends_registry (fun r => ?_) settled
  rw [ends_bind]
  refine ends_poolOf settled (fun pool there => ?_) settled
  rw [ends_bind]
  have fits : Holding.Fits ⟨.plain (make r), pool, .layout⟩ w.depot := fun q drawn =>
    ⟨(there q drawn).1, (there q drawn).2.trans (layout r)⟩
  exact (ends_create settled fits name).mono (fun _ _ created => created.1) fun _ never => never.elim

theorem ends_createFlat (settled : w.Settled hand) (name registryName : String) (pool : Option String) :
    Ends (createFlat name registryName pool) w (fun _ v => v.Settled hand) (·.Settled hand) :=
  ends_createOn settled name registryName pool (.flat <| Flat.fresh ·) Flat.fresh fun _ => rfl

theorem ends_createLegacy (settled : w.Settled hand) (name registryName : String) (pool : Option String) :
    Ends (createLegacy name registryName pool) w (fun _ v => v.Settled hand) (·.Settled hand) :=
  ends_createOn settled name registryName pool (.legacy <| Legacy.fresh ·.id) (Legacy.fresh ·.id)
    fun _ => rfl

theorem ends_copy (settled : w.Settled hand) (name target : String) (stays : Bool) :
    Ends (copy name target stays) w (fun _ v => v.Settled hand) (·.Settled hand) := by
  rw [copy, ends_bind]
  refine ends_holding (fun h here => ?_) settled
  simp only [ends_bind, ends_lift]
  refine ⟨fun storage cloned => ?_, fun _ _ => settled⟩
  obtain ⟨layout, same, rfl⟩ := Outcome.map_ok cloned
  have fits : h.Fits w.depot :=
    settled.depot.fits h (List.mem_append_right _ (OrderedMap.mem_values_of_find? here))
  have width := Layout.width_clone same
  refine (ends_create (h := ⟨⟨layout, h.storage.viewed⟩, h.pool, _⟩) settled (fun r drawn => ?_) target).mono
    (fun _ _ created => created.1) fun _ never => never.elim
  exact ⟨(fits r drawn).1, (fits r drawn).2.trans width.symm⟩

theorem ends_createPool (settled : w.Settled hand) (name : String) (width : Width) (capacity : Nat) :
    Ends (createPool name width capacity) w (fun _ v => v.Settled hand) (·.Settled hand) := by
  obtain ⟨lawful, depot⟩ := settled
  have added := depot.add width capacity
  refine ⟨lawful.congr rfl rfl rfl, added.balanced, added.fits, fun r member => ?_⟩
  obtain rfl | old := OrderedMap.mem_values_insert member
  · exact w.depot.has_add width capacity
  · exact added.named r old

theorem ends_dropPool (settled : w.Settled hand) (name : String) :
    Ends (dropPool name) w (fun _ v => v.Settled hand) (·.Settled hand) := by
  obtain ⟨lawful, balanced, fits, named⟩ := settled
  exact ⟨lawful.congr rfl rfl rfl, balanced, fits,
    fun r member => named r (OrderedMap.mem_values_of_erase member)⟩

end Session

/-! ### Runs -/

inductive Request
  | about (q : RegistryRequest)
  | createPool (name : String) (width : Width) (capacity : Nat)
  | dropPool (name : String)
  | createFlat (name registryName : String) (pool : Option String)
  | createLegacy (name registryName : String) (pool : Option String)
  | write (name : String) (p : Position) (id : StateId)
  | writeState (name : String) (p : Position) (t : BlockState)
  | put (name : String) (p : Position) (e : Legacy.Entry)
  | copy (name target : String) (stays : Bool)
  | drop (name : String)

namespace Request

def session : Request → Session Unit
  | about q => q.session
  | createPool name width capacity => Session.createPool name width capacity
  | dropPool name => do let _ ← Session.dropPool name
  | createFlat name registryName pool => do let _ ← Session.createFlat name registryName pool
  | createLegacy name registryName pool => do let _ ← Session.createLegacy name registryName pool
  | write name p id => Session.write name p id
  | writeState name p t => Session.writeState name p t
  | put name p e => Session.changeLegacy name fun s => s.put p e
  | copy name target stays => do let _ ← Session.copy name target stays
  | drop name => Session.drop name

def Writes : Request → Prop
  | write .. | writeState .. | put .. => True
  | _ => False

def run (w : Workspace) (qs : List Request) : Workspace :=
  qs.foldl (fun v q => (v.answer q.session).1) w

end Request

namespace Workspace

variable {w : Workspace}

theorem Settled.quiet {hand : List Holding} (settled : w.Settled hand) :
    { w with records := #[] }.Settled hand :=
  ⟨settled.lawful.congr rfl rfl rfl, settled.depot⟩

theorem Settled.ends_write (settled : w.Settled []) {q : Request} (writes : q.Writes) :
    q.session.Ends w (fun _ v => v.Settled [] ∧ Session.Rewritten w v)
      (fun v => v.Settled [] ∧ v.storages = w.storages) := by
  cases q with
  | write name p id => exact Session.ends_write settled name p id
  | writeState name p t => exact Session.ends_writeState settled name p t
  | put name p e => exact Session.ends_put settled name p e
  | _ => exact writes.elim

/-- Every request leaves the pools with what the storages have. -/
theorem Settled.ends (settled : w.Settled []) (q : Request) :
    q.session.Ends w (fun _ v => v.Settled []) (·.Settled []) := by
  cases q with
  | about q =>
    have kept (v : Workspace) (enlarged : w.Enlarges v) : v.Settled [] := by
      refine ⟨enlarged.lawful, ?_⟩
      rw [enlarged.depot, enlarged.pools, enlarged.storages]
      exact settled.depot
    exact (q.ends_session settled.lawful).mono (fun _ => kept) kept
  | createPool name width capacity => exact Session.ends_createPool settled name width capacity
  | dropPool name => exact Session.ends_dropPool settled name
  | createFlat name registryName pool =>
    rw [Request.session, Session.ends_bind]
    exact Session.ends_createFlat settled name registryName pool
  | createLegacy name registryName pool =>
    rw [Request.session, Session.ends_bind]
    exact Session.ends_createLegacy settled name registryName pool
  | write name p id =>
    exact (Session.ends_write settled name p id).mono (fun _ _ done => done.1) fun _ refused => refused.1
  | writeState name p t =>
    exact (Session.ends_writeState settled name p t).mono (fun _ _ done => done.1) fun _ refused => refused.1
  | put name p e =>
    exact (Session.ends_put settled name p e).mono (fun _ _ done => done.1) fun _ refused => refused.1
  | copy name target stays =>
    rw [Request.session, Session.ends_bind]
    exact Session.ends_copy settled name target stays
  | drop name =>
    exact (Session.ends_drop settled name).mono (fun _ _ done => done.1) fun _ done => done.1

theorem Settled.answer (settled : w.Settled []) (q : Request) : (w.answer q.session).1.Settled [] :=
  answer_of_ends (motive := (·.Settled [])) (settled.quiet.ends q)

theorem Settled.run (settled : w.Settled []) (qs : List Request) : (Request.run w qs).Settled [] := by
  induction qs generalizing w with
  | nil => exact settled
  | cons q rest ih => exact ih (settled.answer q)

end Workspace

/-! ### Counts -/

namespace Holding

def flat? (h : Holding) (r : PoolRef) : Option Flat :=
  match h.storage.layout with
  | .flat s => if h.pool = some r then some s else none
  | .legacy _ => none

def legacy? (h : Holding) (r : PoolRef) : Option Legacy :=
  match h.storage.layout with
  | .flat _ => none
  | .legacy s => if h.pool = some r then some s else none

variable {h : Holding} {d : Depot}

theorem draws_word (fits : h.Fits d) (place : Nat) :
    h.draws ⟨.word, place⟩ = (h.flat? ⟨.word, place⟩).elim 0 fun _ => 1 := by
  unfold draws flat?
  cases layout : h.storage.layout with
  | flat s => split <;> rfl
  | legacy s =>
    refine if_neg fun drawn => ?_
    have width := (fits _ drawn).2
    rw [layout] at width
    cases width

theorem draws_byte (fits : h.Fits d) (place : Nat) :
    h.draws ⟨.byte, place⟩ = (h.legacy? ⟨.byte, place⟩).elim 0 Legacy.count := by
  unfold draws legacy?
  cases layout : h.storage.layout with
  | legacy s =>
    rw [Layout.length_buffers_legacy]
    split <;> rfl
  | flat s =>
    refine if_neg fun drawn => ?_
    have width := (fits _ drawn).2
    rw [layout] at width
    cases width

end Holding

namespace Depot

variable {d : Depot} {hs : List Holding}

theorem inUse_eq {α : Type} {r : PoolRef} {part : Holding → Option α} {count : α → Nat}
    (draws : ∀ h ∈ hs, h.draws r = (part h).elim 0 count) :
    inUse hs r = ((hs.filterMap part).map count).sum := by
  induction hs with
  | nil => rfl
  | cons h rest ih =>
    obtain ⟨first, others⟩ := List.forall_mem_cons.mp draws
    rw [inUse_cons, ih others, first, List.filterMap_cons]
    cases part h with
    | none => rfl
    | some a => rw [List.map_cons, List.sum_cons, Nat.add_comm, Option.elim_some]

theorem inUse_words (fits : ∀ h ∈ hs, h.Fits d) (place : Nat) :
    inUse hs ⟨.word, place⟩ = (hs.filterMap fun h => h.flat? ⟨.word, place⟩).length := by
  rw [inUse_eq fun h member => Holding.draws_word (fits h member) place, List.map_const',
    List.sum_replicate_nat, Nat.mul_one]

theorem inUse_bytes (fits : ∀ h ∈ hs, h.Fits d) (place : Nat) : inUse hs ⟨.byte, place⟩ =
    ((hs.filterMap fun h => h.legacy? ⟨.byte, place⟩).map Legacy.count).sum :=
  inUse_eq fun h member => Holding.draws_byte (fits h member) place

theorem Settled.outstanding {named : List PoolRef} (settled : d.Settled named hs) (r : PoolRef) :
    (d.pool r).outstanding = inUse hs r ∧ (d.pool r).released ≤ (d.pool r).acquired := by
  obtain ⟨_, balanced⟩ := settled.balanced r
  have balance := balanced.balance
  rw [Pool.outstanding]
  omega

end Depot

namespace Workspace

def flats (w : Workspace) (r : PoolRef) : List Flat := w.storages.values.filterMap fun h => h.flat? r

def legacies (w : Workspace) (r : PoolRef) : List Legacy :=
  w.storages.values.filterMap fun h => h.legacy? r

/-- The buffers that a pool has lent and not got back. -/
def outstanding (w : Workspace) (r : PoolRef) : Nat := (w.depot.pool r).outstanding

/-- A pool of words has lent one buffer to each flat storage, and a pool of bytes two to each storage in the
old layout, or three if it has high bits. -/
structure Accounts (w : Workspace) : Prop where
  words : ∀ place, w.outstanding ⟨.word, place⟩ = (w.flats ⟨.word, place⟩).length
  bytes : ∀ place, w.outstanding ⟨.byte, place⟩ =
    ((w.legacies ⟨.byte, place⟩).map fun s => if s.hasHigh then 3 else 2).sum
  returned : ∀ r, (w.depot.pool r).released ≤ (w.depot.pool r).acquired

variable {w v : Workspace}

theorem Settled.accounts (settled : w.Settled []) : w.Accounts where
  words place := (settled.depot.outstanding _).1.trans (Depot.inUse_words settled.depot.fits place)
  bytes place := (settled.depot.outstanding _).1.trans (Depot.inUse_bytes settled.depot.fits place)
  returned r := (settled.depot.outstanding r).2

theorem words_of_rewritten (before : w.Settled []) (after : v.Settled []) (rewritten : Session.Rewritten w v)
    (place : Nat) : v.outstanding ⟨.word, place⟩ = w.outstanding ⟨.word, place⟩ := by
  obtain ⟨name, h, storage, here, width, storages⟩ := rewritten
  have left := before.depot.perm (w.storages.values_perm here)
  have right := after.depot
  rw [storages] at right
  have right := right.perm (w.storages.values_insert_perm name { h with storage })
  have fits := left.fits h List.mem_cons_self
  have same : ({ h with storage } : Holding).draws ⟨.word, place⟩ = h.draws ⟨.word, place⟩ := by
    unfold Holding.draws
    dsimp only
    split
    · rename_i drawn
      have word := (fits _ drawn).2.symm
      rw [Layout.length_buffers_word word, Layout.length_buffers_word (width.trans word)]
    · rfl
  rw [outstanding, (right.outstanding _).1, outstanding, (left.outstanding _).1, Depot.inUse_cons,
    Depot.inUse_cons, same]

/-- What a run leaves: pools whose counts are those of the storages. No write changes them for a pool of
words, a refused write changes them for none, and they are 0 when the storages are gone. -/
structure Settles (w : Workspace) : Prop where
  accounts : w.Accounts
  words : ∀ q : Request, q.Writes → ∀ place,
    (w.answer q.session).1.outstanding ⟨.word, place⟩ = w.outstanding ⟨.word, place⟩
  refused : ∀ q : Request, q.Writes → ∀ e, (w.answer q.session).2.1 = .error e →
    (w.answer q.session).1.storages = w.storages ∧
    ∀ r, (w.answer q.session).1.outstanding r = w.outstanding r
  dropped : ∀ names, w.storages.keys ⊆ names → ∀ r,
    (Request.run w (names.map .drop)).outstanding r = 0

theorem Settled.outstanding_eq {v : Workspace} (before : w.Settled []) (after : v.Settled [])
    (same : v.storages = w.storages) (r : PoolRef) : v.outstanding r = w.outstanding r := by
  have counts := after.depot.outstanding r
  rw [same] at counts
  exact counts.1.trans (before.depot.outstanding r).1.symm

theorem mem_keys_dropped {name : String} (settled : w.Settled []) (names : List String)
    (left : name ∈ (Request.run w (names.map .drop)).storages.keys) :
    name ∈ w.storages.keys ∧ name ∉ names := by
  induction names generalizing w with
  | nil => exact ⟨left, List.not_mem_nil⟩
  | cons first rest ih =>
    have erased : (w.answer (Request.drop first).session).1.storages = w.storages.erase first :=
      answer_of_ends (motive := fun v => v.storages = w.storages.erase first)
        ((Session.ends_drop settled.quiet first).mono (fun _ _ done => done.2) fun _ done => done.2)
    obtain ⟨member, later⟩ := ih (settled.answer (.drop first)) left
    rw [erased, OrderedMap.mem_keys_erase] at member
    exact ⟨member.1, List.not_mem_cons_of_ne_of_not_mem member.2 later⟩

/-- At every moment of a run the pools have lent the buffers of the storages that draw from them. -/
theorem run_settles (qs : List Request) : (Request.run empty qs).Settles := by
  have settled := empty_settled.run qs
  refine ⟨settled.accounts, fun q writes place => ?_, fun q writes e refused => ?_, fun names all r => ?_⟩
  · refine answer_of_ends (motive := fun v => v.outstanding ⟨.word, place⟩ = _)
      ((settled.quiet.ends_write writes).mono (fun _ v done => ?_) fun v refused => ?_)
    · exact words_of_rewritten settled.quiet done.1 done.2 place
    · exact settled.quiet.outstanding_eq refused.1 refused.2 _
  · obtain ⟨after, same⟩ := answer_of_refused (settled.quiet.ends_write writes) refused
    exact ⟨same, settled.quiet.outstanding_eq after same⟩
  · have after := settled.run (names.map .drop)
    have gone : (Request.run (Request.run empty qs) (names.map .drop)).storages.values = [] := by
      refine OrderedMap.values_eq_nil fun name left => ?_
      obtain ⟨member, kept⟩ := mem_keys_dropped settled names left
      exact kept (all member)
    have counts := (after.depot.outstanding r).1
    rw [gone] at counts
    exact counts

-- a flat storage and its copy, of which one is dropped, and an old one that came to need high bits
example : let w := Request.run empty [.about (.makeGlobal "g"), .createPool "words" .word 4,
      .createPool "bytes" .byte 4, .createFlat "s" "g" (some "words"), .copy "s" "t" true, .drop "s",
      .createLegacy "l" "g" (some "bytes"), .put "l" ⟨0, 0, 0⟩ (.number 256)]
    w.outstanding ⟨.word, 0⟩ = 1 ∧ w.outstanding ⟨.byte, 0⟩ = 3 := ⟨rfl, rfl⟩

end Workspace

end Voxel
