import Voxel.Proofs.Registry.Intern
import Voxel.Proofs.Version.Catalog
import Voxel.Proofs.Workspace.Session
import Voxel.Workspace.Catalogs

/-!
# Runs of requests about registries

Requests make global registries and enlarge them, build the registries of versions, and look them up in
catalogs. `Lawful` says where registries are kept, and `Enlarges` what a request may do: registries stay where
they are and keep their kinds, and nothing else is touched. `RegistryRequest.enlarges` is one request, and
`run_interns` compares the states that come from the registries of a run at any two moments.
-/

namespace Voxel

namespace Version

theorem isGlobal_of_build {id : RegistryId} {d : VersionDescription} {global r : Registry}
    (built : (build id d global).result = .ok r) : r.isGlobal = false := by
  obtain ⟨_, _, scope, _⟩ := build_parts built
  rw [Registry.isGlobal, scope]

end Version

namespace Catalog

theorem get_ok {c : Catalog} {id : RegistryId} {global r : Registry} {version : String}
    (given : (c.get id global version).2.result = .ok r) :
    (∃ name, c.held name = some r) ∨ ∃ d, (Version.build id d global).result = .ok r := by
  rw [get_answer] at given
  split at given
  · cases given
  · rename_i name _
    split at given
    · rename_i held
      cases given
      exact Or.inl ⟨name, held⟩
    · rw [result_load] at given
      exact Or.inr (build_of_source given)

end Catalog

namespace Workspace

/-- Registries are kept at their handles and tell their states apart; global names stand for global
registries, and what catalogs hold are registries of versions. -/
structure Lawful (w : Workspace) : Prop where
  kept : ∀ (i : RegistryId) (r : Registry), w.registries[i]? = some r → r.id = i ∧ r.Distinguishes
  globals : ∀ name id, w.globals.find? name = some id →
    ∃ r, w.registries[id]? = some r ∧ Registry.Global r
  held : ∀ name c version (r : Registry), w.catalogs.find? name = some c → c.held version = some r →
    w.registries[r.id]? = some r ∧ r.isGlobal = false

/-- A workspace with the registries of another and their kinds, and perhaps more of either, and with
everything else as it was. -/
structure Enlarges (w v : Workspace) : Prop where
  lawful : v.Lawful
  kinds : ∀ (i : RegistryId) (r : Registry), w.registries[i]? = some r →
    ∃ s, v.registries[i]? = some s ∧ r.index.kinds.toList <+: s.index.kinds.toList
  states : v.states = w.states
  storages : v.storages = w.storages
  sections : v.sections = w.sections
  depot : v.depot = w.depot
  pools : v.pools = w.pools
  loans : v.loans = w.loans

theorem Lawful.congr {w v : Workspace} (lawful : w.Lawful) (registries : v.registries = w.registries)
    (globals : v.globals = w.globals) (catalogs : v.catalogs = w.catalogs) : v.Lawful := by
  refine ⟨?_, ?_, ?_⟩
  · rw [registries]
    exact lawful.kept
  · rw [globals, registries]
    exact lawful.globals
  · rw [catalogs, registries]
    exact lawful.held

theorem Enlarges.refl {w : Workspace} (lawful : w.Lawful) : w.Enlarges w :=
  ⟨lawful, fun _ r here => ⟨r, here, List.prefix_rfl⟩, rfl, rfl, rfl, rfl, rfl, rfl⟩

theorem Enlarges.trans {u v w : Workspace} (first : u.Enlarges v) (second : v.Enlarges w) :
    u.Enlarges w where
  lawful := second.lawful
  kinds i r here := by
    obtain ⟨s, there, before⟩ := first.kinds i r here
    obtain ⟨t, later, behind⟩ := second.kinds i s there
    exact ⟨t, later, before.trans behind⟩
  states := second.states.trans first.states
  storages := second.storages.trans first.storages
  sections := second.sections.trans first.sections
  depot := second.depot.trans first.depot
  pools := second.pools.trans first.pools
  loans := second.loans.trans first.loans

theorem empty_lawful : empty.Lawful := ⟨nofun, nofun, nofun⟩

/-! ### Changes -/

section

variable {w : Workspace} (lawful : w.Lawful)
include lawful

theorem Lawful.logged (records : Array Log.Record) : w.Enlarges { w with records } :=
  { Enlarges.refl lawful with lawful := lawful.congr rfl rfl rfl }

theorem Lawful.nameVersion (versions : OrderedMap String RegistryId) :
    w.Enlarges { w with versions } :=
  { Enlarges.refl lawful with lawful := lawful.congr rfl rfl rfl }

theorem Lawful.nameGlobal (name : String) {id : RegistryId} {r : Registry}
    (here : w.registries[id]? = some r) (global : r.Global) :
    w.Enlarges { w with globals := w.globals.insert name id } := by
  refine { Enlarges.refl lawful with lawful := ⟨lawful.kept, fun other i named => ?_, lawful.held⟩ }
  rw [OrderedMap.find?_insert] at named
  split at named
  · cases named
    exact ⟨r, here, global⟩
  · exact lawful.globals other i named

theorem Lawful.keepCatalog (name : String) {c : Catalog} (held : ∀ version r,
    c.held version = some r → w.registries[r.id]? = some r ∧ r.isGlobal = false) :
    w.Enlarges { w with catalogs := w.catalogs.insert name c } := by
  refine { Enlarges.refl lawful with
    lawful := ⟨lawful.kept, lawful.globals, fun other d version r named => ?_⟩ }
  rw [OrderedMap.find?_insert] at named
  split at named
  · cases named
    exact held version r
  · exact lawful.held other d version r named

theorem Lawful.enrol {r : Registry} (id : r.id = w.registries.size) (distinguishes : r.Distinguishes) :
    w.Enlarges { w with registries := w.registries.push r } := by
  have stays {i : Nat} {s : Registry} (here : w.registries[i]? = some s) :
      (w.registries.push r)[i]? = some s := by
    have inside := (Array.getElem?_eq_some_iff.mp here).1
    rw [Array.getElem?_push, if_neg (Nat.ne_of_lt inside), here]
  refine ⟨⟨fun i s here => ?_, fun name i named => ?_, fun name c version s named there => ?_⟩,
    fun i s here => ⟨s, stays here, List.prefix_rfl⟩, rfl, rfl, rfl, rfl, rfl, rfl⟩
  · dsimp only at here
    rw [Array.getElem?_push] at here
    split at here
    · rename_i last
      cases here
      exact ⟨id.trans last.symm, distinguishes⟩
    · exact lawful.kept i s here
  · obtain ⟨s, here, global⟩ := lawful.globals name i named
    exact ⟨s, stays here, global⟩
  · obtain ⟨here, version⟩ := lawful.held name c version s named there
    exact ⟨stays here, version⟩

/-- A global registry is replaced by what registrations make of it. -/
theorem Lawful.refresh {r : Registry} (here : w.registries[r.id]? = some r) (global : r.Global)
    (run : List Declaration) : w.Enlarges { w with
      registries := w.registries.setIfInBounds (r.attempts run).id (r.attempts run) } := by
  have grown : (r.attempts run).Global := global.attempts run
  have inside := (Array.getElem?_eq_some_iff.mp here).1
  rw [Registry.id_attempts]
  have at_ (i : Nat) : (w.registries.setIfInBounds r.id (r.attempts run))[i]? =
      if r.id = i then some (r.attempts run) else w.registries[i]? := by
    rw [Array.getElem?_setIfInBounds, if_pos inside]
  refine ⟨⟨fun i s there => ?_, fun name i named => ?_, fun name c version s named held => ?_⟩,
    fun i s there => ?_, rfl, rfl, rfl, rfl, rfl, rfl⟩
  · dsimp only at there
    rw [at_] at there
    split at there
    · rename_i same
      cases there
      exact ⟨(Registry.id_attempts r run).trans same, grown.distinguishes⟩
    · exact lawful.kept i s there
  · obtain ⟨s, there, globalToo⟩ := lawful.globals name i named
    dsimp only
    rw [at_]
    split
    · exact ⟨_, rfl, grown⟩
    · exact ⟨s, there, globalToo⟩
  · obtain ⟨there, version⟩ := lawful.held name c version s named held
    dsimp only
    rw [at_, if_neg, there]
    · exact ⟨rfl, version⟩
    · intro same
      rw [← same, here] at there
      cases there
      cases global.isGlobal.symm.trans version
  · dsimp only
    rw [at_]
    split
    · rename_i same
      rw [← same, here] at there
      cases there
      exact ⟨_, rfl, (Registry.attempts_remember global.sound run).kinds⟩
    · exact ⟨s, there, List.prefix_rfl⟩

end

end Workspace

/-! ### Requests -/

namespace Session

open Workspace

variable {α : Type} {w : Workspace} {ok : Registry → Workspace → Prop} {refused : Workspace → Prop}

theorem ends_registryAt {id : RegistryId} (answered : ∀ r, w.registries[id]? = some r → ok r w)
    (denied : refused w) : Ends (registryAt id) w ok refused := by
  simp only [registryAt, ends_bind, ends_get, ends_found]
  exact ⟨answered, fun _ => denied⟩

theorem ends_global (lawful : w.Lawful) {name : String}
    (answered : ∀ r, w.registries[r.id]? = some r → r.Global → ok r w) (denied : refused w) :
    Ends (global name) w ok refused := by
  simp only [global, ends_bind, ends_get, ends_found]
  refine ⟨fun id named => ends_registryAt (fun r here => ?_) denied, fun _ => denied⟩
  obtain ⟨s, there, globalToo⟩ := lawful.globals name id named
  cases here.symm.trans there
  have same := (lawful.kept id r here).1
  exact answered r (same.symm ▸ here) globalToo

theorem ends_makeGlobal (lawful : w.Lawful) (name : String) {make : RegistryId → Report Registry}
    (makes : ∀ id r, (make id).result = .ok r → r.id = id ∧ r.Global) :
    Ends (makeGlobal name make) w (fun r v => w.Enlarges v ∧ v.registries[r.id]? = some r)
      w.Enlarges := by
  simp only [makeGlobal, nextId, enrol, Session.nameGlobal, ends_bind, ends_get, ends_pure, ends_modify,
    ends_perform]
  refine ⟨fun r made => ?_, fun _ _ => lawful.logged _⟩
  obtain ⟨id, global⟩ := makes _ r made
  have logged := lawful.logged (w.records ++ (make w.registries.size).records)
  have enrolled := logged.trans (logged.lawful.enrol id global.distinguishes)
  have here : (w.registries.push r)[r.id]? = some r := by rw [id, Array.getElem?_push_size]
  exact ⟨enrolled.trans (enrolled.lawful.nameGlobal name here global), here⟩

theorem ends_registerStandard (lawful : w.Lawful) (name : String) :
    Ends (registerStandard name) w (fun _ => w.Enlarges) w.Enlarges := by
  rw [registerStandard, ends_bind]
  refine ends_global lawful (fun r here global => ?_) (.refl lawful)
  simp only [refresh, ends_bind, ends_modify, ends_perform, ends_pure]
  obtain ⟨run, same⟩ := r.registerAll_attempts Vanilla.declarations
  rw [same]
  have refreshed := lawful.refresh here global run
  exact ⟨fun _ _ => refreshed.trans (refreshed.lawful.logged _),
    fun _ _ => refreshed.trans (refreshed.lawful.logged _)⟩

theorem ends_register (lawful : w.Lawful) (name : String) (d : Declaration) :
    Ends (register name d) w (fun _ => w.Enlarges) w.Enlarges := by
  rw [register, ends_bind]
  refine ends_global lawful (fun r here global => ?_) (.refl lawful)
  simp only [refresh, ends_bind, ends_modify, ends_perform, ends_pure]
  have logged := lawful.logged (w.records ++ (r.register d).records)
  refine ⟨fun x registered => ?_, fun _ _ => logged⟩
  have attempted : x.1 = r.attempts [d] := (Registry.attempt_of_ok registered).symm
  rw [attempted]
  exact logged.trans (logged.lawful.refresh here global [d])

theorem ends_registerForEach (lawful : w.Lawful) (name : String) (kind : Name) :
    Ends (registerForEach name kind) w (fun _ => w.Enlarges) w.Enlarges := by
  rw [registerForEach, ends_bind]
  refine ends_global lawful (fun _ _ _ => ?_) (.refl lawful)
  simp only [ends_bind, ends_pure]
  refine ends_foldlM (fun last _ v kept => ?_) (.refl lawful) _ _
  rw [ends_bind]
  refine ends_global kept.lawful (fun r here global => ?_) kept
  simp only [ends_bind, ends_perform]
  refine ⟨fun _ _ => ?_, fun _ _ => kept.trans (kept.lawful.logged _)⟩
  have logged := kept.trans (kept.lawful.logged
    (v.records ++ (Report.mk (r.register ⟨kind, [], none, none⟩).events (.ok ())).records))
  cases registered : (r.register ⟨kind, [], none, none⟩).result with
  | error e => exact logged
  | ok x =>
    have attempted : x.1 = r.attempts [⟨kind, [], none, none⟩] := (Registry.attempt_of_ok registered).symm
    simp only [refresh, ends_bind, ends_modify, ends_pure]
    rw [attempted]
    exact logged.trans (logged.lawful.refresh here global _)

theorem ends_buildVersion (lawful : w.Lawful) (name text globalName : String) :
    Ends (buildVersion name text globalName) w (fun _ => w.Enlarges) w.Enlarges := by
  rw [buildVersion, ends_bind]
  refine ends_global lawful (fun g _ _ => ?_) (.refl lawful)
  simp only [nextId, enrol, Session.nameVersion, ends_bind, ends_get, ends_pure, ends_modify, ends_perform]
  refine ⟨fun r made => ?_, fun _ _ => lawful.logged _⟩
  obtain ⟨d, built⟩ := Version.build_of_text made
  have logged := lawful.logged (w.records ++ (Version.buildText w.registries.size text g).records)
  have enrolled := logged.trans
    (logged.lawful.enrol (Version.build_parts built).1 (Registry.distinguishes_of_build built))
  exact enrolled.trans (enrolled.lawful.nameVersion _)

theorem ends_createCatalog (lawful : w.Lawful) (name globalName : String) (make : RegistryId → Catalog)
    (bare : ∀ id version, (make id).held version = none) :
    Ends (do
      let g ← global globalName
      Session.keepCatalog name (make g.id)) w (fun _ => w.Enlarges) w.Enlarges := by
  rw [ends_bind]
  refine ends_global lawful (fun g _ _ => ?_) (.refl lawful)
  rw [Session.keepCatalog, ends_modify]
  refine lawful.keepCatalog name fun version r held => ?_
  rw [bare] at held
  cases held

theorem ends_changeCatalog (lawful : w.Lawful) (name : String) (change : Catalog → Catalog)
    (same : ∀ c version, (change c).held version = c.held version) :
    Ends (changeCatalog name change) w (fun _ => w.Enlarges) w.Enlarges := by
  simp only [changeCatalog, catalog, Session.keepCatalog, ends_bind, ends_get, ends_found, ends_modify]
  refine ⟨fun c named => lawful.keepCatalog name fun version r held => ?_,
    fun _ => Enlarges.refl lawful⟩
  rw [same] at held
  exact lawful.held name c version r named held

theorem ends_lookUp (lawful : w.Lawful) (name version target : String) :
    Ends (lookUp name version target) w (fun _ => w.Enlarges) w.Enlarges := by
  simp only [lookUp, catalog, nextId, ends_bind, ends_get, ends_found, ends_pure]
  refine ⟨fun c named => ends_registryAt (fun g _ => ?_) (.refl lawful),
    fun _ => Enlarges.refl lawful⟩
  simp only [Session.keepCatalog, ends_modify, ends_perform]
  have given := c.given_get w.registries.size g version
  have logged := lawful.logged (w.records ++ (c.get w.registries.size g version).2.records)
  -- the catalog may come after its registries, since no name but its own changes with it
  have kept {v : Workspace} (enlarged : w.Enlarges v) (same : v.catalogs = w.catalogs)
      (there : ∀ r, (c.get w.registries.size g version).2.result = .ok r →
        v.registries[r.id]? = some r ∧ r.isGlobal = false) :
      w.Enlarges { v with catalogs := w.catalogs.insert name (c.get w.registries.size g version).1 } := by
    refine enlarged.trans (same ▸ enlarged.lawful.keepCatalog name fun other r held => ?_)
    obtain old | ⟨_, found⟩ := (given other r).mp held
    · exact enlarged.lawful.held name c other r (same ▸ named) old
    · exact there r found
  refine ⟨fun r found => ?_, fun e failed => kept logged rfl fun r found => ?_⟩
  · obtain ⟨other, held⟩ | ⟨d, built⟩ := Catalog.get_ok found
    · have here := lawful.held name c other r named held
      have old : r.id ≠ w.registries.size := Nat.ne_of_lt (Array.getElem?_eq_some_iff.mp here.1).1
      simp only [old, if_false, Session.nameVersion, ends_bind, ends_get, ends_modify, ends_pure]
      have there : ∀ s, (c.get w.registries.size g version).2.result = .ok s →
          w.registries[s.id]? = some s ∧ s.isGlobal = false := by
        intro s foundToo
        cases found.symm.trans foundToo
        exact here
      have done := kept logged rfl there
      exact done.trans (done.lawful.nameVersion _)
    · have id := (Version.build_parts built).1
      simp only [id, if_true, enrol, Session.nameVersion, ends_bind, ends_get, ends_modify, ends_pure]
      have enrolled := logged.trans (logged.lawful.enrol id (Registry.distinguishes_of_build built))
      have there : ∀ s, (c.get w.registries.size g version).2.result = .ok s →
          (w.registries.push r)[s.id]? = some s ∧ s.isGlobal = false := by
        intro s foundToo
        cases found.symm.trans foundToo
        rw [id, Array.getElem?_push_size]
        exact ⟨rfl, Version.isGlobal_of_build built⟩
      have done := kept enrolled rfl there
      exact done.trans (done.lawful.nameVersion _)
  · cases failed.symm.trans found

end Session

/-! ### Runs -/

inductive RegistryRequest
  | makeGlobal (name : String)
  | makeStandard (name : String)
  | registerStandard (name : String)
  | register (name : String) (d : Declaration)
  | registerForEach (name : String) (kind : Name)
  | buildVersion (name text globalName : String)
  | createCatalog (name globalName : String) (folder : Option Folder)
  | configureCatalog (name globalName : String) (s : Settings) (texts : Option (List (String × String)))
  | link (name version target : String)
  | describe (name : String) (d : VersionDescription)
  | removeFile (name version : String)
  | lookUp (name version target : String)

namespace RegistryRequest

def session : RegistryRequest → Session Unit
  | makeGlobal name => do let _ ← Session.makeGlobal name Registry.newGlobal
  | makeStandard name => do let _ ← Session.makeGlobal name Vanilla.start
  | registerStandard name => do let _ ← Session.registerStandard name
  | register name d => do let _ ← Session.register name d
  | registerForEach name kind => do let _ ← Session.registerForEach name kind
  | buildVersion name text globalName => do let _ ← Session.buildVersion name text globalName
  | createCatalog name globalName folder => Session.createCatalog name globalName folder
  | configureCatalog name globalName s texts => Session.configureCatalog name globalName s texts
  | link name version target => Session.changeCatalog name fun c => c.link version target
  | describe name d => Session.changeCatalog name fun c => c.describe d
  | removeFile name version => Session.removeFile name version
  | lookUp name version target => do let _ ← Session.lookUp name version target

/-- No request takes a registry away or changes one but by registering more in it. -/
theorem ends_session {w : Workspace} (lawful : w.Lawful) (q : RegistryRequest) :
    q.session.Ends w (fun _ => w.Enlarges) w.Enlarges := by
  cases q with
  | makeGlobal name =>
    rw [session, Session.ends_bind]
    refine (Session.ends_makeGlobal lawful name fun id r made => ?_).mono (fun _ _ h => h.1) fun _ h => h
    exact ⟨Registry.id_newGlobal made, .start made⟩
  | makeStandard name =>
    rw [session, Session.ends_bind]
    refine (Session.ends_makeGlobal lawful name fun id r made => ?_).mono (fun _ _ h => h.1) fun _ h => h
    obtain ⟨s, run, new, rfl⟩ := Vanilla.start_attempts made
    exact ⟨(Registry.id_attempts s run).trans (Registry.id_newGlobal new),
      (Registry.Global.start new).attempts run⟩
  | registerStandard name =>
    rw [session, Session.ends_bind]
    exact Session.ends_registerStandard lawful name
  | register name d =>
    rw [session, Session.ends_bind]
    exact Session.ends_register lawful name d
  | registerForEach name kind =>
    rw [session, Session.ends_bind]
    exact Session.ends_registerForEach lawful name kind
  | buildVersion name text globalName =>
    rw [session, Session.ends_bind]
    exact Session.ends_buildVersion lawful name text globalName
  | createCatalog name globalName folder =>
    exact Session.ends_createCatalog lawful name globalName (.fresh · folder) fun _ _ => rfl
  | configureCatalog name globalName s texts =>
    exact Session.ends_createCatalog lawful name globalName (.ofSettings · s texts) fun _ _ => rfl
  | link name version target =>
    exact Session.ends_changeCatalog lawful name (·.link version target) fun _ _ => rfl
  | describe name d =>
    exact Session.ends_changeCatalog lawful name (·.describe d) fun _ _ => rfl
  | removeFile name version =>
    exact Session.ends_changeCatalog lawful name
      (fun c => { c with folder := c.folder.map fun f => f.remove version }) fun _ _ => rfl
  | lookUp name version target =>
    rw [session, Session.ends_bind]
    exact Session.ends_lookUp lawful name version target

theorem enlarges {w : Workspace} (lawful : w.Lawful) (q : RegistryRequest) :
    w.Enlarges (w.answer q.session).1 := by
  have quiet := lawful.logged #[]
  exact quiet.trans (Workspace.answer_of_ends (motive := Workspace.Enlarges _) (ends_session quiet.lawful q))

def run (w : Workspace) (qs : List RegistryRequest) : Workspace :=
  qs.foldl (fun v q => (v.answer q.session).1) w

theorem run_enlarges {w : Workspace} (lawful : w.Lawful) (qs : List RegistryRequest) :
    w.Enlarges (run w qs) := by
  induction qs generalizing w with
  | nil => exact .refl lawful
  | cons q rest ih =>
    have first := q.enlarges lawful
    exact first.trans (ih first.lawful)

end RegistryRequest

/-- When states are equal, one that comes from the registry at a handle and one from that at another. -/
structure BlockState.Interned (i j : RegistryId) (s t : BlockState) : Prop where
  values : s.same t = true ↔
    i = j ∧ s.name = t.name ∧ ∀ p ∈ s.kind.properties, s.index p.name = t.index p.name
  runtimeId : s.same t = true ↔ i = j ∧ s.runtimeId = t.runtimeId
  identical : s.same t = true ↔ s = t

namespace Workspace

theorem Enlarges.interned {w v : Workspace} (lawful : w.Lawful) (enlarges : w.Enlarges v) {i j : RegistryId}
    {r r' : Registry} (here : w.registries[i]? = some r) (there : v.registries[j]? = some r')
    {s t : BlockState} (left : r.Yields s) (right : r'.Yields t) : s.Interned i j t := by
  obtain ⟨id, distinguishes⟩ := lawful.kept i r here
  obtain ⟨idToo, distinguishesToo⟩ := enlarges.lawful.kept j r' there
  have known := left.member distinguishes.sound
  have knownToo := right.member distinguishesToo.sound
  have home : s.registry = i := (distinguishes.registry known).trans id
  have homeToo : t.registry = j := (distinguishesToo.registry knownToo).trans idToo
  -- a registry later on has the states it had before
  have later : i = j → s ∈ r'.index.states := by
    intro same
    obtain ⟨u, found, kinds⟩ := enlarges.kinds i r here
    cases (same ▸ found).symm.trans there
    exact Index.mem_states.mpr (kinds.subset (Index.mem_states.mp known))
  have equal : s.same t = true ↔ i = j ∧ s.runtimeId = t.runtimeId := by
    rw [BlockState.same, Bool.and_eq_true, decide_eq_true_eq, decide_eq_true_eq, home, homeToo, and_comm]
  have identical : i = j ∧ s.runtimeId = t.runtimeId ↔ s = t := by
    constructor
    · rintro ⟨same, number⟩
      exact distinguishesToo.sound.index.eq_of_runtimeId (later same) knownToo number
    · rintro rfl
      exact ⟨home.symm.trans homeToo, rfl⟩
  refine ⟨equal.trans ⟨fun h => ?_, fun h => ?_⟩, equal, equal.trans identical⟩
  · obtain rfl := identical.mp h
    exact ⟨h.1, rfl, fun _ _ => rfl⟩
  · obtain ⟨same, name, values⟩ := h
    exact identical.mpr (distinguishesToo.eq_of_index (later same) knownToo name values)

/-- States that come from the registries of a run, at any two moments of it, are equal if they come from one
registry and have one name and one value for each property, and just as well if they have one number there. -/
theorem run_interns (before after : List RegistryRequest) (i j : RegistryId) :
    let now := RegistryRequest.run empty before
    let later := RegistryRequest.run now after
    ∀ r ∈ now.registries[i]?, ∀ r' ∈ later.registries[j]?, ∀ s t, r.Yields s → r'.Yields t →
      s.Interned i j t := by
  intro now later r here r' there s t left right
  have first := RegistryRequest.run_enlarges empty_lawful before
  exact (RegistryRequest.run_enlarges first.lawful after).interned first.lawful here there left right

/-! ### Two registries with lamps -/

def lamp : Declaration := ⟨.standard "lamp", [.bool "lit" false], none, none⟩

theorem lamp_sound : lamp.Sound where
  few := by decide
  names := List.nodup_singleton _
  sizes p member := by
    obtain rfl := List.mem_singleton.mp member
    decide

theorem lamp_states {k : BlockKind} (properties : k.properties = lamp.properties) :
    ∃ dark lit found, k.defaultState.withText "lit" "false" = .ok dark ∧
      k.defaultState.withText "lit" "true" = .ok lit ∧ dark.withIndex "lit" 1 = .ok found ∧
      dark.Takes (.bool "lit" false) 1 found ∧ k.defaultState.Takes (.bool "lit" false) 0 dark ∧
      k.defaultState.Takes (.bool "lit" false) 1 lit := by
  have independent : k.Independent := by
    apply BlockKind.independent
    rw [properties]
    exact lamp_sound.names
  have member : Property.bool "lit" false ∈ k.properties := properties ▸ List.mem_singleton_self _
  have start : k.defaultState ∈ k.states := BlockKind.mem_states.mpr rfl
  obtain ⟨dark, takesDark, setsDark, _⟩ := independent.sets _ start _ member 0 (by decide)
  obtain ⟨lit, takesLit, setsLit, _⟩ := independent.sets _ start _ member 1 (by decide)
  obtain ⟨found, takes, sets, _⟩ :=
    independent.sets dark (BlockKind.mem_states.mpr takesDark.kind) _ member 1 (by decide)
  exact ⟨dark, lit, found, setsDark _ (.text rfl), setsLit _ (.text rfl), sets _ .index, takes, takesDark,
    takesLit⟩

theorem answer_register {w : Workspace} {name : String} {d : Declaration} {r s : Registry} {k : BlockKind}
    (named : w.globals.find? name = some r.id) (here : w.registries[r.id]? = some r)
    (registered : (r.register d).result = .ok (s, k)) :
    (w.answer (RegistryRequest.register name d).session).1.globals = w.globals ∧
      (w.answer (RegistryRequest.register name d).session).1.registries =
        w.registries.setIfInBounds s.id s := by
  obtain ⟨inside, same⟩ := Array.getElem?_eq_some_iff.mp here
  refine answer_of_ends (motive := fun v => v.globals = w.globals ∧
    v.registries = w.registries.setIfInBounds s.id s) ?_
  simp [RegistryRequest.session, Session.register, Session.global, Session.registryAt, Session.refresh,
    named, inside, same, registered]

theorem Enlarges.kind {w v : Workspace} (lawful : w.Lawful) (enlarges : w.Enlarges v) {i : RegistryId}
    {r : Registry} {name : Name} {k : BlockKind} (here : w.registries[i]? = some r)
    (found : r.index.kind name = .ok k) :
    ∃ s, v.registries[i]? = some s ∧ s.index.kind name = .ok k := by
  obtain ⟨s, there, kinds⟩ := enlarges.kinds i r here
  obtain ⟨member, named⟩ := (Index.kind_eq_ok_iff (lawful.kept i r here).2.sound.index).mp found
  exact ⟨s, there, (Index.kind_eq_ok_iff (enlarges.lawful.kept i s there).2.sound.index).mpr
    ⟨kinds.subset member, named⟩⟩

def lampRequests : List RegistryRequest :=
  [.makeGlobal "g", .makeGlobal "h", .register "g" lamp, .register "h" lamp]

theorem exists_lamps : ∃ g h k k', (RegistryRequest.run empty lampRequests).registries = #[g, h] ∧
    g.index.kind lamp.name = .ok k ∧ k.properties = lamp.properties ∧
    h.index.kind lamp.name = .ok k' ∧ k'.properties = lamp.properties := by
  obtain ⟨g, g', k, madeG, registeredG⟩ :=
    Registry.exists_registered lamp_sound rfl (by decide) rfl (by decide) 0
  obtain ⟨h, h', k', madeH, registeredH⟩ :=
    Registry.exists_registered lamp_sound rfl (by decide) rfl (by decide) 1
  obtain ⟨kindG, propertiesG⟩ := Registry.register_kind (Registry.newGlobal_sound madeG) registeredG
  obtain ⟨kindH, propertiesH⟩ := Registry.register_kind (Registry.newGlobal_sound madeH) registeredH
  have idG : g.id = 0 := Registry.id_newGlobal madeG
  have idH : h.id = 1 := Registry.id_newGlobal madeH
  have idG' : g'.id = 0 := (Registry.id_register registeredG).trans idG
  have idH' : h'.id = 1 := (Registry.id_register registeredH).trans idH
  let start := RegistryRequest.run empty [.makeGlobal "g", .makeGlobal "h"]
  have registries : start.registries = #[g, h] := by
    have made : some start.registries = (do
      let g ← (Registry.newGlobal 0).result.toOption
      let h ← (Registry.newGlobal 1).result.toOption
      return #[g, h]) := rfl
    rw [madeG, madeH] at made
    exact Option.some.inj made
  obtain ⟨globals, first⟩ := @answer_register start "g" lamp g g' k (by rw [idG]; rfl)
    (by rw [registries, idG]; rfl) registeredG
  rw [registries, idG'] at first
  obtain ⟨_, second⟩ := @answer_register _ "h" lamp h h' k' (by rw [globals, idH]; rfl)
    (by rw [first, idH]; rfl) registeredH
  rw [first, idH'] at second
  exact ⟨g', h', k, k', second, kindG, propertiesG, kindH, propertiesH⟩

theorem lamps_interned :
    let now := RegistryRequest.run empty lampRequests
    let later := RegistryRequest.run now
      [.register "g" ⟨.standard "torch", [.bool "lit" false], none, none⟩]
    ∃ r r' r'' k k', now.registries[0]? = some r ∧ later.registries[0]? = some r' ∧
      later.registries[1]? = some r'' ∧ r.index.kind lamp.name = .ok k ∧
      r'.index.kind lamp.name = .ok k ∧ r''.index.kind lamp.name = .ok k' ∧
      ∃ dark lit found other, k.defaultState.withText "lit" "false" = .ok dark ∧
        k.defaultState.withText "lit" "true" = .ok lit ∧ dark.withIndex "lit" 1 = .ok found ∧
        k'.defaultState.withText "lit" "true" = .ok other ∧
        lit.Interned 0 0 found ∧ lit = found ∧ dark.Interned 0 0 found ∧ dark ≠ found ∧
        lit.Interned 0 1 other ∧ lit ≠ other := by
  obtain ⟨g, h, k, k', registries, kindG, propertiesG, kindH, propertiesH⟩ := exists_lamps
  let torch : RegistryRequest := .register "g" ⟨.standard "torch", [.bool "lit" false], none, none⟩
  have lawful := (RegistryRequest.run_enlarges empty_lawful lampRequests).lawful
  have enlarges := RegistryRequest.run_enlarges lawful [torch]
  have hereG : (RegistryRequest.run empty lampRequests).registries[0]? = some g := by rw [registries]; rfl
  have hereH : (RegistryRequest.run empty lampRequests).registries[1]? = some h := by rw [registries]; rfl
  obtain ⟨r', later, kindR'⟩ := enlarges.kind lawful hereG kindG
  obtain ⟨r'', new, kindR''⟩ := enlarges.kind lawful hereH kindH
  obtain ⟨dark, lit, found, setDark, setLit, setFound, goesOn, isDark, isLit⟩ := lamp_states propertiesG
  obtain ⟨_, other, _, _, setOther, _⟩ := lamp_states propertiesH
  have start {r : Registry} {k : BlockKind} (known : r.index.kind lamp.name = .ok k) :
      r.Yields k.defaultState :=
    .answer (.defaultState lamp.name) (congrArg (BlockKind.defaultState <$> ·) known) List.mem_cons_self
  have interned := run_interns lampRequests [torch] 0
  have first := interned 0 g hereG r' later lit found ((start kindG).withText setLit)
    (((start kindR').withText setDark).withIndex setFound)
  have second := interned 0 g hereG r' later dark found ((start kindG).withText setDark)
    (((start kindR').withText setDark).withIndex setFound)
  have third := interned 1 g hereG r'' new lit other ((start kindG).withText setLit)
    ((start kindR'').withText setOther)
  refine ⟨g, r', r'', k, k', hereG, later, new, kindG, kindR', kindR'', dark, lit, found, other, setDark,
    setLit, setFound, setOther, first, first.identical.mp (first.values.mpr ⟨rfl, ?_, ?_⟩), second,
    fun equal => ?_, third, fun equal => ?_⟩
  · show lit.kind.name = found.kind.name
    rw [isLit.kind, goesOn.kind, isDark.kind]
  · intro p member
    rw [isLit.kind] at member
    have known : p ∈ k.properties := member
    rw [propertiesG] at known
    obtain rfl := List.mem_singleton.mp known
    exact isLit.index.trans goesOn.index.symm
  · obtain rfl := equal
    cases isDark.index.symm.trans goesOn.index
  · obtain ⟨apart, _⟩ := third.runtimeId.mp (third.identical.mpr equal)
    exact absurd apart (by decide)

end Workspace
end Voxel
