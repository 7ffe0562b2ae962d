import Voxel.Proofs.Version.Registry
import Voxel.Version.Catalog

/-!
# Runs of a catalog

A catalog builds the registry of a version at most once. A run links versions, describes them, changes the
files in the folder and asks for registries; `Sound` ties a catalog to the run that led to it, by what was
last said of each version and by the registries that were given out. A file is what stands in the folder
under the version's name (`Folder.open?_plain`), and a failed request leaves no trace (`Like.run`).
-/

namespace Voxel

theorem Version.build_of_text {id : RegistryId} {text : String} {global r : Registry}
    (built : (buildText id text global).result = .ok r) : ∃ d, (build id d global).result = .ok r := by
  unfold buildText at built
  rw [Report.result_bind] at built
  obtain ⟨d, _, built⟩ := Outcome.bind_ok built
  exact ⟨d, built⟩

/-! ### Files -/

namespace Folder

/-- A version that is a name and not a path, and the file of which has neither a name nor a path that is
too long. -/
def Plain (f : Folder) (version : String) : Prop :=
  '/' ∉ version.toList ∧ '\x00' ∉ version.toList ∧ (version ++ ".json").utf8ByteSize ≤ maxName ∧
    (f.file version).utf8ByteSize ≤ maxPath

instance (f : Folder) (version : String) : Decidable (f.Plain version) :=
  inferInstanceAs (Decidable (_ ∧ _ ∧ _ ∧ _))

theorem parts_of_no_slash {l : List Char} (plain : '/' ∉ l) : parts l = [l] := by
  induction l with
  | nil => rfl
  | cons c rest ih =>
    rw [List.mem_cons, not_or] at plain
    rw [parts, if_neg (Ne.symm plain.1), ih plain.2]

theorem locate_file (names : List String) {version : String}
    (short : (version ++ ".json").utf8ByteSize ≤ maxName) :
    locate names true [version ++ ".json"] = .ok (version ++ ".json") := by
  have length : (version ++ ".json").length = version.length + 5 :=
    String.length_append version ".json"
  have named : ∀ s : String, s.length < 5 → version ++ ".json" ≠ s := by
    rintro s few rfl
    omega
  have steps : ¬ (version ++ ".json" = "" ∨ version ++ ".json" = ".") :=
    not_or.mpr ⟨named "" (by decide), named "." (by decide)⟩
  rw [locate, if_neg steps, if_neg (named ".." (by decide)), if_neg (Nat.not_lt.mpr short)]
  rfl

theorem open?_plain {f : Folder} {version : String} (plain : f.Plain version) : f.open? version =
    match f.files.bind (·.find? (version ++ ".json")) with
    | some text => .ok text
    | none => .error .notFound := by
  obtain ⟨noSlash, noNul, name, path⟩ := plain
  have steps : (parts (version.toList ++ ".json".toList)).map String.ofList = [version ++ ".json"] := by
    have here : '/' ∉ version.toList ++ ".json".toList := by
      rw [List.mem_append, not_or]
      exact ⟨noSlash, by decide⟩
    rw [parts_of_no_slash here, List.map_singleton, ← String.toList_append, String.ofList_toList]
  have inside : ¬ isAbsolute version = true := by
    rw [isAbsolute, decide_eq_true_eq]
    exact fun first => noSlash (List.mem_of_mem_head? first)
  rw [open?, nameOf, if_neg noNul, if_neg (Nat.not_lt.mpr path), if_neg inside, steps]
  cases f.files with
  | none => rfl
  | some files =>
    dsimp only
    rw [locate_file files.keys name]
    rfl

end Folder

namespace Catalog

def held (c : Catalog) (version : String) : Option Registry := (c.cells.find? version).join

theorem mem_loaded {c : Catalog} {version : String} :
    version ∈ c.loaded ↔ ∃ r, c.held version = some r := by
  rw [loaded, List.mem_mergeSort, List.mem_map]
  constructor
  · rintro ⟨⟨_, cell⟩, inside, rfl⟩
    obtain ⟨member, full⟩ := List.mem_filter.mp inside
    obtain ⟨r, rfl⟩ := Option.isSome_iff_exists.mp full
    exact ⟨r, by rw [held, OrderedMap.find?_of_mem member, Option.join_some]⟩
  · rintro ⟨r, there⟩
    have member := OrderedMap.find?_eq_some_iff.mp (Option.join_eq_some_iff.mp there)
    exact ⟨(version, some r), List.mem_filter.mpr ⟨member, rfl⟩, rfl⟩

theorem nodup_loaded (c : Catalog) : c.loaded.Nodup := by
  rw [loaded, (List.mergeSort_perm _ _).nodup_iff]
  exact (List.filter_sublist.map Prod.fst).nodup c.cells.nodup

/-! ### Loading -/

/-- What a registry is built from: a description, or else what is in the folder under the name of the
version's file. A version that is a path leads wherever the path does. -/
def sourceOf (described : Option VersionDescription) (folder : Option Folder) (id : RegistryId)
    (global : Registry) (version : String) : Except Failure Registry :=
  match described with
  | some d => (Version.build id d global).result
  | none =>
    match folder with
    | none => .error (.error (.invalidValue (.noDescription version)))
    | some f =>
      if f.Plain version then
        match f.files.bind (·.find? (version ++ ".json")) with
        | some text => (Version.buildText id text global).result
        | none => .error (.error (.file .notFound))
      else
        match f.open? version with
        | .ok text => (Version.buildText id text global).result
        | .error e => .error (.error (.file e))

theorem result_load (c : Catalog) (id : RegistryId) (global : Registry) (version : String) :
    (c.load id global version).result =
      sourceOf (c.descriptions.find? version) c.folder id global version := by
  unfold load sourceOf
  cases c.descriptions.find? version with
  | some d => rfl
  | none =>
    cases c.folder with
    | none => rfl
    | some f =>
      dsimp only
      rw [Report.result_bind, Report.result_log, Outcome.ok_bind, Report.result_bind]
      split
      · rename_i plain
        rw [Folder.open?_plain plain]
        cases f.files.bind (·.find? (version ++ ".json")) <;> rfl
      · cases f.open? version <;> rfl

theorem build_of_source {described : Option VersionDescription} {folder : Option Folder}
    {id : RegistryId} {global r : Registry} {version : String}
    (built : sourceOf described folder id global version = .ok r) :
    ∃ d, (Version.build id d global).result = .ok r := by
  unfold sourceOf at built
  repeat' split at built
  · exact ⟨_, built⟩
  · cases built
  · exact Version.build_of_text built
  · cases built
  · exact Version.build_of_text built
  · cases built

theorem id_of_source {described : Option VersionDescription} {folder : Option Folder} {id : RegistryId}
    {global r : Registry} {version : String}
    (built : sourceOf described folder id global version = .ok r) : r.id = id := by
  obtain ⟨_, built⟩ := build_of_source built
  exact (Version.build_parts built).1

/-! ### One request -/

/-- Catalogs that differ at most in cells which are empty or not there. -/
structure Like (c d : Catalog) : Prop where
  folder : c.folder = d.folder
  aliases : c.aliases = d.aliases
  descriptions : c.descriptions = d.descriptions
  held : ∀ version, c.held version = d.held version

theorem Like.refl (c : Catalog) : c.Like c := ⟨rfl, rfl, rfl, fun _ => rfl⟩

theorem cell_spec (c : Catalog) (version : String) :
    ∃ b, c.cell version = (b, c.held version) ∧ b.Like c := by
  unfold cell held
  cases there : c.cells.find? version with
  | some cell => exact ⟨c, rfl, .refl c⟩
  | none =>
    refine ⟨_, rfl, rfl, rfl, rfl, fun other => ?_⟩
    rw [held, OrderedMap.find?_insert, held]
    split
    · rename_i same
      rw [same, there]
      rfl
    · rfl

theorem held_fill (c : Catalog) (version : String) (r : Registry) (other : String) :
    (c.fill version r).held other = if other = version then some r else c.held other := by
  rw [held, fill, OrderedMap.find?_insert]
  split <;> rfl

section

variable {c d : Catalog} (like : c.Like d)
include like

theorem Like.resolve (version : String) : c.resolve version = d.resolve version := by
  rw [Catalog.resolve, like.aliases, Catalog.resolve]

theorem Like.load (id : RegistryId) (global : Registry) (version : String) :
    c.load id global version = d.load id global version := by
  rw [Catalog.load, like.descriptions, like.folder, Catalog.load]

end

/-- What a request answers: what was built before, or else what its source gives now. -/
theorem get_answer (c : Catalog) (id : RegistryId) (global : Registry) (version : String) :
    (c.get id global version).2 =
      match c.resolve version with
      | .error e => Report.fail (.error e)
      | .ok name =>
        match c.held name with
        | some r => pure r
        | none => c.load id global name := by
  unfold get
  cases c.resolve version with
  | error e => rfl
  | ok name =>
    obtain ⟨b, cell, like⟩ := c.cell_spec name
    dsimp only
    rw [cell, ← like.load]
    cases c.held name with
    | some r => rfl
    | none =>
      dsimp only
      cases (b.load id global name).result <;> rfl

theorem held_get (c : Catalog) (id : RegistryId) (global : Registry) (version other : String) :
    (c.get id global version).1.held other =
      match c.resolve version with
      | .error _ => c.held other
      | .ok name =>
        if other = name then (c.held name).or (c.load id global name).result.toOption
        else c.held other := by
  unfold get
  cases c.resolve version with
  | error e => rfl
  | ok name =>
    obtain ⟨b, cell, like⟩ := c.cell_spec name
    dsimp only
    rw [cell, ← like.load, ← like.held other]
    have same_held : other = name → b.held other = c.held name := fun same => same ▸ like.held other
    cases held : c.held name with
    | some r =>
      rw [held] at same_held
      exact (ite_eq_right_iff.mpr fun same => (same_held same).symm).symm
    | none =>
      rw [held] at same_held
      dsimp only
      cases (b.load id global name).result with
      | ok r => exact b.held_fill name r other
      | error e => exact (ite_eq_right_iff.mpr fun same => (same_held same).symm).symm

theorem given_get (c : Catalog) (id : RegistryId) (global : Registry) (asked version : String)
    (r : Registry) : (c.get id global asked).1.held version = some r ↔ c.held version = some r ∨
      (c.resolve asked = .ok version ∧ (c.get id global asked).2.result = .ok r) := by
  rw [held_get, get_answer]
  cases c.resolve asked with
  | error e => exact (or_iff_left fun both => nomatch both.1).symm
  | ok name =>
    dsimp only
    by_cases same : version = name
    · subst same
      rw [if_pos rfl]
      cases c.held version with
      | some t =>
        show some t = some r ↔ some t = some r ∨ Except.ok version = .ok version ∧ Except.ok t = .ok r
        simp
      | none =>
        dsimp only
        cases (c.load id global version).result <;> simp [Except.toOption]
    · rw [if_neg same]
      exact (or_iff_left fun both => same (Except.ok.inj both.1).symm).symm

theorem sources_get (c : Catalog) (id : RegistryId) (global : Registry) (version : String) :
    (c.get id global version).1.folder = c.folder ∧
    (c.get id global version).1.aliases = c.aliases ∧
    (c.get id global version).1.descriptions = c.descriptions := by
  unfold get
  cases c.resolve version with
  | error e => exact ⟨rfl, rfl, rfl⟩
  | ok name =>
    obtain ⟨b, cell, like⟩ := c.cell_spec name
    have sources := And.intro like.folder (And.intro like.aliases like.descriptions)
    dsimp only
    rw [cell]
    cases c.held name with
    | some r => exact sources
    | none =>
      dsimp only
      cases (b.load id global name).result <;> exact sources

/-- A request that fails leaves no trace. -/
theorem like_of_failed {c : Catalog} {id : RegistryId} {global : Registry} {version : String}
    {e : Failure} (failed : (c.get id global version).2.result = .error e) :
    (c.get id global version).1.Like c := by
  obtain ⟨folder, aliases, descriptions⟩ := c.sources_get id global version
  refine ⟨folder, aliases, descriptions, fun other => ?_⟩
  rw [held_get]
  rw [get_answer] at failed
  cases resolved : c.resolve version with
  | error e => rfl
  | ok name =>
    rw [resolved] at failed
    dsimp only at failed ⊢
    split
    · rename_i same
      cases held : c.held name with
      | some r =>
        rw [held] at failed
        cases failed
      | none =>
        rw [held] at failed
        dsimp only at failed
        rw [failed, same, held]
        rfl
    · rfl

/-! ### Runs -/

inductive Act
  | link (version target : String)
  | describe (d : VersionDescription)
  | files (now : Option (OrderedMap String String))
  | get (id : RegistryId) (global : Registry) (version : String)

def start (global : RegistryId) (folder : Option Folder) (aliases : OrderedMap String String) : Catalog :=
  { fresh global folder with aliases }

def step (c : Catalog) : Act → Catalog
  | .link version target => c.link version target
  | .describe d => c.describe d
  | .files now => { c with folder := c.folder.map fun f => { f with files := now } }
  | .get id global version => (c.get id global version).1

def run (c : Catalog) (acts : List Act) : Catalog := acts.foldl step c

theorem run_append (c : Catalog) (acts later : List Act) :
    c.run (acts ++ later) = (c.run acts).run later := List.foldl_append

section

variable {c d : Catalog} (like : c.Like d)
include like

theorem Like.answer (id : RegistryId) (global : Registry) (version : String) :
    (c.get id global version).2 = (d.get id global version).2 := by
  rw [get_answer, get_answer, like.resolve]
  cases d.resolve version with
  | error e => rfl
  | ok name =>
    dsimp only
    rw [like.held, like.load]

theorem Like.step (a : Act) : (c.step a).Like (d.step a) := by
  cases a with
  | link version target =>
    exact ⟨like.folder, congrArg (·.insert version target) like.aliases, like.descriptions, like.held⟩
  | describe e =>
    exact ⟨like.folder, like.aliases, congrArg (·.insert e.version e) like.descriptions, like.held⟩
  | files now =>
    exact ⟨congrArg (Option.map _) like.folder, like.aliases, like.descriptions, like.held⟩
  | get id global version =>
    obtain ⟨folder, aliases, descriptions⟩ := c.sources_get id global version
    obtain ⟨folder', aliases', descriptions'⟩ := d.sources_get id global version
    refine ⟨?_, ?_, ?_, fun other => ?_⟩
    · rw [Catalog.step, folder, like.folder, Catalog.step, folder']
    · rw [Catalog.step, aliases, like.aliases, Catalog.step, aliases']
    · rw [Catalog.step, descriptions, like.descriptions, Catalog.step, descriptions']
    · rw [Catalog.step, held_get, Catalog.step, held_get, like.resolve]
      cases d.resolve version with
      | error e => exact like.held other
      | ok name =>
        dsimp only
        rw [like.held, like.held, like.load]

theorem Like.run (acts : List Act) : (c.run acts).Like (d.run acts) := by
  induction acts generalizing c d with
  | nil => exact like
  | cons a rest ih => exact ih (like.step a)

end

/-! ### What a run said last -/

def latest? {α : Type} (f : Act → Option α) (acts : List Act) : Option α := (acts.filterMap f).getLast?

theorem latest?_snoc {α : Type} (f : Act → Option α) (acts : List Act) (a : Act) :
    latest? f (acts ++ [a]) = (f a).or (latest? f acts) := by
  rw [latest?, List.filterMap_append, List.getLast?_append]
  cases found : f a with
  | none => rw [List.filterMap_cons_none found]; rfl
  | some x => rw [List.filterMap_cons_some found]; rfl

namespace Act

def target? (version : String) : Act → Option String
  | link other target => if version = other then some target else none
  | _ => none

def description? (version : String) : Act → Option VersionDescription
  | describe d => if version = d.version then some d else none
  | _ => none

def files? : Act → Option (Option (OrderedMap String String))
  | files now => some now
  | _ => none

end Act

/-- The folder with its files as a run leaves them. -/
def folderAfter (folder : Option Folder) (acts : List Act) : Option Folder :=
  folder.map fun f => { f with files := (latest? Act.files? acts).getD f.files }

theorem folderAfter_snoc (folder : Option Folder) (acts : List Act) (a : Act) :
    folderAfter folder (acts ++ [a]) = (folderAfter folder acts).map fun f =>
      { f with files := a.files?.getD f.files } := by
  cases folder with
  | none => rfl
  | some f =>
    rw [folderAfter, latest?_snoc, folderAfter]
    cases a <;> rfl

/-- A registry was given out in a run, under the version that it was asked for by its name or by an
alias of it. -/
def Gave (c : Catalog) (acts : List Act) (version : String) (r : Registry) : Prop :=
  ∃ before id global asked after, acts = before ++ .get id global asked :: after ∧
    (c.run before).resolve asked = .ok version ∧
    ((c.run before).get id global asked).2.result = .ok r

theorem gave_snoc {c : Catalog} {acts : List Act} {a : Act} {version : String} {r : Registry} :
    c.Gave (acts ++ [a]) version r ↔ c.Gave acts version r ∨
      ∃ id global asked, a = .get id global asked ∧ (c.run acts).resolve asked = .ok version ∧
        ((c.run acts).get id global asked).2.result = .ok r := by
  constructor
  · rintro ⟨before, id, global, asked, after, split, resolved, gave⟩
    rcases List.eq_nil_or_concat after with rfl | ⟨rest, b, rfl⟩
    · obtain ⟨rfl, last⟩ := List.append_inj' split rfl
      exact Or.inr ⟨id, global, asked, (List.cons.inj last).1, resolved, gave⟩
    · rw [List.concat_eq_append, ← List.cons_append, ← List.append_assoc] at split
      obtain ⟨rfl, _⟩ := List.append_inj' split rfl
      exact Or.inl ⟨before, id, global, asked, rest, rfl, resolved, gave⟩
  · rintro (⟨before, id, global, asked, after, rfl, resolved, gave⟩ |
      ⟨id, global, asked, rfl, resolved, gave⟩)
    · refine ⟨before, id, global, asked, after ++ [a], ?_, resolved, gave⟩
      rw [List.append_assoc, List.cons_append]
    · exact ⟨acts, id, global, asked, [], rfl, resolved, gave⟩

/-- What a catalog knows after a run from its start: what was last said of each version, and the registries
that were given out. -/
structure Sound (s c : Catalog) (acts : List Act) : Prop where
  folder : c.folder = folderAfter s.folder acts
  aliases : ∀ version, c.aliases.find? version =
    (latest? (Act.target? version) acts).or (s.aliases.find? version)
  descriptions : ∀ version, c.descriptions.find? version = latest? (Act.description? version) acts
  held : ∀ version r, c.held version = some r ↔ s.Gave acts version r

theorem start_sound (global : RegistryId) (folder : Option Folder) (aliases : OrderedMap String String) :
    Sound (start global folder aliases) (start global folder aliases) [] where
  folder := by cases folder <;> rfl
  aliases _ := rfl
  descriptions _ := rfl
  held version r := by
    refine iff_of_false (fun held => nomatch held) ?_
    rintro ⟨before, _, _, _, _, split, _⟩
    cases before <;> cases split

section

variable {s : Catalog} {acts : List Act} (sound : s.Sound (s.run acts) acts)
include sound

theorem Sound.held_eq_none {version : String} (absent : ∀ r, ¬ s.Gave acts version r) :
    (s.run acts).held version = none := by
  cases held : (s.run acts).held version with
  | none => rfl
  | some r => exact absurd ((sound.held version r).mp held) (absent r)

theorem Sound.answer (id : RegistryId) (global : Registry) {asked version : String}
    (absent : ∀ r, ¬ s.Gave acts version r) (resolved : (s.run acts).resolve asked = .ok version) :
    ((s.run acts).get id global asked).2.result =
      sourceOf (latest? (Act.description? version) acts) (folderAfter s.folder acts) id global version := by
  rw [get_answer, resolved]
  dsimp only
  rw [sound.held_eq_none absent]
  dsimp only
  rw [result_load, sound.descriptions, sound.folder]

theorem Sound.again (id : RegistryId) (global : Registry) {asked version : String} {r : Registry}
    (gave : s.Gave acts version r) (resolved : (s.run acts).resolve asked = .ok version) :
    ((s.run acts).get id global asked).2 = pure r := by
  rw [get_answer, resolved]
  dsimp only
  rw [(sound.held version r).mpr gave]

theorem Sound.held_step (a : Act) (version : String) (r : Registry) :
    ((s.run acts).step a).held version = some r ↔ s.Gave (acts ++ [a]) version r := by
  rw [gave_snoc, ← sound.held]
  cases a with
  | get id global asked =>
    rw [step, given_get]
    refine or_congr_right ⟨fun ⟨resolved, gave⟩ => ⟨id, global, asked, rfl, resolved, gave⟩, ?_⟩
    rintro ⟨_, _, _, same, resolved, gave⟩
    cases same
    exact ⟨resolved, gave⟩
  | _ => exact (or_iff_left fun ⟨_, _, _, same, _⟩ => nomatch same).symm

/-- Whatever is done keeps the catalog in line with the run. -/
theorem Sound.step (a : Act) : s.Sound (s.run (acts ++ [a])) (acts ++ [a]) := by
  have next : s.run (acts ++ [a]) = (s.run acts).step a := s.run_append acts [a]
  rw [next]
  refine ⟨?_, fun version => ?_, fun version => ?_, sound.held_step a⟩
  · rw [folderAfter_snoc, ← sound.folder]
    cases a with
    | get id global asked =>
      rw [Catalog.step, ((s.run acts).sources_get id global asked).1]
      cases (s.run acts).folder <;> rfl
    | files now => rfl
    | _ => cases folder : (s.run acts).folder <;> exact folder
  · rw [latest?_snoc, Option.or_assoc, ← sound.aliases]
    cases a with
    | get id global asked =>
      rw [Catalog.step, ((s.run acts).sources_get id global asked).2.1]
      rfl
    | link other target =>
      rw [Catalog.step, Catalog.link, OrderedMap.find?_insert, Act.target?]
      split <;> rfl
    | _ => rfl
  · rw [latest?_snoc, ← sound.descriptions]
    cases a with
    | get id global asked =>
      rw [Catalog.step, ((s.run acts).sources_get id global asked).2.2]
      rfl
    | describe d =>
      rw [Catalog.step, Catalog.describe, OrderedMap.find?_insert, Act.description?]
      split <;> rfl
    | _ => rfl

end

theorem run_sound (global : RegistryId) (folder : Option Folder) (aliases : OrderedMap String String)
    (acts : List Act) :
    (start global folder aliases).Sound ((start global folder aliases).run acts) acts := by
  induction acts using List.reverseRecOn with
  | nil => exact start_sound global folder aliases
  | append_singleton acts a ih => exact ih.step a

/-! ### What is seen of a catalog -/

/-- A registry was built in a run when its version was first asked for with success, from what was its
source then, and under the handle that was offered then. -/
def Built (s : Catalog) (acts : List Act) (version : String) (r : Registry) : Prop :=
  ∃ before id global asked after, acts = before ++ .get id global asked :: after ∧
    (∀ t, ¬ s.Gave before version t) ∧ (s.run before).resolve asked = .ok version ∧
    sourceOf (latest? (Act.description? version) before) (folderAfter s.folder before) id global version =
      .ok r ∧ r.id = id

theorem Built.snoc {s : Catalog} {acts : List Act} {version : String} {r : Registry}
    (built : s.Built acts version r) (a : Act) : s.Built (acts ++ [a]) version r := by
  obtain ⟨before, id, global, asked, after, rfl, rest⟩ := built
  exact ⟨before, id, global, asked, after ++ [a], by rw [List.append_assoc, List.cons_append], rest⟩

/-- What is seen of a catalog after a run. -/
structure Keeps (s : Catalog) (acts : List Act) : Prop where
  aliases : ∀ version, (s.run acts).aliases.find? version =
    (latest? (Act.target? version) acts).or (s.aliases.find? version)
  once : ∀ version r, s.Gave acts version r → ∀ id global asked,
    (s.run acts).resolve asked = .ok version → ((s.run acts).get id global asked).2 = pure r
  built : ∀ version r, s.Gave acts version r → s.Built acts version r
  source : ∀ version, (∀ r, ¬ s.Gave acts version r) → ∀ id global asked,
    (s.run acts).resolve asked = .ok version → ((s.run acts).get id global asked).2.result =
      sourceOf (latest? (Act.description? version) acts) (folderAfter s.folder acts) id global version
  cycle : ∀ id global asked e, (s.run acts).resolve asked = .error e →
    ((s.run acts).get id global asked).2 = Report.fail (.error e)
  forgets : ∀ id global asked e, ((s.run acts).get id global asked).2.result = .error e →
    ∀ later id' global' asked',
      ((((s.run acts).get id global asked).1.run later).get id' global' asked').2 =
        (((s.run acts).run later).get id' global' asked').2
  loaded : (s.run acts).loaded.Nodup ∧
    ∀ version, version ∈ (s.run acts).loaded ↔ ∃ r, s.Gave acts version r

section

variable (global : RegistryId) (folder : Option Folder) (aliases : OrderedMap String String)
  (acts : List Act)

theorem built_of_gave {version : String} {r : Registry}
    (gave : (start global folder aliases).Gave acts version r) :
    (start global folder aliases).Built acts version r := by
  induction acts using List.reverseRecOn with
  | nil =>
    obtain ⟨before, _, _, _, _, split, _⟩ := gave
    cases before <;> cases split
  | append_singleton acts a ih =>
    have sound := run_sound global folder aliases acts
    obtain earlier | ⟨id, now, asked, rfl, resolved, gave⟩ := gave_snoc.mp gave
    · exact (ih earlier).snoc a
    by_cases first : ∀ t, ¬ (start global folder aliases).Gave acts version t
    · have source := sound.answer id now first resolved
      rw [gave] at source
      exact ⟨acts, id, now, asked, [], rfl, first, resolved, source.symm, id_of_source source.symm⟩
    · obtain ⟨t, before⟩ := not_forall_not.mp first
      rw [sound.again id now before resolved] at gave
      obtain rfl := Except.ok.inj gave
      exact (ih before).snoc _

/-- A catalog builds the registry of a version once and keeps it, whatever is done before and after. -/
theorem run_keeps : (start global folder aliases).Keeps acts := by
  have sound := run_sound global folder aliases acts
  refine ⟨sound.aliases, fun version r gave id now asked => sound.again id now gave,
    fun version r => built_of_gave global folder aliases acts,
    fun version absent id now asked => sound.answer id now absent, fun id now asked e cycle => ?_,
    fun id now asked e failed later => ((like_of_failed failed).run later).answer,
    nodup_loaded _, fun version => ?_⟩
  · rw [get_answer, cycle]
  · rw [mem_loaded]
    exact exists_congr fun r => sound.held version r

end

end Catalog
end Voxel
