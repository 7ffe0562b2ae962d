import Mathlib.Logic.Basic
import Mathlib.Tactic.ByContra
import Voxel.Proofs.Fluid

/-!
# Runs of declarations

Fillings are declared to a table one after the other, and each is taken or refused. `Sound.step` is one
declaration and `Sound.run` a run of them; `Sound.exact` says what is seen of a table that took some
fillings. Whether all of a list are taken is a matter of the set of them (`smooth_iff_consistent`), so
neither that nor the answers of the table depend on their order (`run_exact`).
-/

namespace Voxel.FluidTable

/-- A filling that a table can take which took others: it was taken before, or shares neither its full
state nor its parts with any of them. -/
def Fits (taken : List Filling) (f : Filling) : Prop :=
  f.fluid ≠ 0 ∧ (f ∈ taken ∨ ∀ g ∈ taken,
    g.filled ≠ f.filled ∧ (g.drained, g.fluid) ≠ (f.drained, f.fluid))

theorem fits_iff {taken : List Filling} (consistent : Consistent (· ∈ taken)) (f : Filling) :
    Fits taken f ↔ f.fluid ≠ 0 ∧ ∀ g ∈ taken, Agree g f := by
  refine and_congr_right fun _ => ⟨?_, fun agree => ?_⟩
  · rintro (known | apart) g member
    · exact consistent.agree g f member known
    · rintro (filled | ⟨drained, fluid⟩)
      · exact absurd filled (apart g member).1
      · exact absurd (Prod.ext drained fluid) (apart g member).2
  · by_cases known : f ∈ taken
    · exact Or.inl known
    · refine Or.inr fun g member => ⟨fun filled => known ?_, fun parts => known ?_⟩
      · exact agree g member (Or.inl filled) ▸ member
      · exact agree g member (Or.inr (Prod.mk.inj parts)) ▸ member

/-! ### Writing in place -/

/-- Changes to the two halves of a table one after the other. What is changed before a failure stays
changed. -/
abbrev Changes := ExceptT BlockError (StateM FluidTable)

namespace Changes

def refuse (d : FluidDefect) : Changes Unit := throw (.construction (.fluid d))

def declare (f : Filling) : Changes Unit := do
  if f.fluid = 0 then refuse (.noFluid f.filled)
  else
    match (← get).split[f.filled]? with
    | some parts =>
      if parts = (f.drained, f.fluid) then return
      else refuse (.splitTwice f.filled parts (f.drained, f.fluid))
    | none =>
      match (← get).merge[(f.drained, f.fluid)]? with
      | some other => refuse (.combinedTwice f.drained f.fluid other f.filled)
      | none =>
        modify fun t => { t with merge := t.merge.insert (f.drained, f.fluid) f.filled }
        modify fun t => { t with split := t.split.insert f.filled (f.drained, f.fluid) }

def perform (t : FluidTable) (x : Changes Unit) : FluidTable × Except BlockError Unit :=
  (StateT.run (ExceptT.run x) t).swap

/-- A declaration in place leaves no trace when it fails, so it is the same as one that makes a new
table. -/
theorem perform_declare (t : FluidTable) (f : Filling) : perform t (declare f) =
    match t.insert f with
    | .ok u => (u, .ok ())
    | .error e => (t, .error e) := by
  unfold declare FluidTable.insert
  by_cases fluid : f.fluid = 0
  · rw [if_pos fluid, if_pos fluid]
    rfl
  rw [if_neg fluid, if_neg fluid]
  show perform t (match t.split[f.filled]? with | some _ => _ | none => _) = _
  cases t.split[f.filled]? with
  | some parts =>
    dsimp only
    by_cases same : parts = (f.drained, f.fluid)
    · rw [if_pos same, if_pos same]
      rfl
    · rw [if_neg same, if_neg same]
      rfl
  | none =>
    show perform t (match t.merge[(f.drained, f.fluid)]? with | some _ => _ | none => _) = _
    cases t.merge[(f.drained, f.fluid)]? <;> rfl

end Changes

/-! ### One declaration -/

/-- A table while fillings are declared to it, with those that it took. -/
structure Intake where
  table : FluidTable
  taken : List Filling

namespace Intake

def start : Intake := ⟨.empty, []⟩

def step (x : Intake) (f : Filling) : Intake × Except BlockError Unit :=
  match x.table.insert f with
  | .ok table => (⟨table, x.taken ++ [f]⟩, .ok ())
  | .error e => (x, .error e)

def run (x : Intake) (calls : List Filling) : Intake := calls.foldl (fun y f => (y.step f).1) x

def Smooth (x : Intake) (calls : List Filling) : Prop :=
  ∀ before f after, calls = before ++ f :: after → ((x.run before).step f).2 = .ok ()

/-- Both ways of the table lead along the fillings that were taken, and these fit together. -/
structure Sound (x : Intake) : Prop where
  holds : x.table.Holds (· ∈ x.taken)
  consistent : Consistent (· ∈ x.taken)

theorem start_sound : start.Sound :=
  ⟨empty_holds.congr fun _ => by simp [start], (Consistent.congr fun _ => by simp [start]).mp
    empty_consistent⟩

variable {x : Intake}

theorem Sound.step_cases (sound : x.Sound) (f : Filling) :
    (Fits x.taken f ∧ ∃ table, x.table.insert f = .ok table ∧
      x.step f = (⟨table, x.taken ++ [f]⟩, .ok ()) ∧ Sound ⟨table, x.taken ++ [f]⟩) ∨
    (¬ Fits x.taken f ∧ ∃ defect, x.table.insert f = .error (.construction defect) ∧
      x.step f = (x, .error (.construction defect))) := by
  rw [fits_iff sound.consistent]
  by_cases good : f.fluid ≠ 0 ∧ ∀ g ∈ x.taken, Agree g f
  · obtain ⟨table, inserted, holds⟩ := insert_of_agree sound.holds good.1 good.2
    have same : ∀ g, g ∈ x.taken ∨ g = f ↔ g ∈ x.taken ++ [f] := by simp
    refine Or.inl ⟨good, table, inserted, by rw [step, inserted], holds.congr same, ?_⟩
    exact (Consistent.congr same).mp ((consistent_snoc sound.consistent f).mpr good)
  · obtain ⟨defect, refused⟩ := insert_of_not_agree sound.holds good
    exact Or.inr ⟨good, defect, refused, by rw [step, refused]⟩

theorem Sound.step (sound : x.Sound) (f : Filling) : (x.step f).1.Sound := by
  obtain ⟨_, table, _, taken, after⟩ | ⟨_, defect, _, refused⟩ := sound.step_cases f
  · rw [taken]
    exact after
  · rw [refused]
    exact sound

theorem Sound.run (sound : x.Sound) (calls : List Filling) : (x.run calls).Sound := by
  induction calls generalizing x with
  | nil => exact sound
  | cons f rest ih => exact ih (sound.step f)

/-! ### What a table answers -/

end Intake

/-- What is seen of a table that took some fillings. -/
structure Exact (t : FluidTable) (taken : List Filling) : Prop where
  takes : ∀ f, (∃ u, t.insert f = .ok u) ↔ Fits taken f
  inPlace : ∀ f, Changes.perform t (.declare f) =
    match t.insert f with
    | .ok u => (u, .ok ())
    | .error e => (t, .error e)
  extract_ne_zero : ∀ b, t.extract b ≠ 0 ↔ ∃ f ∈ taken, f.filled = b
  add_parts : ∀ b, t.extract b ≠ 0 → t.add? (t.strip b) (t.extract b) = some b
  parts_add : ∀ b d f, f ≠ 0 → t.add? d f = some b → t.strip b = d ∧ t.extract b = f
  strip_dry : ∀ b, t.extract b = 0 → t.strip b = b
  add_zero : ∀ d, t.add? d 0 = some d

section

variable {t : FluidTable} {D : Filling → Prop}

theorem Holds.parts (holds : t.Holds D) {f : Filling} (inside : D f) :
    t.strip f.filled = f.drained ∧ t.extract f.filled = f.fluid := by
  rw [strip, extract, (holds.split f).mpr inside]
  exact ⟨rfl, rfl⟩

theorem Holds.dry (holds : t.Holds D) {b : StateId} (none : ¬ ∃ f, D f ∧ f.filled = b) :
    t.strip b = b ∧ t.extract b = 0 := by
  cases found : t.split[b]? with
  | none =>
    rw [strip, extract, found]
    exact ⟨rfl, rfl⟩
  | some parts => exact absurd ⟨⟨b, parts.1, parts.2⟩, (holds.split _).mp found, rfl⟩ none

theorem Holds.add_iff (holds : t.Holds D) {b d f : StateId} (fluid : f ≠ 0) :
    t.add? d f = some b ↔ D ⟨b, d, f⟩ := by
  rw [add?, if_neg fluid]
  exact holds.merge ⟨b, d, f⟩

theorem Holds.extract_ne_zero (holds : t.Holds D) (consistent : Consistent D) (b : StateId) :
    t.extract b ≠ 0 ↔ ∃ f, D f ∧ f.filled = b := by
  constructor
  · intro full
    by_contra none
    exact full (holds.dry none).2
  · rintro ⟨f, inside, rfl⟩
    rw [(holds.parts inside).2]
    exact consistent.fluid f inside

end

theorem Intake.Sound.exact {x : Intake} (sound : x.Sound) : x.table.Exact x.taken where
  takes f := by
    obtain ⟨fits, table, inserted, _⟩ | ⟨unfit, defect, refused, _⟩ := sound.step_cases f
    · simp only [inserted, fits, Except.ok.injEq, exists_eq']
    · simp only [refused, unfit, reduceCtorEq, exists_false]
  inPlace f := Changes.perform_declare x.table f
  extract_ne_zero b := sound.holds.extract_ne_zero sound.consistent b
  add_parts b full := by
    obtain ⟨f, inside, rfl⟩ := (sound.holds.extract_ne_zero sound.consistent b).mp full
    obtain ⟨strip, extract⟩ := sound.holds.parts inside
    rw [strip, extract]
    exact (sound.holds.add_iff (sound.consistent.fluid f inside)).mpr inside
  parts_add b d f fluid added := sound.holds.parts ((sound.holds.add_iff fluid).mp added)
  strip_dry b dry := by
    have none := (not_congr (sound.holds.extract_ne_zero sound.consistent b)).mp (not_not_intro dry)
    exact (sound.holds.dry none).1
  add_zero d := if_pos rfl

/-! ### The order of declarations -/

/-- Tables that give the same answers. -/
structure Alike (t u : FluidTable) : Prop where
  extract : ∀ b, t.extract b = u.extract b
  strip : ∀ b, t.strip b = u.strip b
  add : ∀ d f, t.add? d f = u.add? d f
  size : t.size = u.size

theorem Holds.alike {t u : FluidTable} {D : Filling → Prop} (left : t.Holds D) (right : u.Holds D) :
    t.Alike u := by
  have split : ∀ b : StateId, t.split[b]? = u.split[b]? := fun b => Option.ext fun parts =>
    (left.split ⟨b, parts.1, parts.2⟩).trans (right.split ⟨b, parts.1, parts.2⟩).symm
  have merge : ∀ parts : StateId × StateId, t.merge[parts]? = u.merge[parts]? :=
    fun parts => Option.ext fun b =>
      (left.merge ⟨b, parts.1, parts.2⟩).trans (right.merge ⟨b, parts.1, parts.2⟩).symm
  refine ⟨fun b => ?_, fun b => ?_, fun d f => ?_, ?_⟩
  · rw [FluidTable.extract, split, FluidTable.extract]
  · rw [FluidTable.strip, split, FluidTable.strip]
  · rw [add?, merge, add?]
  · exact (Std.HashMap.Equiv.of_forall_getElem?_eq split).size_eq

namespace Intake

variable {x : Intake}

theorem smooth_cons (f : Filling) (rest : List Filling) :
    x.Smooth (f :: rest) ↔ (x.step f).2 = .ok () ∧ (x.step f).1.Smooth rest := by
  constructor
  · intro smooth
    exact ⟨smooth [] f rest rfl, fun before g after same =>
      smooth (f :: before) g after (congrArg (f :: ·) same)⟩
  · rintro ⟨first, later⟩ before g after same
    cases before with
    | nil =>
      obtain ⟨rfl, rfl⟩ := List.cons.inj same
      exact first
    | cons e before =>
      obtain ⟨rfl, tail⟩ := List.cons.inj same
      exact later before g after tail

/-- What a run takes whole, it takes in its order, and it does if all of it fits together. -/
theorem Sound.smooth (sound : x.Sound) (calls : List Filling) :
    (x.Smooth calls ↔ Consistent (· ∈ x.taken ++ calls)) ∧
    (x.Smooth calls → (x.run calls).taken = x.taken ++ calls) := by
  induction calls generalizing x with
  | nil =>
    have smooth : x.Smooth [] := fun before f after same => by simp at same
    rw [List.append_nil]
    exact ⟨iff_of_true smooth sound.consistent, fun _ => rfl⟩
  | cons f rest ih =>
    rw [smooth_cons, List.append_cons]
    obtain ⟨_, table, _, taken, after⟩ | ⟨unfit, defect, _, refused⟩ := sound.step_cases f
    · have next : x.run (f :: rest) = Intake.run ⟨table, x.taken ++ [f]⟩ rest := by
        show Intake.run (x.step f).1 rest = _
        rw [taken]
      rw [taken, next]
      exact ⟨(and_iff_right rfl).trans (ih after).1, fun smooth => (ih after).2 smooth.2⟩
    · rw [refused]
      refine ⟨iff_of_false (fun smooth => nomatch smooth.1) fun all => unfit ?_,
        fun smooth => nomatch smooth.1⟩
      have first : Consistent fun g => g ∈ x.taken ∨ g = f := all.mono fun g inside => by
        rcases inside with old | rfl
        · simp [old]
        · simp
      exact (fits_iff sound.consistent f).mpr ((consistent_snoc sound.consistent f).mp first)

theorem smooth_iff_consistent (calls : List Filling) :
    start.Smooth calls ↔ Consistent (· ∈ calls) :=
  (start_sound.smooth calls).1

theorem smooth_holds {calls : List Filling} (smooth : start.Smooth calls) :
    (start.run calls).table.Holds (· ∈ calls) := by
  have taken : (start.run calls).taken = calls := (start_sound.smooth calls).2 smooth
  have holds := (start_sound.run calls).holds
  rwa [taken] at holds

/-- A table is exact after every run of declarations, and in whatever order they come, all of them are
taken or not, and the table gives the same answers if they are. -/
theorem run_exact {calls others : List Filling} (reordered : calls.Perm others) :
    (start.run calls).table.Exact (start.run calls).taken ∧
    (start.Smooth calls ↔ start.Smooth others) ∧
    (start.Smooth calls → (start.run calls).table.Alike (start.run others).table) := by
  have same : ∀ f, f ∈ calls ↔ f ∈ others := fun f => reordered.mem_iff
  have smooth : start.Smooth calls ↔ start.Smooth others := by
    rw [smooth_iff_consistent, smooth_iff_consistent]
    exact Consistent.congr same
  refine ⟨(start_sound.run calls).exact, smooth, fun left => ?_⟩
  exact (smooth_holds left).alike ((smooth_holds (smooth.mp left)).congr fun f => (same f).symm)

theorem run_exact_water :
    List.Perm [⟨10, 0, 10⟩, ⟨20, 30, 10⟩, ⟨21, 31, 10⟩, ⟨20, 30, 10⟩]
      [⟨20, 30, 10⟩, ⟨20, 30, 10⟩, ⟨10, 0, 10⟩, (⟨21, 31, 10⟩ : Filling)] ∧
    start.Smooth [⟨10, 0, 10⟩, ⟨20, 30, 10⟩, ⟨21, 31, 10⟩, ⟨20, 30, 10⟩] ∧
    (start.run [⟨10, 0, 10⟩, ⟨20, 30, 10⟩, ⟨21, 31, 10⟩, ⟨20, 30, 10⟩]).table.Alike
      (start.run [⟨20, 30, 10⟩, ⟨20, 30, 10⟩, ⟨10, 0, 10⟩, ⟨21, 31, 10⟩]).table := by
  have reordered : List.Perm [⟨10, 0, 10⟩, ⟨20, 30, 10⟩, ⟨21, 31, 10⟩, ⟨20, 30, 10⟩]
      [⟨20, 30, 10⟩, ⟨20, 30, 10⟩, ⟨10, 0, 10⟩, (⟨21, 31, 10⟩ : Filling)] := by decide
  have smooth : start.Smooth [⟨10, 0, 10⟩, ⟨20, 30, 10⟩, ⟨21, 31, 10⟩, ⟨20, 30, 10⟩] := by
    rw [smooth_iff_consistent]
    have agree : ∀ f ∈ [⟨10, 0, 10⟩, ⟨20, 30, 10⟩, ⟨21, 31, 10⟩, ⟨20, 30, 10⟩],
        ∀ g ∈ [⟨10, 0, 10⟩, ⟨20, 30, 10⟩, ⟨21, 31, 10⟩, ⟨20, 30, 10⟩], Agree f g := by
      unfold Agree
      decide
    exact ⟨by decide, fun f g left right => agree f left g right⟩
  exact ⟨reordered, smooth, (run_exact reordered).2.2 smooth⟩

end Intake
end Voxel.FluidTable
