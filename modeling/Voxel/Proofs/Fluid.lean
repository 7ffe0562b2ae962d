import Voxel.Fluid
import Voxel.Outcome

/-!
# Fluid tables

`Holds` ties a table to the fillings in it, and `Holds.combine_parts` shows that a state is put together
again from its parts. A table takes a filling exactly if it agrees with those
that are there (`adds_insert`), and steps one after the other if all their fillings agree
(`adds_foldlM`).
-/

namespace Voxel.FluidTable

/-- Both ways of a table lead along the same fillings. -/
structure Holds (t : FluidTable) (D : Filling → Prop) : Prop where
  split : ∀ f, t.split[f.filled]? = some (f.drained, f.fluid) ↔ D f
  merge : ∀ f, t.merge[(f.drained, f.fluid)]? = some f.filled ↔ D f

/-- Fillings that are equal if they can be taken for each other. -/
def Agree (f g : Filling) : Prop :=
  f.filled = g.filled ∨ (f.drained = g.drained ∧ f.fluid = g.fluid) → f = g

/-- Fillings that fit into one table. -/
structure Consistent (D : Filling → Prop) : Prop where
  fluid : ∀ f, D f → f.fluid ≠ 0
  agree : ∀ f g, D f → D g → Agree f g

theorem Consistent.mono {D E : Filling → Prop} (h : Consistent E) (le : ∀ f, D f → E f) :
    Consistent D :=
  ⟨fun f inside => h.fluid f (le f inside), fun f g left right => h.agree f g (le f left) (le g right)⟩

theorem Consistent.congr {D E : Filling → Prop} (same : ∀ f, D f ↔ E f) :
    Consistent D ↔ Consistent E :=
  ⟨fun h => h.mono fun f => (same f).mpr, fun h => h.mono fun f => (same f).mp⟩

theorem Holds.congr {t : FluidTable} {D E : Filling → Prop} (holds : t.Holds D)
    (same : ∀ f, D f ↔ E f) : t.Holds E :=
  ⟨fun f => (holds.split f).trans (same f), fun f => (holds.merge f).trans (same f)⟩

theorem empty_holds : Holds empty fun _ => False :=
  ⟨fun f => by simp [empty], fun f => by simp [empty]⟩

theorem empty_consistent : Consistent fun _ => False :=
  ⟨fun _ absent => absent.elim, fun _ _ absent => absent.elim⟩

theorem Agree.symm {f g : Filling} (h : Agree f g) : Agree g f :=
  fun common => (h (common.imp Eq.symm fun both => ⟨both.1.symm, both.2.symm⟩)).symm

theorem consistent_snoc {D : Filling → Prop} (h : Consistent D) (f : Filling) :
    Consistent (fun g => D g ∨ g = f) ↔ f.fluid ≠ 0 ∧ ∀ g, D g → Agree g f := by
  constructor
  · intro all
    exact ⟨all.fluid f (Or.inr rfl), fun g inside => all.agree g f (Or.inl inside) (Or.inr rfl)⟩
  · rintro ⟨fluid, agree⟩
    refine ⟨?_, ?_⟩
    · rintro g (inside | rfl)
      · exact h.fluid g inside
      · exact fluid
    · rintro g e (left | rfl) (right | rfl)
      · exact h.agree g e left right
      · exact agree g left
      · exact (agree e right).symm
      · exact fun _ => rfl

theorem Holds.join {t : FluidTable} {D : Filling → Prop} (holds : t.Holds D) {f : Filling}
    (split : t.split[f.filled]? = none) (merge : t.merge[(f.drained, f.fluid)]? = none) :
    Holds ⟨t.split.insert f.filled (f.drained, f.fluid),
      t.merge.insert (f.drained, f.fluid) f.filled⟩ fun g => D g ∨ g = f := by
  refine ⟨fun g => ?_, fun g => ?_⟩
  · rw [Std.HashMap.getElem?_insert]
    by_cases same : f.filled = g.filled
    · simp only [same, beq_self_eq_true, if_true, Option.some.injEq, Prod.mk.injEq]
      constructor
      · rintro ⟨drained, fluid⟩
        exact Or.inr (by cases f; cases g; simp_all)
      · rintro (inside | rfl)
        · rw [same, (holds.split g).mpr inside] at split
          cases split
        · exact ⟨rfl, rfl⟩
    · simp only [beq_iff_eq, same, if_false, holds.split]
      exact ⟨Or.inl, fun either => either.resolve_right fun equal => same (equal ▸ rfl)⟩
  · rw [Std.HashMap.getElem?_insert]
    by_cases same : (f.drained, f.fluid) = (g.drained, g.fluid)
    · simp only [same, beq_self_eq_true, if_true, Option.some.injEq]
      constructor
      · intro filled
        obtain ⟨drained, fluid⟩ := Prod.mk.inj same
        exact Or.inr (by cases f; cases g; simp_all)
      · rintro (inside | rfl)
        · rw [same, (holds.merge g).mpr inside] at merge
          cases merge
        · rfl
    · simp only [beq_iff_eq, same, if_false, holds.merge]
      exact ⟨Or.inl, fun either => either.resolve_right fun equal => same (equal ▸ rfl)⟩

theorem insert_of_agree {t : FluidTable} {D : Filling → Prop} (holds : t.Holds D) {f : Filling}
    (fluid : f.fluid ≠ 0) (agree : ∀ g, D g → Agree g f) :
    ∃ u, t.insert f = .ok u ∧ u.Holds fun g => D g ∨ g = f := by
  unfold insert
  rw [if_neg fluid]
  cases split : t.split[f.filled]? with
  | some parts =>
    have there : D ⟨f.filled, parts.1, parts.2⟩ := (holds.split _).mp split
    have same := agree _ there (Or.inl rfl)
    obtain rfl : parts = (f.drained, f.fluid) :=
      Prod.ext (congrArg Filling.drained same) (congrArg Filling.fluid same)
    refine ⟨t, if_pos rfl, holds.congr fun g => ⟨Or.inl, ?_⟩⟩
    rintro (inside | rfl)
    · exact inside
    · exact there
  | none =>
    cases merge : t.merge[(f.drained, f.fluid)]? with
    | some other =>
      have there : D ⟨other, f.drained, f.fluid⟩ := (holds.merge _).mp merge
      obtain rfl := congrArg Filling.filled (agree _ there (Or.inr ⟨rfl, rfl⟩))
      rw [(holds.split _).mpr there] at split
      cases split
    | none => exact ⟨_, rfl, holds.join split merge⟩

theorem insert_of_not_agree {t : FluidTable} {D : Filling → Prop} (holds : t.Holds D) {f : Filling}
    (bad : ¬ (f.fluid ≠ 0 ∧ ∀ g, D g → Agree g f)) :
    ∃ defect, t.insert f = .error (.construction defect) := by
  unfold insert
  by_cases fluid : f.fluid = 0
  · exact ⟨_, if_pos fluid⟩
  rw [if_neg fluid]
  cases split : t.split[f.filled]? with
  | some parts =>
    by_cases same : parts = (f.drained, f.fluid)
    · subst same
      refine absurd ⟨fluid, fun g inside common => ?_⟩ bad
      have filled : g.filled = f.filled := by
        rcases common with filled | ⟨drained, fluid⟩
        · exact filled
        · have left := (holds.merge g).mpr inside
          have right := (holds.merge f).mpr ((holds.split f).mp split)
          rw [drained, fluid, right] at left
          exact (Option.some.inj left).symm
      have left := (holds.split g).mpr inside
      rw [filled, split] at left
      obtain ⟨drained, fluid⟩ := Prod.mk.inj (Option.some.inj left)
      cases f
      cases g
      simp_all
    · exact ⟨_, if_neg same⟩
  | none =>
    cases merge : t.merge[(f.drained, f.fluid)]? with
    | some other => exact ⟨_, rfl⟩
    | none =>
      refine absurd ⟨fluid, fun g inside common => ?_⟩ bad
      rcases common with filled | ⟨drained, fluid⟩
      · rw [← filled, (holds.split g).mpr inside] at split
        cases split
      · rw [← drained, ← fluid, (holds.merge g).mpr inside] at merge
        cases merge

/-! ### Splitting and combining -/

/-- A state is made up of what it is split into. -/
theorem Holds.combine_parts {t : FluidTable} {D : Filling → Prop} (holds : t.Holds D)
    (consistent : Consistent D) (id : StateId) : t.combine (t.strip id) (t.extract id) = .ok id := by
  unfold combine strip extract add?
  cases found : t.split[id]? with
  | none => rfl
  | some parts =>
    obtain ⟨drained, fluid⟩ := parts
    have filling : D ⟨id, drained, fluid⟩ := (holds.split _).mp found
    have merge : t.merge[(drained, fluid)]? = some id := (holds.merge _).mpr filling
    dsimp only
    rw [if_neg (consistent.fluid _ filling), merge]

theorem combine_zero (t : FluidTable) (id : StateId) : t.combine id 0 = .ok id := rfl

/-! ### Steps that add fillings -/

/-- A step adds fillings to any table if a condition holds and they are consistent with those that
are there; otherwise it finds a defect. -/
def Adds (step : FluidTable → Except BlockError FluidTable) (ok : Prop) (E : Filling → Prop) :
    Prop :=
  ∀ t D, t.Holds D → Consistent D →
    ((ok ∧ Consistent fun g => D g ∨ E g) ∧
      ∃ u, step t = .ok u ∧ u.Holds fun g => D g ∨ E g) ∨
    (¬ (ok ∧ Consistent fun g => D g ∨ E g) ∧ ∃ defect, step t = .error (.construction defect))

theorem Adds.congr {step : FluidTable → Except BlockError FluidTable} {ok ok' : Prop}
    {E F : Filling → Prop} (adds : Adds step ok E) (same : ok ↔ ok') (fillings : ∀ g, E g ↔ F g) :
    Adds step ok' F := by
  have equal : E = F := funext fun g => propext (fillings g)
  rw [← equal, ← propext same]
  exact adds

theorem adds_nothing : Adds .ok True fun _ => False := by
  intro t D holds consistent
  have same : ∀ g, D g ↔ D g ∨ False := fun g => by rw [or_false]
  exact Or.inl ⟨⟨trivial, (Consistent.congr same).mp consistent⟩, t, rfl, holds.congr same⟩

theorem adds_defect (defect : Defect) (E : Filling → Prop) :
    Adds (fun _ => .error (.construction defect)) False E :=
  fun _ _ _ _ => Or.inr ⟨fun both => both.1, defect, rfl⟩

theorem adds_insert (f : Filling) : Adds (fun t => t.insert f) True fun g => g = f := by
  intro t D holds consistent
  by_cases good : f.fluid ≠ 0 ∧ ∀ g, D g → Agree g f
  · obtain ⟨u, inserted, holdsU⟩ := insert_of_agree holds good.1 good.2
    exact Or.inl ⟨⟨trivial, (consistent_snoc consistent f).mpr good⟩, u, inserted, holdsU⟩
  · obtain ⟨defect, refused⟩ := insert_of_not_agree holds good
    exact Or.inr ⟨fun both => good ((consistent_snoc consistent f).mp both.2), defect, refused⟩

theorem Adds.then {first second : FluidTable → Except BlockError FluidTable} {ok ok' : Prop}
    {E F : Filling → Prop} (left : Adds first ok E) (right : Adds second ok' F) :
    Adds (fun t => first t >>= second) (ok ∧ ok') fun g => E g ∨ F g := by
  intro t D holds consistent
  have same : ∀ g, (D g ∨ E g) ∨ F g ↔ D g ∨ E g ∨ F g := fun _ => or_assoc
  rcases left t D holds consistent with ⟨⟨good, both⟩, u, run, holdsU⟩ | ⟨bad, defect, run⟩
  · dsimp only
    rw [run, Outcome.ok_bind]
    rcases right u _ holdsU both with ⟨⟨good', all⟩, v, run', holdsV⟩ | ⟨bad, defect, run'⟩
    · exact Or.inl ⟨⟨⟨good, good'⟩, (Consistent.congr same).mp all⟩, v, run', holdsV.congr same⟩
    · exact Or.inr ⟨fun all => bad ⟨all.1.2, (Consistent.congr same).mpr all.2⟩, defect, run'⟩
  · refine Or.inr ⟨fun all => bad ⟨all.1.1, all.2.mono ?_⟩, defect, ?_⟩
    · exact fun g inside => (same g).mp (Or.inl inside)
    · dsimp only
      rw [run]
      rfl

theorem adds_foldlM {α : Type} {step : FluidTable → α → Except BlockError FluidTable} {ok : α → Prop}
    {E : α → Filling → Prop} {l : List α} (each : ∀ a ∈ l, Adds (fun t => step t a) (ok a) (E a)) :
    Adds (fun t => l.foldlM step t) (∀ a ∈ l, ok a) fun g => ∃ a ∈ l, E a g := by
  induction l with
  | nil => exact adds_nothing.congr (by simp) (by simp)
  | cons a rest ih =>
    have first := each a List.mem_cons_self
    have later := ih fun b member => each b (List.mem_cons_of_mem _ member)
    refine (first.then later).congr ?_ fun g => ?_
    · rw [List.forall_mem_cons]
    · simp

end Voxel.FluidTable
