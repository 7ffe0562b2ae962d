import Mathlib.Data.List.Forall2
import Voxel.Outcome

/-!
# Lists of outcomes

A list of operations ends well exactly if each of them does, and fails as one of them. `InPlace` is a
state that is changed by one operation after the other, with all that was done before a failure.
-/

namespace Voxel

theorem forall₂_getElem? {α β : Type} {R : α → β → Prop} {l : List α} {m : List β}
    (paired : List.Forall₂ R l m) {i : Nat} {a : α} (here : l[i]? = some a) :
    ∃ b, m[i]? = some b ∧ R a b := by
  induction paired generalizing i with
  | nil => cases here
  | @cons x y _ _ head _ ih =>
    cases i with
    | zero => exact ⟨y, rfl, Option.some.inj here ▸ head⟩
    | succ i => exact ih here

theorem forall₂_of_mem {α β : Type} {R : α → β → Prop} {l : List α} {m : List β}
    (paired : List.Forall₂ R l m) {a : α} (member : a ∈ l) : ∃ b ∈ m, R a b := by
  obtain ⟨i, here⟩ := List.mem_iff_getElem?.mp member
  obtain ⟨b, there, related⟩ := forall₂_getElem? paired here
  exact ⟨b, List.mem_of_getElem? there, related⟩

theorem map_eq_of_forall₂ {α β γ : Type} {R : α → β → Prop} {f : α → γ} {g : β → γ} {l : List α}
    {m : List β} (h : List.Forall₂ R l m) (same : ∀ a b, R a b → f a = g b) : l.map f = m.map g := by
  induction h with
  | nil => rfl
  | cons first _ ih => rw [List.map_cons, List.map_cons, same _ _ first, ih]

theorem flatMap_eq_of_forall₂ {α β γ : Type} {R : α → β → Prop} {f : α → List γ} {g : β → List γ}
    {l : List α} {m : List β} (h : List.Forall₂ R l m)
    (same : ∀ a ∈ l, ∀ b ∈ m, R a b → f a = g b) : l.flatMap f = m.flatMap g := by
  induction h with
  | nil => rfl
  | cons first _ ih =>
    rw [List.flatMap_cons, List.flatMap_cons, same _ List.mem_cons_self _ List.mem_cons_self first, ih]
    intro a inside b there
    exact same a (List.mem_cons_of_mem _ inside) b (List.mem_cons_of_mem _ there)

namespace Outcome

variable {ε α β σ : Type}

theorem mapM_eq_ok_iff {f : α → Except ε β} {l : List α} {m : List β} :
    l.mapM f = .ok m ↔ List.Forall₂ (fun a b => f a = .ok b) l m := by
  induction l generalizing m with
  | nil =>
    rw [List.mapM_nil, List.forall₂_nil_left_iff]
    exact ⟨fun h => (Except.ok.inj h).symm, fun h => congrArg Except.ok h.symm⟩
  | cons a rest ih =>
    rw [List.mapM_cons, List.forall₂_cons_left_iff]
    constructor
    · intro h
      obtain ⟨b, first, h⟩ := bind_ok h
      obtain ⟨others, later, h⟩ := bind_ok h
      exact ⟨b, others, first, ih.mp later, (Except.ok.inj h).symm⟩
    · rintro ⟨b, others, first, later, rfl⟩
      rw [first, ok_bind, ih.mpr later]
      rfl

theorem mapM_error {f : α → Except ε β} {l : List α} {e : ε} (h : l.mapM f = .error e) :
    ∃ a ∈ l, f a = .error e := by
  induction l with
  | nil => cases h
  | cons a rest ih =>
    rw [List.mapM_cons] at h
    rcases bind_error h with first | ⟨b, _, h⟩
    · exact ⟨a, List.mem_cons_self, first⟩
    · rcases bind_error h with later | ⟨_, _, done⟩
      · obtain ⟨c, member, failed⟩ := ih later
        exact ⟨c, List.mem_cons_of_mem _ member, failed⟩
      · cases done

/-! ### Agreement -/

/-- Outcomes with the same value, or failures both. -/
def Agree (x y : Except ε α) : Prop := x.toOption = y.toOption

theorem Agree.refl (x : Except ε α) : Agree x x := rfl

theorem agree_of_ok_iff {x y : Except ε α} (same : ∀ a, x = .ok a ↔ y = .ok a) : Agree x y := by
  cases x with
  | ok a => rw [(same a).mp rfl, Agree]
  | error e =>
    cases y with
    | ok a => cases (same a).mpr rfl
    | error e => rfl

theorem toOption_bind (x : Except ε α) (f : α → Except ε β) :
    (x >>= f).toOption = x.toOption.bind fun a => (f a).toOption := by
  cases x <;> rfl

theorem Agree.bind {x y : Except ε α} {f g : α → Except ε β} (first : Agree x y)
    (later : ∀ a, Agree (f a) (g a)) : Agree (x >>= f) (y >>= g) := by
  cases x with
  | error e =>
    cases y with
    | error e' => rfl
    | ok b => cases first
  | ok a =>
    cases y with
    | error e => cases first
    | ok b =>
      obtain rfl := Option.some.inj first
      exact later a

theorem Agree.ite {c : Prop} [Decidable c] {x y u v : Except ε α} (yes : Agree x u)
    (no : Agree y v) : Agree (if c then x else y) (if c then u else v) := by
  split
  · exact yes
  · exact no

theorem Agree.foldlM {R : α → β → Prop} {f : σ → α → Except ε σ} {g : σ → β → Except ε σ}
    {l : List α} {m : List β} (paired : List.Forall₂ R l m)
    (step : ∀ s a b, R a b → Agree (f s a) (g s b)) (s : σ) :
    Agree (l.foldlM f s) (m.foldlM g s) := by
  induction paired generalizing s with
  | nil => rfl
  | cons first _ ih =>
    rw [List.foldlM_cons, List.foldlM_cons]
    exact (step s _ _ first).bind ih

/-- A loop whose steps can be exchanged agrees with itself in any order of the items. -/
theorem Agree.foldlM_perm {f : σ → α → Except ε σ} {l m : List α} (perm : l.Perm m)
    (exchange : ∀ s a b, Agree (f s a >>= (f · b)) (f s b >>= (f · a))) (s : σ) :
    Agree (l.foldlM f s) (m.foldlM f s) := by
  induction perm generalizing s with
  | nil => rfl
  | cons a _ ih =>
    rw [List.foldlM_cons, List.foldlM_cons]
    exact (Agree.refl _).bind ih
  | swap a b rest =>
    simp only [List.foldlM_cons, ← bind_assoc]
    exact (exchange s b a).bind fun t => .refl _
  | trans _ _ first second => exact (first s).trans (second s)

end Outcome
/-! ### Changes in place -/

/-- Changes to a state one after the other. What is changed before a failure stays changed. -/
abbrev InPlace (ε σ : Type) := ExceptT ε (StateM σ)

namespace InPlace

variable {ε σ α β : Type}

def require (x : Except ε α) : InPlace ε σ α := ExceptT.mk (pure x)

def perform (s : σ) (x : InPlace ε σ α) : Except ε α × σ := StateT.run (ExceptT.run x) s

theorem perform_bind (s : σ) (x : InPlace ε σ α) (f : α → InPlace ε σ β) :
    perform s (x >>= f) = match perform s x with
      | (.ok a, t) => perform t (f a)
      | (.error e, t) => (.error e, t) := by
  show (match perform s x with
    | (outcome, t) => (ExceptT.bindCont f outcome : StateM σ (Except ε β)) t) = _
  rcases perform s x with ⟨_ | _, _⟩ <;> rfl

end InPlace

end Voxel
