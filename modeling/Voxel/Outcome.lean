/-!
Outcomes that are a value or a failure. The outcome of a sequence is read off the outcomes of its
parts, and what every step of a loop keeps the whole loop keeps.
-/
namespace Voxel.Outcome

variable {ε α β σ : Type}

@[simp] theorem ok_bind (a : α) (f : α → Except ε β) : (Except.ok a >>= f) = f a := rfl

@[simp] theorem error_bind (e : ε) (f : α → Except ε β) : (Except.error e >>= f) = .error e := rfl

theorem bind_ok {x : Except ε α} {f : α → Except ε β} {b : β} (h : (x >>= f) = .ok b) :
    ∃ a, x = .ok a ∧ f a = .ok b := by
  cases x with
  | error e => cases h
  | ok a => exact ⟨a, rfl, h⟩

theorem bind_error {x : Except ε α} {f : α → Except ε β} {e : ε} (h : (x >>= f) = .error e) :
    x = .error e ∨ ∃ a, x = .ok a ∧ f a = .error e := by
  cases x with
  | error e => exact Or.inl (congrArg _ (Except.error.inj h))
  | ok a => exact Or.inr ⟨a, rfl, h⟩

theorem map_ok {x : Except ε α} {f : α → β} {b : β} (h : f <$> x = .ok b) :
    ∃ a, x = .ok a ∧ f a = b := by
  cases x with
  | error e => cases h
  | ok a => exact ⟨a, rfl, Except.ok.inj h⟩

/-- What every step keeps, a loop that ends well keeps. -/
theorem foldlM_keeps {f : σ → α → Except ε σ} {motive : σ → Prop} {l : List α} {s t : σ}
    (step : ∀ s a t, a ∈ l → motive s → f s a = .ok t → motive t) (start : motive s)
    (h : l.foldlM f s = .ok t) : motive t := by
  induction l generalizing s with
  | nil => cases h; exact start
  | cons a rest ih =>
    rw [List.foldlM_cons] at h
    obtain ⟨next, first, h⟩ := bind_ok h
    exact ih (fun s b t member => step s b t (List.mem_cons_of_mem _ member))
      (step s a next List.mem_cons_self start first) h

end Voxel.Outcome
