/-
  JasminGen.Attempt

  Computations on a state that may fail, and keep the state they have reached when
  they do.
-/

namespace JasminGen

/-- A computation on a state of type `σ` that gives an `α` or fails with an `ε`. -/
abbrev Attempt (ε σ α : Type) := ExceptT ε (StateM σ) α

namespace Attempt

variable {ε σ α β : Type}

/-- A computation that succeeds is followed by what comes next. -/
theorem bind_ok {m : Attempt ε σ α} {k : α → Attempt ε σ β} {s s' : σ} {a : α}
    (h : m s = (.ok a, s')) : (m >>= k) s = k a s' := by
  change (match m s with | (r, after) => ExceptT.bindCont k r after) = k a s'
  rw [h]
  rfl

/-- A computation that fails is followed by nothing. -/
theorem bind_error {m : Attempt ε σ α} {k : α → Attempt ε σ β} {s s' : σ} {failure : ε}
    (h : m s = (.error failure, s')) : (m >>= k) s = (.error failure, s') := by
  change (match m s with | (r, after) => ExceptT.bindCont k r after) = (.error failure, s')
  rw [h]
  rfl

/-- A computation fails, and nothing follows it, or it succeeds and is followed. -/
theorem bind_cases (m : Attempt ε σ α) (k : α → Attempt ε σ β) (s : σ) :
    (∃ failure s', m s = (.error failure, s') ∧ (m >>= k) s = (.error failure, s')) ∨
      ∃ a s', m s = (.ok a, s') ∧ (m >>= k) s = k a s' := by
  rcases h : m s with ⟨failure | a, s'⟩
  · exact .inl ⟨failure, s', rfl, bind_error h⟩
  · exact .inr ⟨a, s', rfl, bind_ok h⟩

/-- Computations that succeed in a row succeed one after the other. -/
theorem bind_eq_ok {m : Attempt ε σ α} {k : α → Attempt ε σ β} {s s' : σ} {b : β}
    (h : (m >>= k) s = (.ok b, s')) : ∃ a s₁, m s = (.ok a, s₁) ∧ k a s₁ = (.ok b, s') := by
  rcases bind_cases m k s with ⟨failure, s₁, -, hbind⟩ | ⟨a, s₁, hm, hbind⟩
  · cases hbind.symm.trans h
  · exact ⟨a, s₁, hm, hbind.symm.trans h⟩

end Attempt

end JasminGen
