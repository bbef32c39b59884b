import Mathlib.Logic.Basic

/-!
# Stepping through `Except` computations

A handler written in `do` notation over `Except` is a chain of binds. These lemmas take one bind
at a time: a bind of a success continues with its value, a bind of an error stops there, and a
chain that ends in success (or in an error) was one whose first computation succeeded and whose
rest did. Proofs about a handler peel its steps apart with them by `obtain`, one step a line.
-/

namespace ExceptBind

variable {ε α β : Type} {x : Except ε α} {f : α → Except ε β}

@[simp] theorem ok_bind (a : α) (f : α → Except ε β) : (Except.ok a >>= f) = f a := rfl

@[simp] theorem error_bind (e : ε) (f : α → Except ε β) :
    (Except.error e >>= f) = .error e := rfl

@[simp] theorem throw_eq (e : ε) : (throw e : Except ε α) = .error e := rfl

@[simp] theorem pure_eq (a : α) : (pure a : Except ε α) = .ok a := rfl

@[simp] theorem mapError_ok {ε' : Type} (g : ε → ε') (a : α) :
    (Except.ok a : Except ε α).mapError g = .ok a := rfl

@[simp] theorem mapError_error {ε' : Type} (g : ε → ε') (e : ε) :
    (Except.error e : Except ε α).mapError g = .error (g e) := rfl

/-- Renaming the errors keeps the successes. -/
theorem mapError_eq_ok {ε' : Type} {g : ε → ε'} {a : α} : x.mapError g = .ok a ↔ x = .ok a := by
  cases x with
  | error e => exact ⟨(fun h => by cases h), (fun h => by cases h)⟩
  | ok a' => simp only [mapError_ok, Except.ok.injEq]

/-- A chain that succeeds started with a success. -/
theorem bind_eq_ok {b : β} (h : (x >>= f) = .ok b) : ∃ a, x = .ok a ∧ f a = .ok b := by
  cases x with
  | error e => cases h
  | ok a => exact ⟨a, rfl, h⟩

/-- A chain that fails failed at its first computation or later. -/
theorem bind_eq_error {e : ε} (h : (x >>= f) = .error e) :
    x = .error e ∨ ∃ a, x = .ok a ∧ f a = .error e := by
  cases x with
  | error e' =>
    rw [error_bind] at h
    injection h with h
    exact Or.inl (h ▸ rfl)
  | ok a => exact Or.inr ⟨a, rfl, h⟩

end ExceptBind
