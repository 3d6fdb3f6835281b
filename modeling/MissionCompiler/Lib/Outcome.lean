/-!
# What a computation ends in

A rule for the computations that may raise, with a condition on the value and one on the exception.
-/

namespace Lib

variable {ε α β : Type} {P P' : α → Prop} {Q Q' : ε → Prop} {R : β → Prop} {x : Except ε α}

/-- A computation gives a value of one kind, or raises an exception of another. -/
def Ends (P : α → Prop) (Q : ε → Prop) : Except ε α → Prop
  | .ok a => P a
  | .error e => Q e

@[simp]
theorem ends_ok {a : α} : Ends P Q (.ok a) ↔ P a := Iff.rfl

@[simp]
theorem ends_error {e : ε} : Ends P Q (.error e) ↔ Q e := Iff.rfl

/-- A computation, and what runs on its value. -/
theorem Ends.bind {f : α → Except ε β} (h : Ends P Q x) (hf : ∀ a, P a → Ends R Q (f a)) :
    Ends R Q (x >>= f) := by
  cases x with
  | ok a => exact hf a h
  | error e => exact h

theorem Ends.mono (h : Ends P Q x) (hP : ∀ a, P a → P' a) (hQ : ∀ e, Q e → Q' e) :
    Ends P' Q' x := by
  cases x with
  | ok a => exact hP a h
  | error e => exact hQ e h

theorem Ends.of_eq_ok (h : Ends P Q x) {a : α} (hx : x = .ok a) : P a := by
  rw [hx] at h
  exact h

theorem Ends.of_eq_error (h : Ends P Q x) {e : ε} (hx : x = .error e) : Q e := by
  rw [hx] at h
  exact h

end Lib
