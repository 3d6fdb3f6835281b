import MissionCompiler.Lib.Python

/-!
# Sessions

A computation on a state that ends with a value or stops with a report. Either way the state it
leaves is there to be read: a program that stops has still done what it did. What a session did
is read step by step (`bind_eq_ok`, `bind_eq_error`), and a relation that every step keeps is
kept by the whole (`Keeps`). What no step sees of the state, the whole does not see (`Respects`).
-/

namespace Lib

/-- A computation on states, which may stop. -/
def Session (σ ρ α : Type) : Type := σ → Except ρ α × σ

namespace Session

variable {σ ρ ε α β : Type}

instance : Monad (Session σ ρ) where
  pure a := fun s => (.ok a, s)
  bind x f := fun s => match x s with
    | (.ok a, s) => f a s
    | (.error r, s) => (.error r, s)

/-- Stop with a report. -/
def stop (r : ρ) : Session σ ρ α := fun s => (.error r, s)

/-- What the state says. -/
def reads (f : σ → α) : Session σ ρ α := fun s => (.ok (f s), s)

def modify (f : σ → σ) : Session σ ρ Unit := fun s => (.ok (), f s)

/-- A pure computation, whose exception is reported. -/
def lift (report : ε → ρ) : Except ε α → Session σ ρ α
  | .ok a => fun s => (.ok a, s)
  | .error e => fun s => (.error (report e), s)

/-- A call that changes the state and says whether it succeeded. -/
def call (report : ρ) (f : σ → Bool × σ) : Session σ ρ Unit := fun s =>
  match f s with
  | (true, s) => (.ok (), s)
  | (false, s) => (.error report, s)

/-- Go on only if a test holds. -/
def require (report : ρ) (test : Bool) : Session σ ρ Unit :=
  if test then pure () else stop report

/-- A session goes on from the state that the one before it left, and stops where that one stopped.
-/
theorem bind_apply (x : Session σ ρ α) (f : α → Session σ ρ β) (s : σ) :
    (x >>= f) s = match x s with
      | (.ok a, t) => f a t
      | (.error r, t) => (.error r, t) := rfl

instance : LawfulMonad (Session σ ρ) := by
  refine LawfulMonad.mk' _ (fun x => ?_) (fun _ _ => rfl) (fun x f g => ?_)
  · funext s
    show (x >>= pure) s = x s
    rw [bind_apply]
    cases x s with
    | mk result t => cases result <;> rfl
  · funext s
    simp only [bind_apply]
    cases x s with
    | mk result t => cases result <;> rfl

/-! ## What a session did -/

variable {s s' : σ} {a : α} {b : β} {r : ρ}

@[simp] theorem pure_apply : (pure a : Session σ ρ α) s = (.ok a, s) := rfl

/-- A value is no step: the state is as it was. -/
theorem pure_eq_ok {a' : α} :
    (pure a : Session σ ρ α) s = (.ok a', s') ↔ a' = a ∧ s' = s := by
  simp [eq_comm]

@[simp] theorem stop_apply : (stop r : Session σ ρ α) s = (.error r, s) := rfl

@[simp] theorem reads_apply (f : σ → α) : (reads f : Session σ ρ α) s = (.ok (f s), s) := rfl

@[simp] theorem modify_apply (f : σ → σ) :
    (modify f : Session σ ρ Unit) s = (.ok (), f s) := rfl

/-- After a first part that ended the second goes on from where it ended. -/
theorem bind_of_ok {x : Session σ ρ α} (f : α → Session σ ρ β) (h : x s = (.ok a, s')) :
    (x >>= f) s = f a s' := by
  rw [bind_apply, h]

/-- After a first part that stopped there is no second. -/
theorem bind_of_error {x : Session σ ρ α} (f : α → Session σ ρ β) (h : x s = (.error r, s')) :
    (x >>= f) s = (.error r, s') := by
  rw [bind_apply, h]

/-- A session ends when both of its parts do. -/
theorem bind_eq_ok {x : Session σ ρ α} {f : α → Session σ ρ β} :
    (x >>= f) s = (.ok b, s') ↔ ∃ a t, x s = (.ok a, t) ∧ f a t = (.ok b, s') := by
  rw [bind_apply]
  cases hx : x s with
  | mk result t =>
    cases result with
    | ok a =>
      constructor
      · intro h
        exact ⟨a, t, rfl, h⟩
      · intro ⟨a', t', heq, h⟩
        cases heq
        exact h
    | error r =>
      constructor
      · intro h
        cases h
      · intro ⟨a', t', heq, _⟩
        cases heq

/-- A session stops in its first part, or in its second. -/
theorem bind_eq_error {x : Session σ ρ α} {f : α → Session σ ρ β} :
    (x >>= f) s = (.error r, s') ↔
      x s = (.error r, s') ∨ ∃ a t, x s = (.ok a, t) ∧ f a t = (.error r, s') := by
  rw [bind_apply]
  cases hx : x s with
  | mk result t =>
    cases result with
    | ok a =>
      constructor
      · intro h
        exact .inr ⟨a, t, rfl, h⟩
      · intro h
        rcases h with h | ⟨a', t', heq, h⟩
        · cases h
        · cases heq
          exact h
    | error r' =>
      constructor
      · intro h
        cases h
        exact .inl rfl
      · intro h
        rcases h with h | ⟨a', t', heq, _⟩
        · cases h
          rfl
        · cases heq

/-- Two steps: the first one stops, or the second one goes on from where it ended. -/
theorem bind_cases {x : Session σ ρ α} {f : α → Session σ ρ β} {result : Except ρ β}
    (h : (x >>= f) s = (result, s')) :
    (∃ r, x s = (.error r, s') ∧ result = .error r) ∨
      ∃ a t, x s = (.ok a, t) ∧ f a t = (result, s') := by
  cases result with
  | ok b => exact .inr (bind_eq_ok.mp h)
  | error r =>
    rcases bind_eq_error.mp h with h | h
    · exact .inl ⟨r, h, rfl⟩
    · exact .inr h

/-- A pure computation that ends leaves the state alone. -/
theorem lift_eq_ok {report : ε → ρ} {x : Except ε α} :
    (lift report x : Session σ ρ α) s = (.ok a, s') ↔ x = .ok a ∧ s' = s := by
  cases x with
  | ok a' => simp [lift, eq_comm]
  | error e => simp [lift]

/-- A pure computation that raises is reported, and leaves the state alone. -/
theorem lift_eq_error {report : ε → ρ} {x : Except ε α} :
    (lift report x : Session σ ρ α) s = (.error r, s') ↔
      (∃ e, x = .error e ∧ report e = r) ∧ s' = s := by
  cases x with
  | ok a' => simp [lift]
  | error e => simp [lift, eq_comm]

/-- A call that succeeded has changed the state. -/
theorem call_eq_ok {f : σ → Bool × σ} {u : Unit} :
    (call r f : Session σ ρ Unit) s = (.ok u, s') ↔ f s = (true, s') := by
  unfold call
  cases hf : f s with
  | mk ok t => cases ok <;> simp

/-- A call that failed may have changed the state as well. -/
theorem call_eq_error {f : σ → Bool × σ} {r' : ρ} :
    (call r f : Session σ ρ Unit) s = (.error r', s') ↔ f s = (false, s') ∧ r = r' := by
  unfold call
  cases hf : f s with
  | mk ok t => cases ok <;> simp [and_comm]

/-- One goes on where the test holds. -/
theorem require_eq_ok {test : Bool} {u : Unit} :
    (require r test : Session σ ρ Unit) s = (.ok u, s') ↔ test = true ∧ s' = s := by
  cases test <;> simp [require, eq_comm]

/-- A session that ends has a value and a state. -/
theorem exists_of_isOk {x : Session σ ρ α} (h : (x s).1.isOk = true) :
    ∃ a t, x s = (.ok a, t) := by
  obtain ⟨a, ha⟩ := Lib.exists_of_isOk h
  exact ⟨a, (x s).2, Prod.ext ha rfl⟩

/-! ## What every step keeps -/

/-- A session that relates the state it leaves to the state it found, however it ends. -/
def Keeps (R : σ → σ → Prop) (x : Session σ ρ α) : Prop := ∀ s, R s (x s).2

section

variable {R : σ → σ → Prop}

/-- What is kept holds between the state before and the one after, however the session ended. -/
theorem Keeps.of_eq {x : Session σ ρ α} (hx : Keeps R x) {result : Except ρ α}
    (h : x s = (result, s')) : R s s' := by
  have hkeeps := hx s
  rw [h] at hkeeps
  exact hkeeps

/-- Two sessions that keep a transitive relation keep it together. -/
theorem Keeps.bind (htrans : ∀ s t u, R s t → R t u → R s u) {x : Session σ ρ α}
    {f : α → Session σ ρ β} (hx : Keeps R x) (hf : ∀ a, Keeps R (f a)) : Keeps R (x >>= f) := by
  intro s
  rw [bind_apply]
  have hs := hx s
  cases h : x s with
  | mk result t =>
    rw [h] at hs
    cases result with
    | ok a => exact htrans _ _ _ hs (hf a t)
    | error r => exact hs

theorem keeps_pure (hrefl : ∀ s, R s s) (a : α) : Keeps R (pure a : Session σ ρ α) :=
  fun s => hrefl s

theorem keeps_stop (hrefl : ∀ s, R s s) (r : ρ) : Keeps R (stop r : Session σ ρ α) :=
  fun s => hrefl s

theorem keeps_reads (hrefl : ∀ s, R s s) (f : σ → α) : Keeps R (reads f : Session σ ρ α) :=
  fun s => hrefl s

/-- A pure computation keeps every reflexive relation. -/
theorem keeps_lift (hrefl : ∀ s, R s s) (report : ε → ρ) (x : Except ε α) :
    Keeps R (lift report x : Session σ ρ α) := by
  intro s
  cases x <;> exact hrefl s

/-- A test keeps every reflexive relation. -/
theorem keeps_require (hrefl : ∀ s, R s s) (r : ρ) (test : Bool) :
    Keeps R (require r test : Session σ ρ Unit) := by
  intro s
  cases test <;> exact hrefl s

/-- A call keeps what its function keeps. -/
theorem keeps_call {f : σ → Bool × σ} (hf : ∀ s, R s (f s).2) (r : ρ) :
    Keeps R (call r f : Session σ ρ Unit) := by
  intro s
  have hs := hf s
  unfold call
  cases h : f s with
  | mk ok t =>
    rw [h] at hs
    cases ok <;> exact hs

end

/-! ## What a session sees -/

section

variable {R : σ → σ → Prop}

/-- A session that sees no difference between related states: on both it ends the same way, and
the states it leaves are related. -/
def Respects (R : σ → σ → Prop) (x : Session σ ρ α) : Prop :=
  ∀ s t, R s t → (x s).1 = (x t).1 ∧ R (x s).2 (x t).2

/-- Two runs of one session come to the same result, in related states. -/
theorem same_result {x y : α × σ} (h : x.1 = y.1 ∧ R x.2 y.2) :
    ∃ a s t, x = (a, s) ∧ y = (a, t) ∧ R s t :=
  ⟨x.1, x.2, y.2, rfl, Prod.ext h.1.symm rfl, h.2⟩

/-- What neither of two sessions sees the two together do not see. -/
theorem Respects.bind {x : Session σ ρ α} {f : α → Session σ ρ β} (hx : Respects R x)
    (hf : ∀ a, Respects R (f a)) : Respects R (x >>= f) := by
  intro s t h
  obtain ⟨result, s', t', hs, ht, hrel⟩ := same_result (hx s t h)
  cases result with
  | ok a =>
    rw [bind_of_ok f hs, bind_of_ok f ht]
    exact hf a s' t' hrel
  | error r =>
    rw [bind_of_error f hs, bind_of_error f ht]
    exact ⟨rfl, hrel⟩

theorem respects_pure (a : α) : Respects R (pure a : Session σ ρ α) := fun _ _ h => ⟨rfl, h⟩

theorem respects_stop (r : ρ) : Respects R (stop r : Session σ ρ α) := fun _ _ h => ⟨rfl, h⟩

/-- What is read is the same in related states, where the function does not tell them apart. -/
theorem respects_reads {f : σ → α} (hf : ∀ s t, R s t → f s = f t) :
    Respects R (reads f : Session σ ρ α) :=
  fun s t h => ⟨congrArg Except.ok (hf s t h), h⟩

/-- A change that keeps states related shows nothing of them. -/
theorem respects_modify {f : σ → σ} (hf : ∀ s t, R s t → R (f s) (f t)) :
    Respects R (modify f : Session σ ρ Unit) :=
  fun s t h => ⟨rfl, hf s t h⟩

/-- A pure computation sees nothing of the state. -/
theorem respects_lift (report : ε → ρ) (x : Except ε α) :
    Respects R (lift report x : Session σ ρ α) := by
  intro s t h
  cases x <;> exact ⟨rfl, h⟩

/-- A test of something else sees nothing of the state. -/
theorem respects_require (r : ρ) (test : Bool) :
    Respects R (require r test : Session σ ρ Unit) := by
  intro s t h
  cases test <;> exact ⟨rfl, h⟩

/-- A call whose success and effect do not tell related states apart sees nothing of them. -/
theorem respects_call {f : σ → Bool × σ}
    (hf : ∀ s t, R s t → (f s).1 = (f t).1 ∧ R (f s).2 (f t).2) (r : ρ) :
    Respects R (call r f : Session σ ρ Unit) := by
  intro s t h
  obtain ⟨ok, s', t', hs, ht, hrel⟩ := same_result (hf s t h)
  unfold call
  rw [hs, ht]
  cases ok <;> exact ⟨rfl, hrel⟩

end

end Session

end Lib

