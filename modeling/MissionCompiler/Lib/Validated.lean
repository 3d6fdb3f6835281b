import MissionCompiler.Lib.Python

/-!
# Validation that goes on

A check of a record looks at each of its parts, also when one has been refused, and answers with
what is wrong with all of them. What is made of the parts is there only where nothing is wrong.
-/

namespace Lib

/-- What comes of a check: a value, or what is wrong, which is one thing at least. -/
inductive Validated (ε α : Type) where
  | ok (a : α)
  | refused (error : ε) (more : List ε)

namespace Validated

variable {ε ε' α β : Type}

def errors : Validated ε α → List ε
  | .ok _ => []
  | .refused e es => e :: es

def map (f : α → β) : Validated ε α → Validated ε β
  | .ok a => .ok (f a)
  | .refused e es => .refused e es

/-- Both are looked at, and the errors of the first come first. -/
def ap : Validated ε (α → β) → Validated ε α → Validated ε β
  | .ok f, .ok a => .ok (f a)
  | .ok _, .refused e es => .refused e es
  | .refused e es, x => .refused e (es ++ x.errors)

instance : Functor (Validated ε) where
  map := map

instance : Seq (Validated ε) where
  seq f x := f.ap (x ())

/-- What follows a check only where nothing is wrong. -/
def andThen (x : Validated ε α) (f : α → Validated ε β) : Validated ε β :=
  match x with
  | .ok a => f a
  | .refused e es => .refused e es

def mapErrors (g : ε → ε') : Validated ε α → Validated ε' α
  | .ok a => .ok a
  | .refused e es => .refused (g e) (es.map g)

/-- Nothing is wrong where there are no errors. -/
def ofErrors : List ε → Validated ε Unit
  | [] => .ok ()
  | e :: es => .refused e es

def all : List (Validated ε α) → Validated ε (List α)
  | [] => .ok []
  | x :: xs => List.cons <$> x <*> all xs

/-! ## Values -/

@[simp]
theorem map_eq_ok {f : α → β} {x : Validated ε α} {b : β} :
    f <$> x = .ok b ↔ ∃ a, x = .ok a ∧ f a = b := by
  cases x with
  | ok a => simp [Functor.map, map]
  | refused e es => simp [Functor.map, map]

@[simp]
theorem seq_eq_ok {f : Validated ε (α → β)} {x : Validated ε α} {b : β} :
    f <*> x = .ok b ↔ ∃ g, f = .ok g ∧ ∃ a, x = .ok a ∧ g a = b := by
  cases f with
  | ok g => cases x <;> simp [Seq.seq, ap]
  | refused e es => simp [Seq.seq, ap]

@[simp]
theorem andThen_eq_ok {x : Validated ε α} {f : α → Validated ε β} {b : β} :
    x.andThen f = .ok b ↔ ∃ a, x = .ok a ∧ f a = .ok b := by
  cases x with
  | ok a => simp [andThen]
  | refused e es => simp [andThen]

@[simp]
theorem mapErrors_eq_ok {g : ε → ε'} {x : Validated ε α} {a : α} :
    x.mapErrors g = .ok a ↔ x = .ok a := by
  cases x with
  | ok a => simp [mapErrors]
  | refused e es => simp [mapErrors]

@[simp]
theorem ofErrors_eq_ok {es : List ε} {u : Unit} : ofErrors es = .ok u ↔ es = [] := by
  cases es with
  | nil => simp [ofErrors]
  | cons e es => simp [ofErrors]

theorem all_eq_ok {xs : List (Validated ε α)} {as : List α} :
    all xs = .ok as ↔ List.Forall₂ (fun x a => x = .ok a) xs as := by
  induction xs generalizing as with
  | nil =>
    cases as with
    | nil => simp [all]
    | cons a as => simp [all]
  | cons x xs ih =>
    rw [all, seq_eq_ok]
    constructor
    · intro ⟨g, hg, as', has, hcons⟩
      obtain ⟨a, ha, rfl⟩ := map_eq_ok.mp hg
      rw [← hcons]
      exact .cons ha (ih.mp has)
    · intro h
      cases h with
      | cons ha has => exact ⟨_, map_eq_ok.mpr ⟨_, ha, rfl⟩, _, ih.mpr has, rfl⟩

/-! ## Errors -/

/-- What is not refused is a value. -/
theorem errors_eq_nil {x : Validated ε α} : x.errors = [] ↔ ∃ a, x = .ok a := by
  cases x with
  | ok a => simp [errors]
  | refused e es => simp [errors]

@[simp]
theorem errors_map {f : α → β} {x : Validated ε α} : (f <$> x).errors = x.errors := by
  cases x <;> rfl

@[simp]
theorem errors_seq {f : Validated ε (α → β)} {x : Validated ε α} :
    (f <*> x).errors = f.errors ++ x.errors := by
  cases f with
  | ok g => cases x <;> rfl
  | refused e es => rfl

@[simp]
theorem errors_mapErrors {g : ε → ε'} {x : Validated ε α} :
    (x.mapErrors g).errors = x.errors.map g := by
  cases x <;> rfl

@[simp]
theorem errors_ofErrors {es : List ε} : (ofErrors es).errors = es := by
  cases es <;> rfl

/-- What is wrong stays wrong whatever follows. -/
theorem mem_errors_andThen {x : Validated ε α} {f : α → Validated ε β} {e : ε}
    (h : e ∈ x.errors) : e ∈ (x.andThen f).errors := by
  cases x with
  | ok a => cases h
  | refused e es => exact h

theorem mem_errors_andThen_cases {x : Validated ε α} {f : α → Validated ε β} {e : ε}
    (h : e ∈ (x.andThen f).errors) : e ∈ x.errors ∨ ∃ a, x = .ok a ∧ e ∈ (f a).errors := by
  cases x with
  | ok a => exact .inr ⟨a, rfl, h⟩
  | refused e' es => exact .inl h

theorem mem_errors_all {xs : List (Validated ε α)} {e : ε} :
    e ∈ (all xs).errors ↔ ∃ x ∈ xs, e ∈ x.errors := by
  induction xs with
  | nil => simp [all, errors]
  | cons x xs ih => simp [all, ih]

end Validated

end Lib
