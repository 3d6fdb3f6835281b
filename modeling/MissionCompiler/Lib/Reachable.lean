import Mathlib.Logic.Relation

/-!
# What is reached

What one relation reaches against what another does that differs from it at a few places.
-/

namespace Lib

variable {α : Type} {r r' : α → α → Prop} {p : α → Prop} {a b : α}

/-- Where two relations agree outside a set that is closed under the first, what the first reaches
is in the set, or the second reaches it as well. -/
theorem reaches_or (hclosed : ∀ a b, p a → r a b → p b) (hagree : ∀ a b, ¬ p a → r a b → r' a b)
    (h : Relation.ReflTransGen r a b) : p b ∨ Relation.ReflTransGen r' a b := by
  induction h with
  | refl => exact .inr .refl
  | @tail b c _ hstep ih =>
    rcases ih with hb | hreach
    · exact .inl (hclosed b c hb hstep)
    · by_cases hb : p b
      · exact .inl (hclosed b c hb hstep)
      · exact .inr (hreach.tail (hagree b c hb hstep))

/-- What a relation reaches from a place in a closed set is in the set. -/
theorem mem_of_reaches (hclosed : ∀ a b, p a → r a b → p b) (ha : p a)
    (h : Relation.ReflTransGen r a b) : p b := by
  induction h with
  | refl => exact ha
  | tail _ hstep ih => exact hclosed _ _ ih hstep

end Lib
