import Mathlib.Data.List.Nodup
import Mathlib.Logic.Relation

/-!
# Topological orders of a chain

Tasks of which some depend on others, and the orders to run them in. Where each task depends on
the one before it there is one such order.
-/

namespace Lib

variable {α : Type} [DecidableEq α]

/-- One task stands before another in an order. -/
def Before (order : List α) (a b : α) : Prop := order.idxOf a < order.idxOf b

/-- An order of the tasks that puts what a task depends on before it. -/
structure Topological (depends : α → α → Prop) (tasks order : List α) : Prop where
  perm : order.Perm tasks
  before : ∀ a b, depends a b → Before order b a

instance (order : List α) : Trans (Before order) (Before order) (Before order) where
  trans := Nat.lt_trans

/-- An order is in its own order. -/
theorem pairwise_before {order : List α} (h : order.Nodup) : order.Pairwise (Before order) := by
  rw [List.pairwise_iff_getElem]
  intro i j hi hj hij
  unfold Before
  rw [h.idxOf_getElem i hi, h.idxOf_getElem j hj]
  exact hij

/-- Where there is an order there is no cycle. -/
theorem Topological.acyclic {depends : α → α → Prop} {tasks order : List α}
    (h : Topological depends tasks order) (a : α) : ¬ Relation.TransGen depends a a := by
  have hbefore : ∀ b, Relation.TransGen depends a b → Before order b a := by
    intro b hb
    induction hb with
    | single hstep => exact h.before _ _ hstep
    | tail _ hstep ih => exact Nat.lt_trans (h.before _ _ hstep) ih
  intro hcycle
  exact Nat.lt_irrefl _ (hbefore a hcycle)

/-- A chain has its own order as its only one. -/
theorem topological_chain_iff {depends : α → α → Prop} {tasks order : List α}
    (hnodup : tasks.Nodup)
    (hdepends : ∀ a b, depends a b ↔ ∃ i, tasks[i]? = some b ∧ tasks[i + 1]? = some a) :
    Topological depends tasks order ↔ order = tasks := by
  constructor
  · intro h
    have hchain : tasks.IsChain (Before order) := by
      rw [List.isChain_iff_getElem]
      intro i hi
      apply h.before
      rw [hdepends]
      exact ⟨i, List.getElem?_eq_getElem _, List.getElem?_eq_getElem hi⟩
    refine List.Perm.eq_of_pairwise ?_ (pairwise_before (h.perm.nodup_iff.mpr hnodup))
      (List.isChain_iff_pairwise.mp hchain) h.perm
    intro a b _ _ hab hba
    exact absurd hba (Nat.lt_asymm hab)
  · intro h
    refine ⟨h ▸ List.Perm.refl _, fun a b hab => ?_⟩
    obtain ⟨i, hb, ha⟩ := (hdepends a b).mp hab
    obtain ⟨hi, rfl⟩ := List.getElem?_eq_some_iff.mp hb
    obtain ⟨hi', rfl⟩ := List.getElem?_eq_some_iff.mp ha
    rw [h, Before, hnodup.idxOf_getElem i hi, hnodup.idxOf_getElem (i + 1) hi']
    exact Nat.lt_succ_self i

end Lib
