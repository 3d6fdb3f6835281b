import Mathlib.Data.List.Forall2
import Mathlib.Data.List.Nodup
import Mathlib.Data.List.Perm.Basic

/-!
# Pairs of a list

The pairs of elements at two positions of a list, the earlier one first: what two nested loops go
through whose inner one begins after the outer one. Each pair of positions comes once, and the
order of the list is seen in the order of the pairs and in each of them only.
-/

namespace Lib

variable {α β γ : Type}

/-- The pairs of a list, the earlier element first. -/
def pairsOf : List α → List (α × α)
  | [] => []
  | a :: rest => rest.map (fun b => (a, b)) ++ pairsOf rest

theorem pairsOf_map (f : α → β) (xs : List α) :
    pairsOf (xs.map f) = (pairsOf xs).map (Prod.map f f) := by
  induction xs with
  | nil => rfl
  | cons a rest ih =>
    rw [List.map_cons, pairsOf, ih, pairsOf, List.map_append, List.map_map, List.map_map]
    rfl

/-- In a list that a relation orders, the pairs are those the relation holds of. -/
theorem mem_pairsOf {r : α → α → Prop} (hirrefl : ∀ a, ¬ r a a) (hasymm : ∀ a b, r a b → ¬ r b a)
    {xs : List α} (h : xs.Pairwise r) {a b : α} :
    (a, b) ∈ pairsOf xs ↔ a ∈ xs ∧ b ∈ xs ∧ r a b := by
  induction xs with
  | nil => simp [pairsOf]
  | cons x rest ih =>
    obtain ⟨hx, hrest⟩ := List.pairwise_cons.mp h
    rw [pairsOf, List.mem_append, ih hrest]
    constructor
    · rintro (hmem | ⟨ha, hb, hab⟩)
      · obtain ⟨c, hc, hpair⟩ := List.mem_map.mp hmem
        cases hpair
        exact ⟨List.mem_cons_self, List.mem_cons_of_mem a hc, hx b hc⟩
      · exact ⟨List.mem_cons_of_mem x ha, List.mem_cons_of_mem x hb, hab⟩
    · rintro ⟨ha, hb, hab⟩
      rcases List.mem_cons.mp ha with rfl | ha'
      · rcases List.mem_cons.mp hb with rfl | hb'
        · exact absurd hab (hirrefl b)
        · exact .inl (List.mem_map.mpr ⟨b, hb', rfl⟩)
      · rcases List.mem_cons.mp hb with rfl | hb'
        · exact absurd (hx a ha') (hasymm a b hab)
        · exact .inr ⟨ha', hb', hab⟩

theorem fst_mem_of_mem_pairsOf {xs : List α} {p : α × α} (h : p ∈ pairsOf xs) : p.1 ∈ xs := by
  induction xs with
  | nil => cases h
  | cons x rest ih =>
    rcases List.mem_append.mp h with h | h
    · obtain ⟨b, _, rfl⟩ := List.mem_map.mp h
      exact List.mem_cons_self
    · exact List.mem_cons_of_mem x (ih h)

/-- No pair comes twice when no element does. -/
theorem nodup_pairsOf {xs : List α} (h : xs.Nodup) : (pairsOf xs).Nodup := by
  induction xs with
  | nil => exact List.nodup_nil
  | cons a rest ih =>
    obtain ⟨ha, hrest⟩ := List.nodup_cons.mp h
    refine List.Nodup.append ?_ (ih hrest) ?_
    · exact hrest.map fun b c hbc => congrArg Prod.snd hbc
    · intro p hp hq
      obtain ⟨b, _, rfl⟩ := List.mem_map.mp hp
      exact ha (fst_mem_of_mem_pairsOf hq)

/-- A collection over the pairs that does not see their order does not see the order of the list,
except in its own. -/
theorem filterMap_pairsOf_perm {f : α × α → Option β} (hsymm : ∀ a b, f (a, b) = f (b, a))
    {xs ys : List α} (h : xs.Perm ys) :
    ((pairsOf xs).filterMap f).Perm ((pairsOf ys).filterMap f) := by
  induction h with
  | nil => exact .refl _
  | cons a hrest ih =>
    simp only [pairsOf, List.filterMap_append]
    exact ((hrest.map _).filterMap f).append ih
  | swap a b rest =>
    have hpairs : ∀ c d, pairsOf (c :: d :: rest) = [(c, d)] ++ (rest.map (fun e => (c, e)) ++
        rest.map (fun e => (d, e))) ++ pairsOf rest := by
      intro c d
      simp only [pairsOf, List.map_cons, List.cons_append, List.nil_append, List.append_assoc]
    have hpair : [(b, a)].filterMap f = [(a, b)].filterMap f := by
      simp only [List.filterMap_cons, hsymm a b]
    simp only [hpairs, List.filterMap_append, hpair]
    exact (List.perm_append_comm.append_left _).append_right _
  | trans _ _ ih₁ ih₂ => exact ih₁.trans ih₂

/-- What a list is filtered and mapped to, beside what is collected from the same elements. -/
theorem forall₂_filter_filterMap {R : β → γ → Prop} {f : α → β} {g : α → Option γ} {xs : List α}
    (h : ∀ x ∈ xs, ∀ c, g x = some c → R (f x) c) :
    List.Forall₂ R ((xs.filter fun x => (g x).isSome).map f) (xs.filterMap g) := by
  induction xs with
  | nil => exact .nil
  | cons x xs ih =>
    obtain ⟨hx, hxs⟩ := List.forall_mem_cons.mp h
    cases hg : g x with
    | none => simpa [hg] using ih hxs
    | some c => simpa [hg] using And.intro (hx c hg) (ih hxs)

/-- What is beside what is beside a list. -/
theorem forall₂_comp {R : α → β → Prop} {S : β → γ → Prop} {xs : List α} {ys : List β}
    {zs : List γ} (h : List.Forall₂ R xs ys) (h' : List.Forall₂ S ys zs) :
    List.Forall₂ (fun x z => ∃ y, R x y ∧ S y z) xs zs := by
  induction h generalizing zs with
  | nil => exact List.forall₂_nil_left_iff.mpr (List.forall₂_nil_left_iff.mp h')
  | @cons x y xs ys hxy _ ih =>
    obtain ⟨z, rest, hyz, hrest, rfl⟩ := List.forall₂_cons_left_iff.mp h'
    exact .cons ⟨y, hxy, hyz⟩ (ih hrest)

end Lib
