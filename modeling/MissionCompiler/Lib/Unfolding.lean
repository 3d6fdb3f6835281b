import Mathlib.Data.Set.Card
import Mathlib.Logic.Relation
import MissionCompiler.Lib.Python

/-!
# Unfolding a graph

A graph of nodes with labelled edges, given by the edges that leave each node, and the tree it
unfolds to: its places are the paths from the root. A node that is shared has many places; a node
on a cycle has places of every depth.
-/

namespace Lib

variable {ι κ : Type}

/-- Where a path leads, by the labels of its edges. -/
inductive At (edges : ι → List (κ × ι)) : ι → List κ → ι → Prop
  | here (n : ι) : At edges n [] n
  | down {n m t : ι} {k : κ} {path : List κ} (edge : (k, m) ∈ edges n) (rest : At edges m path t) :
    At edges n (k :: path) t

/-- The places of the tree a node unfolds to. -/
def unfolding (edges : ι → List (κ × ι)) (n : ι) : Set (List κ) :=
  {path | ∃ m, At edges n path m}

def Child (edges : ι → List (κ × ι)) (n m : ι) : Prop := ∃ k, (k, m) ∈ edges n

/-- A node at a place below the root, with the nodes above it, the nearest first. -/
inductive Occurs (edges : ι → List (κ × ι)) (root : ι) : List κ → List ι → ι → Prop
  | root : Occurs edges root [] [] root
  | child {path : List κ} {above : List ι} {n m : ι} {k : κ}
      (parent : Occurs edges root path above n)
    (edge : (k, m) ∈ edges n) : Occurs edges root (path ++ [k]) (n :: above) m

variable {edges : ι → List (κ × ι)}

/-! ## Paths -/

theorem At.trans {n m t : ι} {path path' : List κ} (h : At edges n path m)
    (h' : At edges m path' t) : At edges n (path ++ path') t := by
  induction h with
  | here n => exact h'
  | down edge _ ih => exact .down edge (ih h')

theorem At.nil_iff {n m : ι} : At edges n [] m ↔ m = n := by
  constructor
  · intro h
    cases h
    rfl
  · intro h
    rw [h]
    exact .here n

theorem At.cons_iff {n t : ι} {k : κ} {path : List κ} :
    At edges n (k :: path) t ↔ ∃ m, (k, m) ∈ edges n ∧ At edges m path t := by
  constructor
  · intro h
    cases h with
    | down edge rest => exact ⟨_, edge, rest⟩
  · intro ⟨m, edge, rest⟩
    exact .down edge rest

/-- What can be reached is what some path leads to. -/
theorem reaches_iff_at {n m : ι} :
    Relation.ReflTransGen (Child edges) n m ↔ ∃ path, At edges n path m := by
  constructor
  · intro h
    induction h with
    | refl => exact ⟨[], .here n⟩
    | tail _ hstep ih =>
      obtain ⟨path, hpath⟩ := ih
      obtain ⟨k, edge⟩ := hstep
      exact ⟨path ++ [k], hpath.trans (.down edge (.here _))⟩
  · intro ⟨path, h⟩
    induction h with
    | here n => exact .refl
    | down edge _ ih => exact .head ⟨_, edge⟩ ih

theorem Occurs.at {root n : ι} {path : List κ} {above : List ι}
    (h : Occurs edges root path above n) : At edges root path n := by
  induction h with
  | root => exact .here root
  | child _ edge ih => exact ih.trans (.down edge (.here _))

/-- The nodes above a place lead down to it. -/
theorem Occurs.descends {root n : ι} {path : List κ} {above : List ι}
    (h : Occurs edges root path above n) : ∀ a ∈ above, Relation.TransGen (Child edges) a n := by
  induction h with
  | root =>
    intro a ha
    exact absurd ha List.not_mem_nil
  | child _ edge ih =>
    intro a ha
    rcases List.mem_cons.mp ha with rfl | ha
    · exact .single ⟨_, edge⟩
    · exact (ih a ha).tail ⟨_, edge⟩

/-! ## Cycles -/

/-- A node on a cycle unfolds to every depth. -/
theorem exists_at_of_cycle {n : ι} (h : Relation.TransGen (Child edges) n n) (depth : ℕ) :
    ∃ path, At edges n path n ∧ depth ≤ path.length := by
  obtain ⟨m, ⟨k, edge⟩, hback⟩ := Relation.TransGen.head'_iff.mp h
  obtain ⟨back, hback⟩ := reaches_iff_at.mp hback
  induction depth with
  | zero => exact ⟨[], .here n, Nat.zero_le _⟩
  | succ depth ih =>
    obtain ⟨path, hpath, hlength⟩ := ih
    refine ⟨k :: (back ++ path), .down edge (hback.trans hpath), ?_⟩
    rw [List.length_cons, List.length_append]
    omega

/-- A node whose unfolding is no deeper than a bound reaches no cycle. -/
theorem acyclic_of_bounded {root n : ι} {bound : ℕ}
    (h : ∀ path ∈ unfolding edges root, path.length ≤ bound)
    (hreaches : Relation.ReflTransGen (Child edges) root n) :
    ¬ Relation.TransGen (Child edges) n n := by
  intro hcycle
  obtain ⟨down, hdown⟩ := reaches_iff_at.mp hreaches
  obtain ⟨path, hpath, hlength⟩ := exists_at_of_cycle hcycle (bound + 1)
  have hbound := h (down ++ path) ⟨n, hdown.trans hpath⟩
  rw [List.length_append] at hbound
  omega

/-! ## Two graphs -/

section

variable {ι' : Type} {edges' : ι' → List (κ × ι')} {R : ι → ι' → Prop}

/-- Nodes that are related have related edges, label by label. -/
def Alike (R : ι → ι' → Prop) (edges : ι → List (κ × ι)) (edges' : ι' → List (κ × ι')) : Prop :=
  ∀ n n', R n n' → List.Forall₂ (fun e e' => e.1 = e'.1 ∧ R e.2 e'.2) (edges n) (edges' n')

theorem Alike.flip (h : Alike R edges edges') : Alike (fun n' n => R n n') edges' edges :=
  fun n' n hn => (List.Forall₂.imp (fun _ _ he => ⟨he.1.symm, he.2⟩) (h n n' hn)).flip

/-- A path leads from related nodes to related nodes. -/
theorem At.related (hR : Alike R edges edges') {n m : ι} {path : List κ} (h : At edges n path m)
    {n' : ι'} (hn : R n n') : ∃ m', At edges' n' path m' ∧ R m m' := by
  induction h generalizing n' with
  | here n => exact ⟨n', .here n', hn⟩
  | @down n m t k path edge _ ih =>
    obtain ⟨⟨k', m'⟩, hedge, hk, hrel⟩ := exists_of_mem_forall₂ (hR n n' hn).flip edge
    subst hk
    obtain ⟨t', ht', hrelt⟩ := ih hrel
    exact ⟨t', .down hedge ht', hrelt⟩

/-- Related nodes unfold to one tree. -/
theorem Alike.unfolding_eq (hR : Alike R edges edges') {n : ι} {n' : ι'} (hn : R n n') :
    unfolding edges n = unfolding edges' n' := by
  ext path
  constructor
  · intro ⟨m, hm⟩
    obtain ⟨m', hm', -⟩ := hm.related hR hn
    exact ⟨m', hm'⟩
  · intro ⟨m', hm'⟩
    obtain ⟨m, hm, -⟩ := hm'.related hR.flip hn
    exact ⟨m, hm⟩

end

/-! ## Size -/

/-- The places below some edges. -/
def placesBelow (edges : ι → List (κ × ι)) (out : List (κ × ι)) : Set (List κ) :=
  {path | ∃ k m rest, (k, m) ∈ out ∧ rest ∈ unfolding edges m ∧ path = k :: rest}

theorem unfolding_eq (n : ι) :
    unfolding edges n = insert [] (placesBelow edges (edges n)) := by
  ext path
  cases path with
  | nil =>
    constructor
    · intro _
      exact Set.mem_insert _ _
    · intro _
      exact ⟨n, .here n⟩
  | cons k rest =>
    constructor
    · intro ⟨t, h⟩
      obtain ⟨m, edge, hrest⟩ := At.cons_iff.mp h
      exact Set.mem_insert_of_mem _ ⟨k, m, rest, edge, ⟨t, hrest⟩, rfl⟩
    · intro h
      rcases h with hnil | ⟨k', m, rest', edge, ⟨t, hrest⟩, heq⟩
      · cases hnil
      · obtain ⟨rfl, rfl⟩ := List.cons.inj heq
        exact ⟨t, .down edge hrest⟩

theorem encard_placesBelow {out : List (κ × ι)} (h : (out.map Prod.fst).Nodup) :
    (placesBelow edges out).encard = (out.map fun e => (unfolding edges e.2).encard).sum := by
  induction out with
  | nil =>
    have hempty : placesBelow edges [] = ∅ := by
      ext path
      simp [placesBelow]
    rw [hempty, Set.encard_empty]
    rfl
  | cons e out ih =>
    obtain ⟨hfresh, hrest⟩ := List.nodup_cons.mp h
    have hsplit : placesBelow edges (e :: out) =
        (e.1 :: ·) '' unfolding edges e.2 ∪ placesBelow edges out := by
      ext path
      constructor
      · intro ⟨k, m, rest, hmem, hplace, heq⟩
        rcases List.mem_cons.mp hmem with heq' | hmem
        · left
          rw [← heq']
          exact ⟨rest, hplace, heq.symm⟩
        · exact .inr ⟨k, m, rest, hmem, hplace, heq⟩
      · intro hpath
        rcases hpath with ⟨rest, hplace, heq⟩ | ⟨k, m, rest, hmem, hplace, heq⟩
        · exact ⟨e.1, e.2, rest, List.mem_cons_self, hplace, heq.symm⟩
        · exact ⟨k, m, rest, List.mem_cons_of_mem _ hmem, hplace, heq⟩
    have hdisjoint : Disjoint ((e.1 :: ·) '' unfolding edges e.2) (placesBelow edges out) := by
      rw [Set.disjoint_left]
      intro path hfirst hother
      obtain ⟨rest, _, rfl⟩ := hfirst
      obtain ⟨k, m, rest', hmem, _, heq⟩ := hother
      obtain ⟨rfl, _⟩ := List.cons.inj heq
      exact hfresh (List.mem_map.mpr ⟨_, hmem, rfl⟩)
    rw [hsplit, Set.encard_union_eq hdisjoint, ih hrest, List.map_cons, List.sum_cons,
      Function.Injective.encard_image (List.cons_injective)]

/-- A tree is a root and the trees below it. -/
theorem encard_unfolding {n : ι} (h : ((edges n).map Prod.fst).Nodup) :
    (unfolding edges n).encard =
      ((edges n).map fun e => (unfolding edges e.2).encard).sum + 1 := by
  rw [unfolding_eq, Set.encard_insert_of_notMem, encard_placesBelow h]
  intro hnil
  obtain ⟨k, m, rest, _, _, heq⟩ := hnil
  cases heq

end Lib
