import Mathlib.Data.List.Perm.Basic
import Mathlib.Data.List.Nodup
import MissionCompiler.Lib.Python

/-!
# Collecting over an enumerated list

`enumerated f xs` is what a loop over `enumerate(xs)` collects, and what a comprehension over
the indexes of `xs` ranges over. The rules here rearrange such collections (one loop that does
two things against two loops) and show them free of repetition when each entry can be traced
back to its index.
-/

namespace Lib

variable {α β γ : Type}

/-- The collection of `f i x` over the elements `x` of a list and their indexes `i`. -/
def enumerated (f : Nat → α → List β) (xs : List α) : List β :=
  xs.zipIdx.flatMap fun e => f e.2 e.1

theorem mem_enumerated {f : Nat → α → List β} {xs : List α} {b : β} :
    b ∈ enumerated f xs ↔ ∃ i x, xs[i]? = some x ∧ b ∈ f i x := by
  simp only [enumerated, List.mem_flatMap, Prod.exists, List.mem_zipIdx_iff_getElem?]
  constructor
  · rintro ⟨x, i, hx, hb⟩
    exact ⟨i, x, hx, hb⟩
  · rintro ⟨i, x, hx, hb⟩
    exact ⟨x, i, hx, hb⟩

theorem enumerated_map {g : γ → α} {f : Nat → α → List β} {xs : List γ} :
    enumerated f (xs.map g) = enumerated (fun i x => f i (g x)) xs := by
  rw [enumerated, List.zipIdx_map, List.flatMap_map]
  rfl

theorem map_enumerated {g : β → γ} {f : Nat → α → List β} {xs : List α} :
    (enumerated f xs).map g = enumerated (fun i x => (f i x).map g) xs := by
  rw [enumerated, List.map_flatMap]
  rfl

theorem enumerated_congr {f g : Nat → α → List β} {xs : List α}
    (h : ∀ i, ∀ x ∈ xs, f i x = g i x) : enumerated f xs = enumerated g xs := by
  refine List.flatMap_congr fun e he => h e.2 e.1 ?_
  exact List.mem_of_getElem? (List.mem_zipIdx_iff_getElem?.mp he)

theorem enumerated_eq_nil {f : Nat → α → List β} {xs : List α}
    (h : ∀ i, ∀ x ∈ xs, f i x = []) : enumerated f xs = [] := by
  refine List.flatMap_eq_nil_iff.mpr fun e he => h e.2 e.1 ?_
  exact List.mem_of_getElem? (List.mem_zipIdx_iff_getElem?.mp he)

/-- Two collections made by one loop, or by a loop each. -/
theorem enumerated_append_perm (f g : Nat → α → List β) (xs : List α) :
    (enumerated (fun i x => f i x ++ g i x) xs).Perm (enumerated f xs ++ enumerated g xs) :=
  (List.flatMap_append_perm xs.zipIdx (fun e => f e.2 e.1) (fun e => g e.2 e.1)).symm

theorem enumerated_perm_congr {f g : Nat → α → List β} (xs : List α)
    (h : ∀ i x, (f i x).Perm (g i x)) : (enumerated f xs).Perm (enumerated g xs) :=
  List.Perm.flatMap_left xs.zipIdx fun e _ => h e.2 e.1

/-- A collection repeats nothing when its parts do not and each entry tells its index. -/
theorem enumerated_nodup {f : Nat → α → List β} {xs : List α} (index : β → Option γ)
    {tag : Nat → γ} (htag : Function.Injective tag)
    (hpart : ∀ i, ∀ x ∈ xs, (f i x).Nodup)
    (hindex : ∀ i, ∀ x ∈ xs, ∀ b ∈ f i x, index b = some (tag i)) :
    (enumerated f xs).Nodup := by
  have hmem : ∀ e ∈ xs.zipIdx, e.1 ∈ xs := fun e he =>
    List.mem_of_getElem? (List.mem_zipIdx_iff_getElem?.mp he)
  refine List.nodup_flatMap.mpr ⟨fun e he => hpart e.2 e.1 (hmem e he), ?_⟩
  have hindexes : (xs.zipIdx.map Prod.snd).Nodup := by
    rw [List.zipIdx_map_snd]
    exact List.nodup_range'
  have hdistinct := List.pairwise_map.mp hindexes
  refine hdistinct.imp_of_mem fun {a b} ha hb hne c hca hcb => hne ?_
  have h1 := hindex a.2 a.1 (hmem a ha) c hca
  have h2 := hindex b.2 b.1 (hmem b hb) c hcb
  exact htag (Option.some.inj (h1.symm.trans h2))

/-- A loop whose body never raises collects what its bodies return. -/
theorem enumerateM_eq_enumerated {body : Nat → α → Except Exn (List β)} {g : γ → α}
    {result : Nat → γ → List β} {xs : List γ}
    (h : ∀ i, ∀ x ∈ xs, body i (g x) = .ok (result i x)) :
    enumerateM body 0 (xs.map g) = .ok (enumerated result xs) :=
  enumerateM_ok xs 0 h

end Lib
