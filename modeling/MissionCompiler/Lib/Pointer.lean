import Mathlib.Data.List.Basic
import MissionCompiler.Lib.Decimal

/-!
# Paths into a document

A path is its segments, each after a slash. Segments without a slash in them can be read back
(`segments_pointer`), and the segments of generated paths, fixed words and indexes, have none.
-/

namespace Lib

/-- The path of a list of segments. -/
def pointer (segments : List String) : String :=
  String.ofList (segments.flatMap fun s => '/' :: s.toList)

/-- The segments of a path. -/
def segments (path : String) : List String :=
  (path.toList.splitOn '/').tail.map String.ofList

/-- No slash in any segment. -/
def Plain (segments : List String) : Prop := ∀ s ∈ segments, '/' ∉ s.toList

theorem pointer_append (a b : List String) : pointer (a ++ b) = pointer a ++ pointer b := by
  rw [pointer, List.flatMap_append, String.ofList_append]
  rfl

/-- The path as the join of its segments, after an empty first one. -/
theorem intercalate_segments (segments : List (List Char)) :
    ['/'].intercalate ([] :: segments) = segments.flatMap fun s => '/' :: s := by
  induction segments with
  | nil => rfl
  | cons s rest ih =>
    rw [List.intercalate_cons_cons, List.flatMap_cons, ← ih]
    cases rest with
    | nil => simp [List.intercalate]
    | cons t rest => simp [List.intercalate_cons_cons]

theorem segments_pointer {a : List String} (ha : Plain a) : segments (pointer a) = a := by
  have hchars : (pointer a).toList = ['/'].intercalate ([] :: a.map String.toList) := by
    rw [intercalate_segments, List.flatMap_map, pointer, String.toList_ofList]
  have hplain : ∀ l ∈ [] :: a.map String.toList, '/' ∉ l := by
    intro l hl
    rcases List.mem_cons.mp hl with rfl | hl
    · exact List.not_mem_nil
    · obtain ⟨s, hs, rfl⟩ := List.mem_map.mp hl
      exact ha s hs
  have hid : String.ofList ∘ String.toList = id := funext fun s => String.ofList_toList
  rw [segments, hchars, List.splitOn_intercalate _ hplain (List.cons_ne_nil _ _), List.tail_cons,
    List.map_map, hid, List.map_id]

/-- An index is written in digits. -/
theorem slash_not_mem_toString (n : Nat) : '/' ∉ (toString n).toList := by
  intro h
  rw [toList_toString_eq] at h
  exact absurd (isDigit_of_mem_toDigits h) (by decide)

end Lib
