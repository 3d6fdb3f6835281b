import Mathlib.Data.List.DropRight
import MissionCompiler.Lib.Dashed

/-!
# Paths through symbolic links

A tree of files in which a place may be a link, the texts of paths, and where a path leads. A place
is physical when no link lies on the way to it: following a path ends in a physical place, and a
physical place leads to itself.
-/

namespace Lib

/-- The text of a path, taken apart: whether it starts at the root, and its names. -/
structure PathText where
  absolute : Bool
  parts : List String
deriving DecidableEq, Repr

/-- `PurePosixPath(text)`: empty names and single dots are dropped. -/
def pathOf (text : String) : PathText where
  absolute := text.toList.head? == some '/'
  parts := ((text.toList.splitOn '/').map String.ofList).filter fun part =>
    part != "" && part != "."

/-- `PurePath.name`. -/
def PathText.name (path : PathText) : String := path.parts.getLast?.getD ""

/-- A name of a path is one that a path of its own would have. -/
theorem pathOf_part {text part : String} (h : part ∈ (pathOf text).parts) :
    pathOf part = ⟨false, [part]⟩ := by
  obtain ⟨hsplit, hkept⟩ := List.mem_filter.mp h
  obtain ⟨name, hname, rfl⟩ := List.mem_map.mp hsplit
  have hslash : '/' ∉ name := (mem_splitOn hname).1
  have habsolute : (name.head? == some '/') = false := by
    rw [beq_eq_false_iff_ne]
    exact fun hhead => hslash (List.mem_of_head? hhead)
  rw [pathOf, String.toList_ofList, habsolute, List.splitOn_eq_singleton hslash]
  simp [hkept]

/-- What stands at a place of a tree. -/
inductive TreeNode (α : Type) where
  | directory
  | file (content : α)
  | link (target : PathText)

/-- A tree of files, by places: the names on the way from the root. -/
abbrev FileTree (α : Type) := List String → Option (TreeNode α)

namespace FileTree

variable {α : Type} (tree : FileTree α)

/-- Where some names lead from a place, links followed. It gives up after some steps, as it would
on links that lead in a circle. -/
def follow : Nat → List String → List String → Option (List String)
  | _, place, [] => some place
  | 0, _, _ :: _ => none
  | fuel + 1, place, part :: rest =>
    if part = "" ∨ part = "." then follow fuel place rest
    else if part = ".." then follow fuel place.dropLast rest
    else match tree (place ++ [part]) with
      | some (.link target) =>
        follow fuel (if target.absolute then [] else place) (target.parts ++ rest)
      | _ => follow fuel (place ++ [part]) rest

/-- What is read of a path that leads to a file. -/
def open? (fuel : Nat) (place : List String) : Option α := do
  let there ← tree.follow fuel [] place
  match tree there with
  | some (.file content) => some content
  | _ => none

/-- A place that no link leads to: its names are names, and those on the way are no links. -/
def Physical (place : List String) : Prop :=
  ∀ front part, front ++ [part] <+: place →
    part ≠ "" ∧ part ≠ "." ∧ part ≠ ".." ∧ ∀ target, tree (front ++ [part]) ≠ some (.link target)

variable {tree} {place parts : List String} {part : String} {fuel : Nat}

theorem physical_nil : tree.Physical [] := by
  intro front part h
  simp at h

theorem Physical.before (h : tree.Physical place) {front : List String} (hfront : front <+: place) :
    tree.Physical front :=
  fun _ _ hbefore => h _ _ (hbefore.trans hfront)

theorem physical_append : tree.Physical (place ++ [part]) ↔ tree.Physical place ∧ part ≠ "" ∧
    part ≠ "." ∧ part ≠ ".." ∧ ∀ target, tree (place ++ [part]) ≠ some (.link target) := by
  constructor
  · intro h
    exact ⟨h.before (List.prefix_append ..), h place part List.prefix_rfl⟩
  · rintro ⟨hplace, hpart⟩ front name hbefore
    rcases List.prefix_concat_iff.mp hbefore with heq | hbefore
    · obtain ⟨rfl, hname⟩ := List.append_inj' heq rfl
      obtain rfl := List.singleton_inj.mp hname
      exact hpart
    · exact hplace front name hbefore

/-- What is followed ends where no link leads to. -/
theorem physical_of_follow {there : List String} (hplace : tree.Physical place)
    (h : tree.follow fuel place parts = some there) : tree.Physical there := by
  induction fuel generalizing place parts with
  | zero =>
    cases parts with
    | nil => exact Option.some.inj h ▸ hplace
    | cons part rest => cases h
  | succ fuel ih =>
    cases parts with
    | nil => exact Option.some.inj h ▸ hplace
    | cons part rest =>
      rw [follow] at h
      by_cases hskip : part = "" ∨ part = "."
      · rw [if_pos hskip] at h
        exact ih hplace h
      · rw [if_neg hskip] at h
        by_cases hup : part = ".."
        · rw [if_pos hup] at h
          exact ih (hplace.before (List.dropLast_prefix _)) h
        · rw [if_neg hup] at h
          have hdown : (∀ target, tree (place ++ [part]) ≠ some (.link target)) →
              tree.Physical (place ++ [part]) := fun hlink =>
            physical_append.mpr ⟨hplace, fun he => hskip (.inl he), fun he => hskip (.inr he), hup,
              hlink⟩
          split at h
          · next target hlink =>
            refine ih ?_ h
            split
            · exact physical_nil
            · exact hplace
          · next hlink => exact ih (hdown fun target => hlink target) h

/-- On the way to a physical place nothing is followed. -/
theorem follow_of_physical (h : tree.Physical (place ++ parts)) (hfuel : parts.length ≤ fuel) :
    tree.follow fuel place parts = some (place ++ parts) := by
  induction parts generalizing place fuel with
  | nil => cases fuel <;> simp [follow]
  | cons part rest ih =>
    cases fuel with
    | zero => simp at hfuel
    | succ fuel =>
      rw [List.append_cons] at h
      obtain ⟨-, hempty, hdot, hup, hlink⟩ := physical_append.mp (h.before (List.prefix_append ..))
      have hskip : ¬ (part = "" ∨ part = ".") := by simp [hempty, hdot]
      rw [follow, if_neg hskip, if_neg hup, List.append_cons place part rest]
      simp only [List.length_cons] at hfuel
      split
      · next target htarget => exact absurd htarget (hlink target)
      · exact ih h (by omega)

/-- Each step goes one name down at most. -/
theorem length_of_follow {there : List String} (h : tree.follow fuel place parts = some there) :
    there.length ≤ place.length + fuel := by
  induction fuel generalizing place parts with
  | zero =>
    cases parts with
    | nil => simp [← Option.some.inj h]
    | cons part rest => cases h
  | succ fuel ih =>
    cases parts with
    | nil =>
      rw [← Option.some.inj h]
      omega
    | cons part rest =>
      rw [follow] at h
      split at h
      · have hlen := ih h
        omega
      · split at h
        · have hlen := ih h
          simp only [List.length_dropLast] at hlen
          omega
        · split at h
          · next target _ =>
            have hlen := ih h
            have hbase : (if target.absolute then [] else place).length ≤ place.length := by
              split <;> simp
            omega
          · have hlen := ih h
            simp only [List.length_append, List.length_singleton] at hlen
            omega

/-- What is read at a physical place is what stands there, also in a tree that agrees with this one
on the way to it. -/
theorem open_of_physical {tree' : FileTree α} (h : tree.Physical place)
    (hsame : ∀ front, front <+: place → tree' front = tree front) {content : α}
    (hfile : tree place = some (.file content)) (hfuel : place.length ≤ fuel) :
    tree'.open? fuel place = some content := by
  have h' : tree'.Physical ([] ++ place) := by
    intro front part hbefore
    obtain ⟨hempty, hdot, hup, hlink⟩ := h front part hbefore
    refine ⟨hempty, hdot, hup, fun target => ?_⟩
    rw [hsame _ hbefore]
    exact hlink target
  have hfollow := follow_of_physical h' hfuel
  have hthere : tree' place = some (.file content) := (hsame place List.prefix_rfl).trans hfile
  rw [open?, hfollow]
  show (match tree' place with | some (.file content) => some content | _ => none) = _
  rw [hthere]

end FileTree

end Lib
