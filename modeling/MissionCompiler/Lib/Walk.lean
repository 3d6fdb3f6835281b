import Mathlib.Data.Finset.Insert
import MissionCompiler.Lib.Links

/-!
# Where the calls of the system end

A path is walked name by name from a place: what stands on the way is a directory, or a link, which
is followed unless too many were, and what stands at the end may be a file. `walk` is the walk as it
is taken, `Walks` says what it comes to. A tree that only gains directories leads everywhere it led
before.
-/

namespace Lib

/-- Why a path leads nowhere: `ENOENT`, `ENOTDIR` and `ELOOP`. -/
inductive WalkError where
  | missing
  | notDirectory
  | tooManyLinks
deriving DecidableEq

/-- A name that an entry of a directory can have. -/
def IsName (part : String) : Prop := part ≠ "" ∧ part ≠ "." ∧ part ≠ ".."

/-- A tree of files with its listings: the root is a directory, and what stands somewhere stands in
a directory. -/
structure RootedTree (α : Type) where
  node : FileTree α
  entries : List String → Finset String
  root : node [] = some .directory
  above : ∀ place name, (node (place ++ [name])).isSome = true → node place = some .directory
  mem_entries : ∀ place name, name ∈ entries place ↔ (node (place ++ [name])).isSome = true

namespace RootedTree

variable {α : Type} (tree : RootedTree α)

/-- A walk up to the first link, which is left to `next`. -/
def walkVia (next : List String → List String → Except WalkError (List String)) :
    List String → List String → Except WalkError (List String)
  | place, [] => .ok place
  | place, part :: rest =>
    if part = "" ∨ part = "." then walkVia next place rest
    else if part = ".." then walkVia next place.dropLast rest
    else match tree.node (place ++ [part]) with
      | some .directory => walkVia next (place ++ [part]) rest
      | some (.link target) => next (if target.absolute then [] else place) (target.parts ++ rest)
      | some (.file _) => if rest = [] then .ok (place ++ [part]) else .error .notDirectory
      | none => .error .missing

/-- Where some names lead from a place when so many links may be followed. -/
def walk : Nat → List String → List String → Except WalkError (List String)
  | 0 => walkVia tree fun _ _ => .error .tooManyLinks
  | links + 1 => walkVia tree (walk links)

/-- Some names lead from a place to another one. -/
inductive Walks : Nat → List String → List String → List String → Prop
  | here {links : Nat} {place : List String} : Walks links place [] place
  | stay {links : Nat} {place rest there : List String} {part : String}
      (hpart : part = "" ∨ part = ".") (h : Walks links place rest there) :
      Walks links place (part :: rest) there
  | up {links : Nat} {place rest there : List String} (h : Walks links place.dropLast rest there) :
      Walks links place (".." :: rest) there
  | into {links : Nat} {place rest there : List String} {part : String} (hname : IsName part)
      (hnode : tree.node (place ++ [part]) = some .directory)
      (h : Walks links (place ++ [part]) rest there) : Walks links place (part :: rest) there
  | onto {links : Nat} {place : List String} {part : String} {content : α} (hname : IsName part)
      (hnode : tree.node (place ++ [part]) = some (.file content)) :
      Walks links place [part] (place ++ [part])
  | through {links : Nat} {place rest there : List String} {part : String} {target : PathText}
      (hname : IsName part) (hnode : tree.node (place ++ [part]) = some (.link target))
      (h : Walks links (if target.absolute then [] else place) (target.parts ++ rest) there) :
      Walks (links + 1) place (part :: rest) there

variable {tree} {links links' : Nat} {place place' parts rest front back there there' : List String}
  {part name : String}

/-! ## The walk that is taken -/

theorem walks_of_walkVia {next : List String → List String → Except WalkError (List String)}
    (hnext : ∀ base parts there, next base parts = .ok there →
      ∃ fewer, links = fewer + 1 ∧ tree.Walks fewer base parts there)
    (h : tree.walkVia next place parts = .ok there) : tree.Walks links place parts there := by
  induction parts generalizing place with
  | nil =>
    obtain rfl := Except.ok.inj h
    exact .here
  | cons part rest ih =>
    rw [walkVia] at h
    split at h
    · next hstay => exact .stay hstay (ih h)
    · next hstay =>
      split at h
      · next hup =>
        subst hup
        exact .up (ih h)
      · next hup =>
        have hname : IsName part := ⟨fun he => hstay (.inl he), fun he => hstay (.inr he), hup⟩
        split at h
        · next hnode => exact .into hname hnode (ih h)
        · next target hnode =>
          obtain ⟨fewer, rfl, hwalks⟩ := hnext _ _ _ h
          exact .through hname hnode hwalks
        · next content hnode =>
          split at h
          · next hrest =>
            subst hrest
            obtain rfl := Except.ok.inj h
            exact .onto hname hnode
          · cases h
        · cases h

theorem walks_of_walk (h : tree.walk links place parts = .ok there) :
    tree.Walks links place parts there := by
  induction links generalizing place parts there with
  | zero => exact walks_of_walkVia (fun _ _ _ hnext => by cases hnext) h
  | succ links ih => exact walks_of_walkVia (fun _ _ _ hnext => ⟨links, rfl, ih hnext⟩) h

theorem walk_eq_walkVia : ∃ next, tree.walk links = tree.walkVia next := by
  cases links with
  | zero => exact ⟨_, rfl⟩
  | succ links => exact ⟨_, rfl⟩

theorem walk_of_walks (h : tree.Walks links place parts there) :
    tree.walk links place parts = .ok there := by
  induction h with
  | @here links place =>
    obtain ⟨next, hnext⟩ := @walk_eq_walkVia _ tree links
    rw [hnext, walkVia]
  | @stay links place rest there part hpart h ih =>
    obtain ⟨next, hnext⟩ := @walk_eq_walkVia _ tree links
    rw [hnext] at ih ⊢
    rw [walkVia, if_pos hpart, ih]
  | @up links place rest there h ih =>
    obtain ⟨next, hnext⟩ := @walk_eq_walkVia _ tree links
    rw [hnext] at ih ⊢
    rw [walkVia, if_neg (by simp), if_pos rfl, ih]
  | @into links place rest there part hname hnode h ih =>
    obtain ⟨next, hnext⟩ := @walk_eq_walkVia _ tree links
    rw [hnext] at ih ⊢
    rw [walkVia, if_neg (not_or.mpr ⟨hname.1, hname.2.1⟩), if_neg hname.2.2]
    simp only [hnode]
    exact ih
  | @onto links place part content hname hnode =>
    obtain ⟨next, hnext⟩ := @walk_eq_walkVia _ tree links
    rw [hnext, walkVia, if_neg (not_or.mpr ⟨hname.1, hname.2.1⟩), if_neg hname.2.2]
    simp only [hnode, if_true]
  | through hname hnode h ih =>
    rw [walk, walkVia, if_neg (not_or.mpr ⟨hname.1, hname.2.1⟩), if_neg hname.2.2]
    simp only [hnode]
    exact ih

theorem walk_eq_ok_iff : tree.walk links place parts = .ok there ↔
    tree.Walks links place parts there :=
  ⟨walks_of_walk, walk_of_walks⟩

theorem Walks.unique (h : tree.Walks links place parts there)
    (h' : tree.Walks links place parts there') : there = there' :=
  Except.ok.inj ((walk_of_walks h).symm.trans (walk_of_walks h'))

@[simp] theorem walks_nil : tree.Walks links place [] there ↔ there = place := by
  constructor
  · exact fun h => h.unique .here
  · rintro rfl
    exact .here

/-- Nothing leads through a name that nothing has. -/
theorem not_walks (hname : IsName name) (hfree : tree.node (place ++ [name]) = none) :
    ¬ tree.Walks links place (name :: rest) there := by
  obtain ⟨next, hnext⟩ := @walk_eq_walkVia _ tree links
  rw [← walk_eq_ok_iff, hnext, walkVia, if_neg (not_or.mpr ⟨hname.1, hname.2.1⟩),
    if_neg hname.2.2]
  simp [hfree]

/-! ## Walks in parts -/

theorem Walks.mono (h : tree.Walks links place parts there) (hle : links ≤ links') :
    tree.Walks links' place parts there := by
  induction h generalizing links' with
  | here => exact .here
  | stay hpart _ ih => exact .stay hpart (ih hle)
  | up _ ih => exact .up (ih hle)
  | into hname hnode _ ih => exact .into hname hnode (ih hle)
  | onto hname hnode => exact .onto hname hnode
  | through hname hnode _ ih =>
    obtain ⟨more, rfl⟩ := Nat.exists_eq_add_of_le' hle
    exact .through hname hnode (ih (Nat.le_add_left _ _))

theorem directory_of_append (h : tree.node (place ++ rest) = some .directory) :
    tree.node place = some .directory := by
  induction rest using List.reverseRecOn with
  | nil => rwa [List.append_nil] at h
  | append_singleton rest name ih =>
    refine ih (tree.above (place ++ rest) name ?_)
    rw [List.append_assoc, h]
    rfl

theorem directory_dropLast (h : tree.node place = some .directory) :
    tree.node place.dropLast = some .directory := by
  rcases List.eq_nil_or_concat' place with rfl | ⟨front, name, rfl⟩
  · exact h
  · rw [List.dropLast_concat]
    exact directory_of_append h

/-- A walk that goes on comes through a directory. -/
theorem Walks.split (h : tree.Walks links place (front ++ back) there) (hback : back ≠ [])
    (hplace : tree.node place = some .directory) :
    ∃ between, tree.node between = some .directory ∧ tree.Walks links place front between ∧
      tree.Walks links between back there := by
  generalize hparts : front ++ back = parts at h
  induction h generalizing front with
  | here => exact absurd (List.append_eq_nil_iff.mp hparts).2 hback
  | @stay links place rest there part hpart h ih =>
    cases front with
    | nil =>
      obtain rfl : back = part :: rest := hparts
      exact ⟨place, hplace, .here, .stay hpart h⟩
    | cons first front =>
      obtain ⟨rfl, hrest⟩ := List.cons.inj hparts
      obtain ⟨between, hdirectory, hbefore, hafter⟩ := ih hplace hrest
      exact ⟨between, hdirectory, .stay hpart hbefore, hafter⟩
  | @up links place rest there h ih =>
    cases front with
    | nil =>
      obtain rfl : back = ".." :: rest := hparts
      exact ⟨place, hplace, .here, .up h⟩
    | cons first front =>
      obtain ⟨rfl, hrest⟩ := List.cons.inj hparts
      obtain ⟨between, hdirectory, hbefore, hafter⟩ := ih (directory_dropLast hplace) hrest
      exact ⟨between, hdirectory, .up hbefore, hafter⟩
  | @into links place rest there part hname hnode h ih =>
    cases front with
    | nil =>
      obtain rfl : back = part :: rest := hparts
      exact ⟨place, hplace, .here, .into hname hnode h⟩
    | cons first front =>
      obtain ⟨rfl, hrest⟩ := List.cons.inj hparts
      obtain ⟨between, hdirectory, hbefore, hafter⟩ := ih hnode hrest
      exact ⟨between, hdirectory, .into hname hnode hbefore, hafter⟩
  | @onto links place part content hname hnode =>
    cases front with
    | nil =>
      obtain rfl : back = [part] := hparts
      exact ⟨place, hplace, .here, .onto hname hnode⟩
    | cons first front => exact absurd (List.append_eq_nil_iff.mp (List.cons.inj hparts).2).2 hback
  | @through links place rest there part target hname hnode h ih =>
    cases front with
    | nil =>
      obtain rfl : back = part :: rest := hparts
      exact ⟨place, hplace, .here, .through hname hnode h⟩
    | cons first front =>
      obtain ⟨rfl, rfl⟩ := List.cons.inj hparts
      have hbase : tree.node (if target.absolute then [] else place) = some .directory := by
        split
        · exact tree.root
        · exact hplace
      obtain ⟨between, hdirectory, hbefore, hafter⟩ := ih hbase (List.append_assoc ..)
      exact ⟨between, hdirectory, .through hname hnode hbefore, hafter.mono (Nat.le_succ links)⟩

/-- What stands at the end of a walk is a file or a directory. -/
theorem Walks.stands (h : tree.Walks links place parts there)
    (hplace : tree.node place = some .directory) :
    tree.node there = some .directory ∨ ∃ content, tree.node there = some (.file content) := by
  induction h with
  | here => exact .inl hplace
  | stay _ _ ih => exact ih hplace
  | up _ ih => exact ih (directory_dropLast hplace)
  | into _ hnode _ ih => exact ih hnode
  | onto _ hnode => exact .inr ⟨_, hnode⟩
  | through _ _ _ ih =>
    refine ih ?_
    split
    · exact tree.root
    · exact hplace

/-- A name that stands for no link is where a walk ends, or where it goes on from. -/
theorem Walks.entered (h : tree.Walks links place (name :: rest) there) (hname : IsName name)
    (hlink : ∀ target, tree.node (place ++ [name]) ≠ some (.link target)) :
    rest = [] ∧ there = place ++ [name] ∨ tree.Walks links (place ++ [name]) rest there := by
  generalize hparts : name :: rest = parts at h
  cases h with
  | here => cases hparts
  | stay hpart _ =>
    obtain ⟨rfl, -⟩ := List.cons.inj hparts
    exact absurd hpart (not_or.mpr ⟨hname.1, hname.2.1⟩)
  | up _ => exact absurd (List.cons.inj hparts).1 hname.2.2
  | into _ _ h =>
    obtain ⟨rfl, rfl⟩ := List.cons.inj hparts
    exact .inr h
  | onto _ _ =>
    obtain ⟨rfl, hrest⟩ := List.cons.inj hparts
    exact .inl ⟨hrest, rfl⟩
  | through _ htarget _ =>
    obtain ⟨rfl, -⟩ := List.cons.inj hparts
    exact absurd htarget (hlink _)

/-- A walk that comes to a directory first goes on from there. -/
theorem walks_into (hname : IsName name)
    (hnode : tree.node (place ++ [name]) = some .directory) :
    tree.Walks links place (name :: rest) there ↔
      tree.Walks links (place ++ [name]) rest there := by
  constructor
  · intro h
    rcases h.entered hname (by simp [hnode]) with ⟨rfl, rfl⟩ | h
    · exact .here
    · exact h
  · exact .into hname hnode

/-- The names of a directory lead straight down to it. -/
theorem walks_append (hnames : ∀ part ∈ front, IsName part)
    (hdirectory : tree.node (place ++ front) = some .directory) :
    tree.Walks links place (front ++ parts) there ↔
      tree.Walks links (place ++ front) parts there := by
  induction front generalizing place with
  | nil => simp
  | cons name front ih =>
    rw [List.append_cons] at hdirectory ⊢
    have hnode : tree.node (place ++ [name]) = some .directory := directory_of_append hdirectory
    rw [← ih (fun part hpart => hnames part (List.mem_cons_of_mem _ hpart)) hdirectory,
      List.cons_append]
    exact walks_into (hnames name List.mem_cons_self) hnode

/-- A walk that comes to a place goes on to the directories below it. -/
theorem Walks.down (h : tree.Walks links place parts there) (hnames : ∀ part ∈ rest, IsName part)
    (hdirectory : tree.node (there ++ rest) = some .directory) :
    tree.Walks links place (parts ++ rest) (there ++ rest) := by
  induction h with
  | here =>
    rw [List.nil_append, ← List.append_nil rest, walks_append hnames hdirectory, List.append_nil]
    exact .here
  | stay hpart _ ih => exact .stay hpart (ih hdirectory)
  | up _ ih => exact .up (ih hdirectory)
  | into hname hnode _ ih => exact .into hname hnode (ih hdirectory)
  | onto _ hnode =>
    rw [directory_of_append hdirectory] at hnode
    cases hnode
  | through hname hnode _ ih =>
    have hrest := ih hdirectory
    rw [List.append_assoc] at hrest
    exact .through hname hnode hrest

/-! ## Trees that grow -/

/-- What stood somewhere still stands there. -/
def Grows (tree tree' : RootedTree α) : Prop :=
  ∀ place node, tree.node place = some node → tree'.node place = some node

/-- What led somewhere still leads there. -/
theorem Walks.grow {tree' : RootedTree α} (hgrows : tree.Grows tree')
    (h : tree.Walks links place parts there) : tree'.Walks links place parts there := by
  induction h with
  | here => exact .here
  | stay hpart _ ih => exact .stay hpart ih
  | up _ ih => exact .up ih
  | into hname hnode _ ih => exact .into hname (hgrows _ _ hnode) ih
  | onto hname hnode => exact .onto hname (hgrows _ _ hnode)
  | through hname hnode _ ih => exact .through hname (hgrows _ _ hnode) ih

/-- Below nothing there is nothing. -/
theorem node_below (h : tree.node place ≠ some .directory) :
    tree.node (place ++ [name]) = none := by
  cases hnode : tree.node (place ++ [name]) with
  | none => rfl
  | some node =>
    have hsome : (tree.node (place ++ [name])).isSome = true := by rw [hnode]; rfl
    exact absurd (tree.above place name hsome) h

end RootedTree

end Lib
