import Mathlib.Data.Finset.Erase
import MissionCompiler.Lib.Walk

/-!
# Directories that are made and removed

The files around a run, with the filesystem each place is on, and the calls by which directories are
made above a path and removed again. Whatever is made, the tree only grows: what led somewhere still
leads there, and a path whose last names were missing leads straight down.
-/

namespace Lib

/-- `PurePath.parent`. -/
def PathText.parent (path : PathText) : PathText := ⟨path.absolute, path.parts.dropLast⟩

def TreeNode.isDirectory {α : Type} : Option (TreeNode α) → Bool
  | some .directory => true
  | _ => false

theorem TreeNode.isDirectory_iff {α : Type} {node : Option (TreeNode α)} :
    TreeNode.isDirectory node = true ↔ node = some .directory := by
  cases node with
  | none => simp [TreeNode.isDirectory]
  | some node => cases node <;> simp [TreeNode.isDirectory]

instance (part : String) : Decidable (IsName part) :=
  inferInstanceAs (Decidable (_ ∧ _ ∧ _))

namespace RootedTree

variable {α : Type} (tree : RootedTree α) {place : List String} {name : String}

/-- A tree in which there is nothing. -/
def bare : RootedTree α where
  node place := if place = [] then some .directory else none
  entries _ := ∅
  root := if_pos rfl
  above place name h := by simp at h
  mem_entries place name := by simp

/-- A new directory. -/
def make (place : List String) (name : String) (h : tree.node place = some .directory) :
    RootedTree α where
  node := Function.update tree.node (place ++ [name]) (some .directory)
  entries := Function.update tree.entries place (insert name (tree.entries place))
  root := by
    rw [Function.update_of_ne (by simp)]
    exact tree.root
  above := by
    intro front part hpart
    by_cases hfront : front = place ++ [name]
    · rw [hfront, Function.update_self]
    · rw [Function.update_of_ne hfront]
      by_cases hnew : front ++ [part] = place ++ [name]
      · obtain ⟨rfl, -⟩ := List.append_inj' hnew rfl
        exact h
      · rw [Function.update_of_ne hnew] at hpart
        exact tree.above front part hpart
  mem_entries := by
    intro front part
    by_cases hfront : front = place
    · subst hfront
      rw [Function.update_self, Finset.mem_insert]
      by_cases hpart : part = name
      · simp [hpart]
      · rw [Function.update_of_ne (by simpa using hpart), tree.mem_entries]
        simp [hpart]
    · rw [Function.update_of_ne hfront, tree.mem_entries, Function.update_of_ne]
      exact fun hnew => hfront (List.append_inj' hnew rfl).1

/-- What comes of a tree without an empty directory, or without a file. -/
def remove (place : List String) (name : String) (h : tree.entries (place ++ [name]) = ∅) :
    RootedTree α where
  node := Function.update tree.node (place ++ [name]) none
  entries := Function.update tree.entries place ((tree.entries place).erase name)
  root := by
    rw [Function.update_of_ne (by simp)]
    exact tree.root
  above := by
    intro front part hpart
    by_cases hnew : front ++ [part] = place ++ [name]
    · rw [hnew, Function.update_self] at hpart
      cases hpart
    · rw [Function.update_of_ne hnew] at hpart
      have hfront : front ≠ place ++ [name] := by
        rintro rfl
        have hmem := (tree.mem_entries _ _).mpr hpart
        simp [h] at hmem
      rw [Function.update_of_ne hfront]
      exact tree.above front part hpart
  mem_entries := by
    intro front part
    by_cases hfront : front = place
    · subst hfront
      rw [Function.update_self, Finset.mem_erase]
      by_cases hpart : part = name
      · simp [hpart]
      · rw [Function.update_of_ne (by simpa using hpart), tree.mem_entries]
        simp [hpart]
    · rw [Function.update_of_ne hfront, tree.mem_entries, Function.update_of_ne]
      exact fun hnew => hfront (List.append_inj' hnew rfl).1

@[simp] theorem make_node (h : tree.node place = some .directory) :
    (tree.make place name h).node =
      Function.update tree.node (place ++ [name]) (some .directory) := rfl

@[simp] theorem remove_node (h : tree.entries (place ++ [name]) = ∅) :
    (tree.remove place name h).node = Function.update tree.node (place ++ [name]) none := rfl

/-- A tree is what stands in it. -/
theorem eq_of_node {tree tree' : RootedTree α} (h : tree.node = tree'.node) : tree = tree' := by
  have hentries : tree.entries = tree'.entries := by
    funext place
    ext name
    rw [tree.mem_entries, tree'.mem_entries, h]
  cases tree
  cases tree'
  cases h
  cases hentries
  rfl

/-- What is made and removed again has not been there. -/
theorem remove_make (hplace : tree.node place = some .directory)
    (hfree : tree.node (place ++ [name]) = none)
    (hempty : (tree.make place name hplace).entries (place ++ [name]) = ∅) :
    (tree.make place name hplace).remove place name hempty = tree := by
  apply eq_of_node
  rw [remove_node, make_node, Function.update_idem, ← hfree, Function.update_eq_self]

variable {tree}

theorem grows_make (hplace : tree.node place = some .directory)
    (hfree : tree.node (place ++ [name]) = none) : tree.Grows (tree.make place name hplace) := by
  intro front node hnode
  have hfront : front ≠ place ++ [name] := by
    intro he
    rw [he, hfree] at hnode
    cases hnode
  rw [make_node, Function.update_of_ne hfront, hnode]

end RootedTree

/-! ## The calls -/

/-- The files around a run, the filesystem each place is on, the working directory, and how many
links a call follows. -/
structure Machine (α : Type) where
  tree : RootedTree α
  device : List String → Nat
  workingDirectory : List String
  links : Nat

/-- Why no directory is made: `FileNotFoundError`, or another `OSError`. -/
inductive MkdirError where
  | fileNotFound
  | other
deriving DecidableEq

namespace Machine

variable {α : Type} (m : Machine α)

/-- The working directory is still there. -/
structure Settled : Prop where
  names : ∀ part ∈ m.workingDirectory, IsName part
  directory : m.tree.node m.workingDirectory = some .directory

/-- The place that a path leads to. -/
def stat (path : PathText) : Except WalkError (List String) :=
  m.tree.walk m.links (if path.absolute then [] else m.workingDirectory) path.parts

/-- `Path.is_dir()`. -/
def isDir (path : PathText) : Bool :=
  match m.stat path with
  | .ok there => TreeNode.isDirectory (m.tree.node there)
  | .error _ => false

/-- `Path.absolute()`. -/
def absolute (path : PathText) : PathText :=
  ⟨true, (if path.absolute then [] else m.workingDirectory) ++ path.parts⟩

/-- A directory is made, on the filesystem of the one it stands in. -/
def make (place : List String) (name : String) (h : m.tree.node place = some .directory) :
    Machine α :=
  ⟨m.tree.make place name h, Function.update m.device (place ++ [name]) (m.device place),
    m.workingDirectory, m.links⟩

/-- `os.mkdir`. The system may object to a place for reasons of its own. -/
def osMkdir (objects : List String → Bool) (path : PathText) : Option MkdirError × Machine α :=
  match path.parts.getLast? with
  | none => (some .other, m)
  | some name =>
    match m.stat path.parent with
    | .error .missing => (some .fileNotFound, m)
    | .error _ => (some .other, m)
    | .ok place =>
      if h : TreeNode.isDirectory (m.tree.node place) = true then
        if IsName name ∧ (m.tree.node (place ++ [name])).isNone = true ∧
            objects (place ++ [name]) = false then
          (none, m.make place name (TreeNode.isDirectory_iff.mp h))
        else (some .other, m)
      else (some .other, m)

/-- `Path.mkdir(exist_ok=True)`. -/
def mkdirHere (objects : List String → Bool) (path : PathText) : Option MkdirError × Machine α :=
  match m.osMkdir objects path with
  | (some .other, made) => if made.isDir path then (none, made) else (some .other, made)
  | answer => answer

/-- `Path.mkdir(parents=True, exist_ok=True)` of a path of so many names. -/
def mkdirParents (objects : List String → Bool) (m : Machine α) :
    Nat → PathText → Option MkdirError × Machine α
  | 0, path => m.mkdirHere objects path
  | n + 1, path =>
    match m.mkdirHere objects path with
    | (some .fileNotFound, made) =>
      match mkdirParents objects made n path.parent with
      | (none, made) => made.mkdirHere objects path
      | answer => answer
    | answer => answer

/-- `os.rmdir`, with what it raises suppressed. -/
def rmdir (objects : List String → Bool) (path : PathText) : Machine α :=
  match path.parts.getLast? with
  | none => m
  | some name =>
    match m.stat path.parent with
    | .error _ => m
    | .ok place =>
      if h : m.tree.entries (place ++ [name]) = ∅ then
        if IsName name ∧ TreeNode.isDirectory (m.tree.node (place ++ [name])) = true ∧
            objects (place ++ [name]) = false then
          ⟨m.tree.remove place name h, m.device, m.workingDirectory, m.links⟩
        else m
      else m

variable {m} {made made' : Machine α} {path : PathText} {place front names there : List String}
  {name : String} {objects : List String → Bool}

/-! ## What the calls answer -/

theorem stat_eq_ok : m.stat path = .ok there ↔ m.tree.Walks m.links
    (if path.absolute then [] else m.workingDirectory) path.parts there :=
  RootedTree.walk_eq_ok_iff

theorem isDir_iff : m.isDir path = true ↔
    ∃ there, m.stat path = .ok there ∧ m.tree.node there = some .directory := by
  rw [isDir]
  cases m.stat path with
  | error err => simp
  | ok there => simp [TreeNode.isDirectory_iff]

/-- A path leads where it leads from the root. -/
theorem stat_absolute (hsettled : m.Settled) :
    m.stat (m.absolute path) = .ok there ↔ m.stat path = .ok there := by
  rw [stat_eq_ok, stat_eq_ok, absolute]
  cases hpath : path.absolute with
  | true => simp
  | false =>
    have hdirectory : m.tree.node ([] ++ m.workingDirectory) = some .directory := hsettled.directory
    have hwalks := @RootedTree.walks_append _ m.tree m.links [] path.parts _ there hsettled.names
      hdirectory
    simpa using hwalks

theorem isDir_absolute (hsettled : m.Settled) : m.isDir (m.absolute path) = m.isDir path := by
  rw [Bool.eq_iff_iff, isDir_iff, isDir_iff]
  simp only [stat_absolute hsettled]

theorem start_directory (hsettled : m.Settled) :
    m.tree.node (if path.absolute then [] else m.workingDirectory) = some .directory := by
  split
  · exact m.tree.root
  · exact hsettled.directory

/-- What is above a place that a path leads to is a directory. -/
theorem stat_parent (hsettled : m.Settled) (hparts : path.parts = front ++ [name])
    (h : m.stat path = .ok there) : ∃ place, m.stat path.parent = .ok place ∧
      m.tree.node place = some .directory ∧ m.tree.Walks m.links place [name] there := by
  rw [stat_eq_ok, hparts] at h
  obtain ⟨place, hdirectory, hbefore, hafter⟩ :=
    h.split (List.cons_ne_nil _ _) (start_directory hsettled)
  refine ⟨place, ?_, hdirectory, hafter⟩
  rw [stat_eq_ok, PathText.parent, hparts, List.dropLast_concat]
  exact hbefore

/-- A directory is made where a directory is, under a name that nothing has. -/
theorem osMkdir_made (h : m.osMkdir objects path = (none, made)) :
    ∃ front name place, ∃ hdirectory : m.tree.node place = some .directory,
      path.parts = front ++ [name] ∧ IsName name ∧ m.stat path.parent = .ok place ∧
        m.tree.node (place ++ [name]) = none ∧ made = m.make place name hdirectory := by
  rw [osMkdir] at h
  split at h
  · cases h
  · next name hlast =>
    have hparts : path.parts = path.parts.dropLast ++ [name] :=
      (List.dropLast_append_getLast? name hlast).symm
    split at h
    · cases h
    · cases h
    · next place hplace =>
      split at h
      · next hdirectory =>
        split at h
        · next hfree =>
          obtain ⟨hname, hfree, -⟩ := hfree
          exact ⟨_, name, place, TreeNode.isDirectory_iff.mp hdirectory, hparts, hname, hplace,
            Option.isNone_iff_eq_none.mp hfree, (Prod.mk.inj h).2.symm⟩
        · cases h
      · cases h

/-- A call that makes nothing changes nothing. -/
theorem osMkdir_refused {error : MkdirError} (h : m.osMkdir objects path = (some error, made)) :
    made = m := by
  rw [osMkdir] at h
  grind

/-- Only a path whose parent leads nowhere is said not to be found. -/
theorem osMkdir_fileNotFound (h : m.osMkdir objects path = (some .fileNotFound, made)) :
    m.stat path.parent = .error .missing ∧ ∃ front name, path.parts = front ++ [name] := by
  rw [osMkdir] at h
  split at h
  · cases h
  · next name hlast =>
    refine ⟨?_, path.parts.dropLast, name, (List.dropLast_append_getLast? name hlast).symm⟩
    split at h
    · next hmissing => exact hmissing
    · cases h
    · grind

theorem mkdirHere_made (h : m.mkdirHere objects path = (none, made)) :
    m.osMkdir objects path = (none, made) ∨ made = m ∧ m.isDir path = true := by
  rw [mkdirHere] at h
  split at h
  · next other hother =>
    obtain rfl := osMkdir_refused hother
    split at h
    · next hdir => exact .inr ⟨(Prod.mk.inj h).2.symm, hdir⟩
    · cases h
  · exact .inl h

theorem mkdirHere_fileNotFound (h : m.mkdirHere objects path = (some .fileNotFound, made)) :
    m.osMkdir objects path = (some .fileNotFound, made) := by
  rw [mkdirHere] at h
  split at h
  · split at h <;> cases h
  · exact h

/-- A directory that is there is left as it is. -/
theorem mkdirHere_of_isDir (hsettled : m.Settled) (hdir : m.isDir path = true) :
    m.mkdirHere objects path = (none, m) := by
  obtain ⟨there, hthere, hdirectory⟩ := isDir_iff.mp hdir
  cases hcall : m.osMkdir objects path with
  | mk answer made =>
    cases answer with
    | none =>
      obtain ⟨front, name, place, -, hparts, hname, hplace, hfree, -⟩ := osMkdir_made hcall
      obtain ⟨place', hplace', -, hwalks⟩ := stat_parent hsettled hparts hthere
      obtain rfl := Except.ok.inj (hplace.symm.trans hplace')
      exact absurd hwalks (RootedTree.not_walks hname hfree)
    | some error =>
      obtain rfl := osMkdir_refused hcall
      cases error with
      | fileNotFound =>
        obtain ⟨hmissing, front, name, hparts⟩ := osMkdir_fileNotFound hcall
        obtain ⟨place, hplace, -⟩ := stat_parent hsettled hparts hthere
        rw [hmissing] at hplace
        cases hplace
      | other => simp [mkdirHere, hcall, hdir]

theorem mkdirParents_of_isDir (hsettled : m.Settled) (hdir : m.isDir path = true) (n : Nat) :
    m.mkdirParents objects n path = (none, m) := by
  cases n with
  | zero => exact mkdirHere_of_isDir hsettled hdir
  | succ n => rw [mkdirParents, mkdirHere_of_isDir hsettled hdir]

/-- An empty directory is removed. -/
theorem rmdir_of_empty (hparts : path.parts = front ++ [name])
    (hplace : m.stat path.parent = .ok place) (hname : IsName name)
    (hnode : m.tree.node (place ++ [name]) = some .directory)
    (hempty : m.tree.entries (place ++ [name]) = ∅) (hobjects : objects (place ++ [name]) = false) :
    m.rmdir objects path =
      ⟨m.tree.remove place name hempty, m.device, m.workingDirectory, m.links⟩ := by
  have hlast : path.parts.getLast? = some name := by simp [hparts]
  unfold rmdir
  simp only [hlast, hplace, hempty, dite_true]
  rw [if_pos ⟨hname, TreeNode.isDirectory_iff.mpr hnode, hobjects⟩]

/-- Nothing but a directory is removed. -/
theorem rmdir_keeps {node : TreeNode α} (hnode : m.tree.node there = some node)
    (hother : node ≠ .directory) : (m.rmdir objects path).tree.node there = some node := by
  unfold rmdir
  split
  · exact hnode
  · next name hlast =>
    split
    · exact hnode
    · next place hplace =>
      split
      · next hempty =>
        split
        · next hremoved =>
          have hthere : there ≠ place ++ [name] := by
            rintro rfl
            rw [TreeNode.isDirectory_iff, hnode] at hremoved
            exact hother (Option.some.inj hremoved.2.1)
          rw [RootedTree.remove_node, Function.update_of_ne hthere]
          exact hnode
        · exact hnode
      · exact hnode

/-! ## What is made -/

/-- Directories made one below the other, under names that nothing had. -/
inductive Made (m : Machine α) (place : List String) : List String → Machine α → Prop
  | nothing : Made m place [] m
  | further {names : List String} {made : Machine α} {name : String} (h : Made m place names made)
      (hname : IsName name) (hdirectory : made.tree.node (place ++ names) = some .directory)
      (hfree : made.tree.node (place ++ names ++ [name]) = none) :
      Made m place (names ++ [name]) (made.make (place ++ names) name hdirectory)

theorem Made.grows (h : Made m place names made) : m.tree.Grows made.tree := by
  induction h with
  | nothing => exact fun _ _ hnode => hnode
  | further h hname hdirectory hfree ih =>
    exact fun front node hnode => RootedTree.grows_make hdirectory hfree _ _ (ih _ _ hnode)

theorem Made.unmoved (h : Made m place names made) :
    made.workingDirectory = m.workingDirectory ∧ made.links = m.links := by
  induction h with
  | nothing => exact ⟨rfl, rfl⟩
  | further h hname hdirectory hfree ih => exact ih

theorem Made.settled (h : Made m place names made) (hsettled : m.Settled) : made.Settled where
  names := by
    rw [h.unmoved.1]
    exact hsettled.names
  directory := by
    rw [h.unmoved.1]
    exact h.grows _ _ hsettled.directory

theorem Made.isName (h : Made m place names made) : ∀ part ∈ names, IsName part := by
  induction h with
  | nothing => simp
  | further h hname hdirectory hfree ih => simpa [or_imp, forall_and] using ⟨ih, hname⟩

theorem Made.directory (h : Made m place names made)
    (hplace : m.tree.node place = some .directory) :
    made.tree.node (place ++ names) = some .directory := by
  cases h with
  | nothing => rwa [List.append_nil]
  | further h hname hdirectory hfree =>
    rw [← List.append_assoc]
    exact Function.update_self ..

/-- What is made is on the filesystem it is made on. -/
theorem Made.device (h : Made m place names made) :
    made.device (place ++ names) = m.device place := by
  induction h with
  | nothing => rw [List.append_nil]
  | further h hname hdirectory hfree ih =>
    rw [← List.append_assoc, ← ih]
    exact Function.update_self ..

theorem Made.device_kept (h : Made m place names made) {front : List String} {node : TreeNode α}
    (hnode : m.tree.node front = some node) : made.device front = m.device front := by
  induction h with
  | nothing => rfl
  | @further names made name h hname hdirectory hfree ih =>
    have hfront : front ≠ place ++ names ++ [name] := by
      intro he
      have hkept := h.grows _ _ hnode
      rw [he, hfree] at hkept
      cases hkept
    rw [← ih]
    exact Function.update_of_ne hfront ..

theorem Made.longer (h : Made m place names made) {below : List String}
    (hbelow : place.length + names.length < below.length) :
    made.tree.node below = m.tree.node below := by
  induction h with
  | nothing => rfl
  | @further names made name h hname hdirectory hfree ih =>
    simp only [List.length_append, List.length_singleton] at hbelow
    have hne : below ≠ place ++ names ++ [name] := by
      intro he
      simp only [he, List.length_append, List.length_singleton] at hbelow
      omega
    rw [← ih (by omega)]
    exact Function.update_of_ne hne ..

/-- What is made has not been there. -/
theorem Made.free (h : Made m place names made) (hnames : names ≠ []) :
    m.tree.node (place ++ names) = none := by
  cases h with
  | nothing => exact absurd rfl hnames
  | further h hname hdirectory hfree =>
    rw [← List.append_assoc, ← h.longer (by simp)]
    exact hfree

theorem Made.single (hname : IsName name) (hdirectory : m.tree.node place = some .directory)
    (hfree : m.tree.node (place ++ [name]) = none) :
    Made m place [name] (m.make place name hdirectory) := by
  have hnothing : Made m place [] m := .nothing
  have h := hnothing.further hname (by simpa using hdirectory) (by simpa using hfree)
  simpa using h

/-- A path that came to a place goes on to what was made below it. -/
theorem Made.stat_below (h : Made m place names made) (hplace : m.tree.node place = some .directory)
    (hstat : m.stat ⟨true, front⟩ = .ok place) :
    made.stat ⟨true, front ++ names⟩ = .ok (place ++ names) := by
  rw [stat_eq_ok] at hstat ⊢
  rw [h.unmoved.2]
  exact (hstat.grow h.grows).down h.isName (h.directory hplace)

theorem Made.eq_of_nil (h : Made m place [] made) : made = m := by
  generalize hnames : ([] : List String) = names at h
  cases h with
  | nothing => rfl
  | further => simp at hnames

theorem Made.last (h : Made m place (names ++ [name]) made) :
    ∃ before, ∃ hdirectory : before.tree.node (place ++ names) = some .directory,
      Made m place names before ∧ IsName name ∧
        before.tree.node (place ++ names ++ [name]) = none ∧
          made = before.make (place ++ names) name hdirectory := by
  generalize hnames : names ++ [name] = all at h
  cases h with
  | nothing => simp at hnames
  | further h hname hdirectory hfree =>
    obtain ⟨rfl, hlast⟩ := List.append_inj' hnames rfl
    obtain rfl := List.singleton_inj.mp hlast
    exact ⟨_, hdirectory, h, hname, hfree, rfl⟩

/-- The directory that was made last is removed when it is empty, and then it has not been there. -/
theorem Made.rmdir (h : Made m place names made) (hplace : m.tree.node place = some .directory)
    (hstat : m.stat ⟨true, front⟩ = .ok place) (hname : IsName name)
    (hdirectory : made.tree.node (place ++ names) = some .directory)
    (hfree : made.tree.node (place ++ names ++ [name]) = none) {now : Machine α}
    (htree : now.tree = (made.make (place ++ names) name hdirectory).tree)
    (hlinks : now.links = made.links) (hobjects : ∀ path, objects path = false) :
    (now.rmdir objects ⟨true, front ++ (names ++ [name])⟩).tree = made.tree ∧
      (now.rmdir objects ⟨true, front ++ (names ++ [name])⟩).links = made.links := by
  have hafter : Made m place (names ++ [name]) (made.make (place ++ names) name hdirectory) :=
    h.further hname hdirectory hfree
  have hbelow : now.stat ⟨true, front ++ names⟩ = .ok (place ++ names) := by
    have hbelow := h.stat_below hplace hstat
    rw [stat_eq_ok] at hbelow ⊢
    rw [htree, hlinks]
    exact hbelow.grow (RootedTree.grows_make hdirectory hfree)
  have hempty : (made.tree.make (place ++ names) name hdirectory).entries
      (place ++ names ++ [name]) = ∅ := by
    ext part
    have hne : place ++ names ++ [name] ++ [part] ≠ place ++ names ++ [name] := by simp
    rw [RootedTree.mem_entries, RootedTree.make_node, Function.update_of_ne hne,
      RootedTree.node_below (by rw [hfree]; simp)]
    simp
  have hnode : now.tree.node (place ++ names ++ [name]) = some .directory := by
    rw [htree]
    exact Function.update_self ..
  obtain ⟨_, device, workingDirectory, links⟩ := now
  obtain rfl := htree
  have hparts : (⟨true, front ++ (names ++ [name])⟩ : PathText).parts = front ++ names ++ [name] :=
    (List.append_assoc ..).symm
  have hparent : (⟨true, front ++ (names ++ [name])⟩ : PathText).parent =
      ⟨true, front ++ names⟩ := by
    rw [PathText.parent, hparts, List.dropLast_concat]
  rw [← hparent] at hbelow
  rw [rmdir_of_empty hparts hbelow hname hnode hempty (hobjects _)]
  exact ⟨RootedTree.remove_make _ hdirectory hfree hempty, hlinks⟩

/-! ## Up to where a path is there -/

/-- The longest front of a path that leads to a directory, and the names after it. -/
structure Anchored (m : Machine α) (path : PathText) (front names : List String) : Prop where
  parts : (m.absolute path).parts = front ++ names
  directory : m.isDir ⟨true, front⟩ = true
  missing : ∀ before, before ≠ [] → before <+: names → m.isDir ⟨true, front ++ before⟩ = false

theorem Anchored.absolute_eq (h : m.Anchored path front names) :
    m.absolute path = ⟨true, front ++ names⟩ := by
  rw [← h.parts]
  rfl

/-- There is one longest front. -/
theorem Anchored.front_le {front' names' : List String} (h : m.Anchored path front names)
    (h' : m.Anchored path front' names') : front.length ≤ front'.length := by
  by_contra hlonger
  have hparts := h.parts.symm.trans h'.parts
  rcases List.append_eq_append_iff.mp hparts with
    ⟨before, hfront, -⟩ | ⟨before, hfront, hnames⟩
  · rw [hfront, List.length_append] at hlonger
    omega
  · have hbefore : before ≠ [] := by
      rintro rfl
      rw [hfront, List.append_nil] at hlonger
      omega
    have hmissing := h'.missing before hbefore (hnames ▸ List.prefix_append _ _)
    rw [← hfront, h.directory] at hmissing
    cases hmissing

theorem Anchored.unique {front' names' : List String} (h : m.Anchored path front names)
    (h' : m.Anchored path front' names') : front = front' ∧ names = names' :=
  List.append_inj (h.parts.symm.trans h'.parts) (Nat.le_antisymm (h.front_le h') (h'.front_le h))

theorem Anchored.isDir_iff (hsettled : m.Settled) (h : m.Anchored path front names) :
    m.isDir path = true ↔ names = [] := by
  rw [← isDir_absolute hsettled, h.absolute_eq]
  constructor
  · intro hdir
    by_contra hnames
    rw [h.missing names hnames List.prefix_rfl] at hdir
    cases hdir
  · rintro rfl
    rw [List.append_nil]
    exact h.directory

/-- What is missing of a path is written in it: the working directory is there. -/
theorem Anchored.parent (hsettled : m.Settled) (h : m.Anchored path front (names ++ [name])) :
    (∃ before, path.parts = before ++ [name]) ∧ m.Anchored path.parent front names := by
  have hnotDir : ¬ m.isDir path = true := by
    rw [h.isDir_iff hsettled]
    simp
  have hparts := h.parts
  rcases List.eq_nil_or_concat' path.parts with hnil | ⟨before, last, hlast⟩
  · have hstart : m.stat path = .ok (if path.absolute then [] else m.workingDirectory) := by
      rw [stat_eq_ok, hnil]
      exact .here
    exact absurd (Machine.isDir_iff.mpr ⟨_, hstart, start_directory hsettled⟩) hnotDir
  · simp only [absolute, hlast, ← List.append_assoc] at hparts
    obtain ⟨hbefore, hname⟩ := List.append_inj' hparts rfl
    obtain rfl := List.singleton_inj.mp hname
    refine ⟨⟨before, hlast⟩, ?_, h.directory, fun part hpart hbefore =>
      h.missing part hpart (hbefore.trans (List.prefix_append ..))⟩
    rw [absolute, PathText.parent, hlast, List.dropLast_concat]
    exact hbefore

theorem exists_longest {p : List String → Prop} [DecidablePred p] (hnil : p [])
    (parts : List String) : ∃ front names, parts = front ++ names ∧ p front ∧
      ∀ before, before ≠ [] → before <+: names → ¬ p (front ++ before) := by
  have hnone : ∀ front before : List String, before ≠ [] → before <+: [] → ¬ p (front ++ before) :=
    fun _ before hbefore hle => absurd (List.prefix_nil.mp hle) hbefore
  induction parts using List.reverseRecOn with
  | nil => exact ⟨[], [], rfl, hnil, hnone []⟩
  | append_singleton parts last ih =>
    by_cases hlast : p (parts ++ [last])
    · exact ⟨parts ++ [last], [], (List.append_nil _).symm, hlast, hnone _⟩
    · obtain ⟨front, names, rfl, hfront, hmissing⟩ := ih
      refine ⟨front, names ++ [last], List.append_assoc .., hfront, fun before hbefore hle => ?_⟩
      rcases List.prefix_concat_iff.mp hle with rfl | hle
      · rwa [← List.append_assoc]
      · exact hmissing before hbefore hle

theorem exists_anchored (m : Machine α) (path : PathText) :
    ∃ front names, m.Anchored path front names := by
  have hroot : m.isDir ⟨true, []⟩ = true :=
    isDir_iff.mpr ⟨[], stat_eq_ok.mpr .here, m.tree.root⟩
  obtain ⟨front, names, hparts, hfront, hmissing⟩ :=
    exists_longest (p := fun parts => m.isDir ⟨true, parts⟩ = true) hroot (m.absolute path).parts
  exact ⟨front, names, hparts, hfront, fun before hbefore hle =>
    Bool.not_eq_true _ ▸ hmissing before hbefore hle⟩

/-! ## Directories above a path -/

theorem mkdirParents_cases {n : Nat} (h : m.mkdirParents objects n path = (none, made)) :
    m.mkdirHere objects path = (none, made) ∨ ∃ n' between,
      m.osMkdir objects path = (some .fileNotFound, m) ∧
        m.mkdirParents objects n' path.parent = (none, between) ∧
          between.mkdirHere objects path = (none, made) := by
  cases n with
  | zero => exact .inl h
  | succ n =>
    rw [mkdirParents] at h
    split at h
    · next same hnotFound =>
      have hcall := mkdirHere_fileNotFound hnotFound
      obtain rfl := osMkdir_refused hcall
      split at h
      · next between hparent => exact .inr ⟨n, between, hcall, hparent, h⟩
      · next hanswer => exact absurd h (hanswer made)
    · exact .inl h

/-- Where the names that are missing are names, what is made is a directory for each of them. -/
theorem mkdirParents_made {n : Nat} (hsettled : m.Settled) (hanchored : m.Anchored path front names)
    (hnames : ∀ part ∈ names, IsName part)
    (h : m.mkdirParents objects n path = (none, made)) :
    ∃ place, m.stat ⟨true, front⟩ = .ok place ∧ m.tree.node place = some .directory ∧
      Made m place names made := by
  obtain ⟨place, hplace, hdirectory⟩ := isDir_iff.mp hanchored.directory
  refine ⟨place, hplace, hdirectory, ?_⟩
  induction names using List.reverseRecOn generalizing path n made with
  | nil =>
    rw [mkdirParents_of_isDir hsettled ((hanchored.isDir_iff hsettled).mpr rfl)] at h
    obtain rfl := (Prod.mk.inj h).2
    exact .nothing
  | append_singleton names name ih =>
    have hnotDir : ¬ m.isDir path = true := by
      rw [hanchored.isDir_iff hsettled]
      simp
    obtain ⟨⟨before, hbefore⟩, hparent⟩ := hanchored.parent hsettled
    have hname : IsName name := hnames name (by simp)
    have hnames' : ∀ part ∈ names, IsName part := fun part hpart => hnames part (by simp [hpart])
    rcases mkdirParents_cases h with hhere | ⟨n', between, hnotFound, hup, hhere⟩
    · rcases mkdirHere_made hhere with hcall | ⟨-, hdir⟩
      · obtain ⟨_, last, there, hthereDir, hlast, -, hthere, hfree, rfl⟩ := osMkdir_made hcall
        obtain ⟨-, hlast⟩ := List.append_inj' (hbefore.symm.trans hlast) rfl
        obtain rfl := List.singleton_inj.mp hlast
        -- Its parent is there, so this is the only name that is missing.
        obtain rfl : names = [] :=
          (hparent.isDir_iff hsettled).mp (isDir_iff.mpr ⟨there, hthere, hthereDir⟩)
        have habsolute := hparent.absolute_eq
        rw [List.append_nil] at habsolute
        rw [← habsolute, stat_absolute hsettled, hthere] at hplace
        obtain rfl := Except.ok.inj hplace
        exact .single hname hthereDir hfree
      · exact absurd hdir hnotDir
    · have hbetween := ih hparent hnames' hup
      have hsettled' := hbetween.settled hsettled
      have hstat : between.stat path.parent = .ok (place ++ names) := by
        rw [← stat_absolute hsettled', absolute, hbetween.unmoved.1]
        have hbelow := hbetween.stat_below hdirectory hplace
        rwa [← hparent.absolute_eq] at hbelow
      rcases mkdirHere_made hhere with hcall | ⟨rfl, hdir⟩
      · obtain ⟨_, last, there, hthereDir, hlast, -, hthere, hfree, rfl⟩ := osMkdir_made hcall
        obtain ⟨-, hlast⟩ := List.append_inj' (hbefore.symm.trans hlast) rfl
        obtain rfl := List.singleton_inj.mp hlast
        obtain rfl := Except.ok.inj (hthere.symm.trans hstat)
        exact .further hbetween hname hthereDir hfree
      · -- What was missing below a missing name is still missing.
        obtain ⟨there, hthere, -⟩ := isDir_iff.mp hdir
        obtain ⟨place', hplace', -, hwalks⟩ := stat_parent hsettled' hbefore hthere
        obtain rfl := Except.ok.inj (hplace'.symm.trans hstat)
        have hnil : names ≠ [] := by
          intro hnil
          obtain ⟨hmissing, -⟩ := osMkdir_fileNotFound hnotFound
          obtain ⟨_, hfound, -⟩ := isDir_iff.mp ((hparent.isDir_iff hsettled).mpr hnil)
          rw [hmissing] at hfound
          cases hfound
        have hfree : made.tree.node (place ++ names ++ [name]) = none := by
          rw [hbetween.longer (by simp)]
          exact RootedTree.node_below (by simp [hbetween.free hnil])
        exact absurd hwalks (RootedTree.not_walks hname hfree)

end Machine

end Lib
