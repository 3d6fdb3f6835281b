import MissionCompiler.Cli.Input
import MissionCompiler.Lib.Links

/-!
# The files a tool may read

`_plan_root`, `_validate_plan_path` and `_validate_bundle_path`: what a caller of the server names
is a file of the plan directory, and no link leads a tool out of it.
-/

namespace MissionCompiler.Mcp

open Lib Cli

/-- What is fixed about paths when the server starts: `_REPO_ROOT` and `_ALLOWED_BUNDLES`, both
resolved, and how many names are followed before a path counts as a circle. -/
structure Installation where
  repoRoot : List String
  allowedBundles : List String
  fuel : Nat

/-- The files around the server, and the variable `ORBITAL_MCP_PLAN_ROOT`. A file gives its bytes,
or the `OSError` of reading it. -/
structure Files where
  tree : FileTree Input
  workingDirectory : List String
  planRootVariable : Option String

/-- A `ValueError` with its text, or what comes of links that lead in a circle: a `RuntimeError`
before Python 3.13, and a `ValueError` since. -/
inductive PathError where
  | valueError (message : String)
  | symlinkLoop

variable (installation : Installation) (files : Files)

/-- `Path.resolve()`. -/
def resolvePath (place : List String) : Except PathError (List String) :=
  match files.tree.follow installation.fuel [] place with
  | some there => .ok there
  | none => .error .symlinkLoop

/-- `_plan_root`. An empty variable is an unset one. -/
def planRoot : Except PathError (List String) :=
  match files.planRootVariable with
  | some configured =>
    if configured != "" then
      let path := pathOf configured
      resolvePath installation files
        ((if path.absolute then [] else files.workingDirectory) ++ path.parts)
    else resolvePath installation files (installation.repoRoot ++ ["configs", "mission_plans"])
  | none => resolvePath installation files (installation.repoRoot ++ ["configs", "mission_plans"])

def outside {α : Type} (path : String) : Except PathError α :=
  .error (.valueError ("Path outside allowed directory: " ++ path))

/-- `stat()`, which follows links. -/
def stat (place : List String) : Option (TreeNode Input) :=
  (files.tree.follow installation.fuel [] place).bind files.tree

/-- `resolved.exists()` and `resolved.is_file()`. -/
def requireFile (path : String) (resolved : List String) : Except PathError (List String) :=
  match stat installation files resolved with
  | none => .error (.valueError ("Plan file not found: " ++ path))
  | some (.file _) => .ok resolved
  | some _ => .error (.valueError ("Plan path is not a file: " ++ path))

/-- `_validate_plan_path`. -/
def validatePlanPath (path : String) : Except PathError (List String) := do
  let candidate := pathOf path
  if candidate.absolute || candidate.parts.contains ".." then outside path
  else if candidate ≠ pathOf candidate.name then outside path
  else
    let root ← planRoot installation files
    let resolved ← resolvePath installation files (root ++ [candidate.name])
    if ¬ root <+: resolved then outside path
    else requireFile installation files path resolved

/-- `_validate_bundle_path`. -/
def validateBundlePath (bundle : String) : Except PathError (List String) := do
  let candidate := pathOf bundle
  let resolved ← resolvePath installation files
    ((if candidate.absolute then [] else installation.repoRoot) ++ candidate.parts)
  if ¬ installation.allowedBundles <+: resolved then
    .error (.valueError ("Bundle path outside allowed directory: " ++ bundle))
  else return resolved

/-! ## Confinement -/

/-- A file that a path names for a tool: the path is one name at most, and where it leads from the
plan directory is a file below that directory. -/
structure PlanFile (path : String) (resolved : List String) : Prop where
  bare : pathOf path = pathOf (pathOf path).name
  plain : (pathOf path).name ≠ ".."
  below : ∃ root, planRoot installation files = .ok root ∧ root <+: resolved ∧
    resolvePath installation files (root ++ [(pathOf path).name]) = .ok resolved
  file : ∃ input, files.tree resolved = some (.file input)

variable {installation files} {path name : String} {place resolved root : List String}

theorem follow_of_resolvePath (h : resolvePath installation files place = .ok resolved) :
    files.tree.follow installation.fuel [] place = some resolved := by
  rw [resolvePath] at h
  split at h
  · next there hthere => rw [hthere, Except.ok.inj h]
  · cases h

theorem physical_of_resolvePath (h : resolvePath installation files place = .ok resolved) :
    files.tree.Physical resolved ∧ resolved.length ≤ installation.fuel := by
  have hfollow := follow_of_resolvePath h
  have hlength := FileTree.length_of_follow hfollow
  rw [List.length_nil, Nat.zero_add] at hlength
  exact ⟨FileTree.physical_of_follow FileTree.physical_nil hfollow, hlength⟩

theorem physical_planRoot (h : planRoot installation files = .ok root) :
    files.tree.Physical root := by
  rw [planRoot] at h
  split at h
  · split at h
    · exact (physical_of_resolvePath h).1
    · exact (physical_of_resolvePath h).1
  · exact (physical_of_resolvePath h).1

/-- A resolved path is not followed anywhere else. -/
theorem stat_of_resolvePath (h : resolvePath installation files place = .ok resolved) :
    stat installation files resolved = files.tree resolved := by
  obtain ⟨hphysical, hlength⟩ := physical_of_resolvePath h
  have hfollow := @FileTree.follow_of_physical _ files.tree [] resolved _ hphysical hlength
  rw [stat, hfollow]
  rfl

theorem requireFile_eq_ok (h : resolvePath installation files place = .ok resolved)
    {there : List String} : requireFile installation files path resolved = .ok there ↔
      there = resolved ∧ ∃ input, files.tree resolved = some (.file input) := by
  rw [requireFile, stat_of_resolvePath h]
  cases files.tree resolved with
  | none => simp
  | some node => cases node <;> simp [eq_comm]

/-- A path of one name at most has no other parts. -/
theorem parts_of_bare (h : pathOf path = pathOf (pathOf path).name) :
    (pathOf path).absolute = false ∧
      ((pathOf path).parts = [] ∨ (pathOf path).parts = [(pathOf path).name]) := by
  cases hlast : (pathOf path).parts.getLast? with
  | none =>
    have hnil := List.getLast?_eq_none_iff.mp hlast
    have hname : (pathOf path).name = "" := by rw [PathText.name, hlast]; rfl
    rw [hname] at h
    rw [h]
    exact ⟨by decide, .inl (by decide)⟩
  | some name =>
    have hname : (pathOf path).name = name := by rw [PathText.name, hlast]; rfl
    have hpart := pathOf_part (List.mem_of_getLast? hlast)
    rw [hname] at h ⊢
    rw [h, hpart]
    exact ⟨rfl, .inr rfl⟩

theorem validatePlanPath_iff : validatePlanPath installation files path = .ok resolved ↔
    PlanFile installation files path resolved := by
  constructor
  · intro h
    rw [validatePlanPath] at h
    split at h
    · cases h
    · next hinside =>
      split at h
      · cases h
      · next hbare =>
        obtain ⟨root, hroot, h⟩ := bind_eq_ok.mp h
        obtain ⟨there, hthere, h⟩ := bind_eq_ok.mp h
        split at h
        · cases h
        · next hbelow =>
          obtain ⟨rfl, hfile⟩ := (requireFile_eq_ok hthere).mp h
          have hbare := not_not.mp hbare
          refine ⟨hbare, fun hup => hinside ?_, ⟨root, hroot, not_not.mp hbelow, hthere⟩, hfile⟩
          rw [Bool.or_eq_true, List.contains_iff_mem]
          rcases (parts_of_bare hbare).2 with hparts | hparts
          · rw [PathText.name, hparts] at hup
            exact absurd hup (by decide)
          · exact .inr (by simp [hparts, hup])
  · rintro ⟨hbare, hplain, ⟨root, hroot, hbelow, hthere⟩, hfile⟩
    obtain ⟨habsolute, hparts⟩ := parts_of_bare hbare
    have hup : ".." ∉ (pathOf path).parts := by
      rcases hparts with hparts | hparts
      · simp [hparts]
      · simpa [hparts] using hplain.symm
    have hinside : ¬ ((pathOf path).absolute || (pathOf path).parts.contains "..") = true := by
      simp [habsolute, hup]
    rw [validatePlanPath, if_neg hinside, if_neg (not_not.mpr hbare)]
    refine bind_eq_ok.mpr ⟨root, hroot, bind_eq_ok.mpr ⟨resolved, hthere, ?_⟩⟩
    rw [if_neg (not_not.mpr hbelow)]
    exact (requireFile_eq_ok hthere).mpr ⟨rfl, hfile⟩

/-- What a tool reads of a path it was named is a file below the plan directory: the place it was
led to is reached through no link, so as long as nothing on the way to it is exchanged, what is read
there later is that file. -/
theorem PlanFile.confined (h : PlanFile installation files path resolved) :
    files.tree.Physical resolved ∧ ∃ input, files.tree resolved = some (.file input) ∧
      ∀ later : FileTree Input, (∀ front, front <+: resolved → later front = files.tree front) →
        later.open? installation.fuel resolved = some input := by
  obtain ⟨-, -, ⟨root, -, -, hthere⟩, ⟨input, hinput⟩⟩ := h
  obtain ⟨hphysical, hlength⟩ := physical_of_resolvePath hthere
  exact ⟨hphysical, input, hinput, fun later hsame =>
    FileTree.open_of_physical hphysical hsame hinput hlength⟩

/-- The files of the plan directory can be named. -/
theorem planFile_of_name {input : Input} (hroot : planRoot installation files = .ok root)
    (hname : pathOf path = ⟨false, [name]⟩) (hplain : name ≠ "..")
    (hfile : files.tree (root ++ [name]) = some (.file input))
    (hlength : root.length < installation.fuel) :
    PlanFile installation files path (root ++ [name]) := by
  have hpart : name ∈ (pathOf path).parts := by simp [hname]
  have hlast : (pathOf path).name = name := by rw [hname]; rfl
  have hkept : name ≠ "" ∧ name ≠ "." := by simpa using (List.mem_filter.mp hpart).2
  have hphysical : files.tree.Physical (root ++ [name]) := by
    refine FileTree.physical_append.mpr ⟨physical_planRoot hroot, hkept.1, hkept.2, hplain, ?_⟩
    intro target hlink
    rw [hfile] at hlink
    cases hlink
  have hsteps : (root ++ [name]).length ≤ installation.fuel := by
    rw [List.length_append, List.length_singleton]
    omega
  have hfollow := @FileTree.follow_of_physical _ files.tree [] (root ++ [name]) _ hphysical hsteps
  refine ⟨?_, ?_, ⟨root, hroot, List.prefix_append .., ?_⟩, ⟨input, hfile⟩⟩
  · rw [hlast, pathOf_part hpart, hname]
  · rw [hlast]
    exact hplain
  · rw [hlast, resolvePath, hfollow]
    rfl

/-- What the two validators keep a tool to. -/
structure Confines (installation : Installation) (files : Files) : Prop where
  named : ∀ path resolved, validatePlanPath installation files path = .ok resolved ↔
    PlanFile installation files path resolved
  confined : ∀ path resolved, PlanFile installation files path resolved →
    files.tree.Physical resolved ∧ ∃ input, files.tree resolved = some (.file input) ∧
      ∀ later : FileTree Input, (∀ front, front <+: resolved → later front = files.tree front) →
        later.open? installation.fuel resolved = some input
  offered : ∀ root path name input, planRoot installation files = .ok root →
    pathOf path = ⟨false, [name]⟩ → name ≠ ".." →
      files.tree (root ++ [name]) = some (.file input) → root.length < installation.fuel →
        PlanFile installation files path (root ++ [name])
  bundles : ∀ bundle resolved, validateBundlePath installation files bundle = .ok resolved →
    installation.allowedBundles <+: resolved ∧ files.tree.Physical resolved

/-- Whatever path a caller names and whatever links there are, a plan that is read is a file below
the plan directory, which no link leads out of, and every file of that directory can be named; a
bundle is at or below the one that is installed. -/
theorem paths_confined (installation : Installation) (files : Files) :
    Confines installation files where
  named _ _ := validatePlanPath_iff
  confined _ _ h := h.confined
  offered _ _ _ _ := planFile_of_name
  bundles bundle resolved h := by
    rw [validateBundlePath] at h
    obtain ⟨there, hthere, h⟩ := bind_eq_ok.mp h
    split at h
    · cases h
    · next hbelow =>
      obtain rfl := Except.ok.inj h
      exact ⟨not_not.mp hbelow, (physical_of_resolvePath hthere).1⟩

end MissionCompiler.Mcp
