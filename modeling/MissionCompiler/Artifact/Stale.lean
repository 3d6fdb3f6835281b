import MissionCompiler.Artifact.Ownership

/-!
# What a render left behind

`stale_rendered_artifacts`, `attribute_stale` and the decision of `_report_stale`: the files of a
directory that an earlier render wrote and this one did not, and which of them may be removed. A
directory is listed as the source lists it, sorted by name; an entry is read again each time the
source reads it again, and nothing changes between the reads.
-/

namespace MissionCompiler.Artifact

open Lib Schema Names Compile Render

variable {τ σ : Type}

/-! ## Names -/

/-- `path.suffix`: from the last full stop on, unless that begins or ends the name. -/
def suffix (name : List Char) : List Char :=
  let extension := (name.reverse.takeWhile (· != '.')).reverse
  if extension.isEmpty || name.length ≤ extension.length + 1 then [] else '.' :: extension

/-- Whether `kubectl apply -f` reads a file of this name from a directory. -/
def isManifestName (name : String) : Bool :=
  suffix name.toList == ".yaml".toList || suffix name.toList == ".yml".toList ||
    suffix name.toList == ".json".toList

/-- A name that ends in the suffix of the planned files. -/
theorem isManifestName_yaml {front : String} (h : front.toList ≠ []) :
    isManifestName (front ++ ".yaml") = true := by
  have hreverse : (front ++ ".yaml").toList.reverse = "lmay.".toList ++ front.toList.reverse := by
    rw [String.toList_append, List.reverse_append]
    rfl
  have hextension : ((front ++ ".yaml").toList.reverse.takeWhile (· != '.')).reverse =
      "yaml".toList := by
    rw [hreverse]
    rfl
  have hlength : ¬ (front ++ ".yaml").toList.length ≤ "yaml".toList.length + 1 := by
    have hpos := List.length_pos_iff.mpr h
    rw [String.toList_append, List.length_append]
    show ¬ _ + 5 ≤ 4 + 1
    omega
  have hsuffix : suffix (front ++ ".yaml").toList = ".yaml".toList := by
    simp only [suffix, hextension]
    rw [if_neg (by simpa using hlength)]
    rfl
  rw [isManifestName, hsuffix]
  rfl

/-! ## The decision -/

/-- What a run reconciles: the arguments of `_report_stale` that decide what is removed. -/
structure Reconciliation where
  renderer : String
  missions : List String
  owners : Option (List String)
  includeUnmissioned : Bool
  installation : Option String
  pruneGlobal : Bool

/-- `_in_scope`. -/
def inScope (run : Reconciliation) (found : ArtifactMission σ) : Bool :=
  match found.owner with
  | .mission => (found.mission.any fun m => run.missions.contains m) &&
      (run.owners.all fun owners => found.ownerId.isNull || owners.any fun o =>
        found.ownerId.eqStr o)
  | .unmissioned => found.scope.eqStr scopeInstallation && run.includeUnmissioned
  | _ => false

section

variable [Scalars σ] (format : Format τ σ) (run : Reconciliation)

/-- The condition of the comprehension of `stale_rendered_artifacts`. -/
def isStale (current : List String) (file : String × Entry τ) : Except Exn Bool :=
  if isManifestName file.1 && !current.contains file.1 && isRenderedArtifact format file.2 then do
    let found ← artifactMission format file.2
    return inScope run found
  else .ok false

/-- `stale_rendered_artifacts`. -/
def staleRenderedArtifacts (current : List String) (listing : List (String × Entry τ)) :
    Except Exn (List (String × Entry τ)) :=
  if run.missions.isEmpty && !run.includeUnmissioned then .ok []
  else filterM (isStale format run current) listing

/-- The condition of the loop of `attribute_stale`. -/
def isMine (file : String × Entry τ) : Except Exn Bool := do
  let found ← artifactMission format file.2
  return found.renderer.eqStr run.renderer &&
    (found.owner == .mission || found.owner == .unmissioned)

/-- `attribute_stale`. -/
def attributeStale (stale : List (String × Entry τ)) :
    Except Exn (List (String × Entry τ) × List (String × Entry τ)) :=
  splitM (isMine format run) stale

/-- Whether an owner is the installation of the run. -/
def isInstallation (ownerId : Yaml σ) : Bool :=
  match run.installation with
  | some installation => ownerId.eqStr installation
  | none => ownerId.isNull

/-- `theirs`: cluster-scoped, of another installation. -/
def isTheirs (file : String × Entry τ) : Except Exn Bool := do
  let found ← artifactMission format file.2
  return found.scope.eqStr scopeInstallation && !isInstallation run found.ownerId

/-- `held_back`: cluster-scoped, of this installation, and the run may not retire it. -/
def isHeldBack (file : String × Entry τ) : Except Exn Bool := do
  let found ← artifactMission format file.2
  return found.scope.eqStr scopeInstallation && isInstallation run found.ownerId &&
    !run.pruneGlobal

/-- What `_report_stale` tells of, and the files that are its run's to remove. -/
structure StaleFiles (τ : Type) where
  notOurs : List (String × Entry τ)
  theirs : List (String × Entry τ)
  heldBack : List (String × Entry τ)
  mine : List (String × Entry τ)

/-- `_report_stale` up to the removals. -/
def staleFiles (current : List String) (listing : List (String × Entry τ)) :
    Except Exn (StaleFiles τ) := do
  let stale ← staleRenderedArtifacts format run current listing
  let (mine, notOurs) ← attributeStale format run stale
  let theirs ← filterM (isTheirs format run) mine
  let heldBack ← filterM (isHeldBack format run) mine
  return ⟨notOurs, theirs, heldBack, mine.filter fun file =>
    !(theirs ++ heldBack).any fun skipped => skipped.1 == file.1⟩

end

end MissionCompiler.Artifact
