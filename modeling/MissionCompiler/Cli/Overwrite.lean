import MissionCompiler.Artifact.Classification
import MissionCompiler.Cli.PruneSafety

/-!
# What a preflight lets be overwritten

`preflight_writable` against what it is there for. `OwnTarget` says when documents may take the
place of a file: both identities of an owner agree, as they have to for a delete. `Replaces` is
what the code asks. The two part where a file of the same fingerprint names another raw id, and
where the planned documents disagree among themselves (`Overlooked`).
-/

namespace MissionCompiler.Cli

open Lib Schema Names Compile Render Artifact

variable {τ σ : Type} [Scalars σ]

/-! ## Targets -/

/-- The documents of a planned file. -/
def plannedDocs (rendered : Option (List (Yaml σ))) : List (Yaml σ) :=
  (rendered.getD []).filter Yaml.isDict

def markAt (doc : Yaml σ) : Option (Yaml σ) := (labelsOf doc).at? missionFingerprintLabel

/-- The documents of a file name one owner, and it is the one the planned documents name. -/
def SameOwnerId (docs planned : List (Yaml σ)) : Prop :=
  ∃ ours theirs, (∀ d ∈ docs, SameValue theirs (ownerIdOf d)) ∧
    (∀ p ∈ planned, SameValue ours (ownerIdOf p)) ∧ theirs.same ours = true

/-- Both are of one mission, by the fingerprint, and by the raw id where the file has one. -/
structure SameMission (docs planned : List (Yaml σ)) : Prop where
  mark : ∃ m, (∀ d ∈ docs, markAt d = some (.str m)) ∧ ∀ p ∈ planned, markAt p = some (.str m)
  ownerId : (∀ d ∈ docs, (annotationsOf d).at? ownerIdAnnotationKey = none) ∨
    SameOwnerId docs planned

/-- Neither is of a mission, and both are of one installation. -/
structure SameInstallation (docs planned : List (Yaml σ)) : Prop where
  file : ∀ d ∈ docs, markAt d = none
  documents : ∀ p ∈ planned, Unset (markAt p)
  ownerId : SameOwnerId docs planned

/-- Documents of a file that planned documents may take the place of. -/
structure OwnTarget (docs planned : List (Yaml σ)) : Prop where
  nonempty : docs ≠ []
  managed : ∀ d ∈ docs, (labelsOf d).at? managedByLabel = some (.str managedByValue)
  renderer : ∃ v, ∀ d ∈ docs, SameValue v ((labelsOf d).get rendererLabel)
  scope : ∃ v, ∀ d ∈ docs, SameValue v ((labelsOf d).get ownerScopeLabel)
  owner : SameMission docs planned ∨ SameInstallation docs planned

/-- A planned path is free, or holds a regular file that may be replaced. -/
def SafeTarget (format : Format τ σ) (present : Option (Entry τ))
    (rendered : Option (List (Yaml σ))) : Prop :=
  present = none ∨ ∃ text docs, present = some (.regular text) ∧ format.load text = some docs ∧
    OwnTarget (written docs) (plannedDocs rendered)

/-- A preflight that returns found every path safe, and one that raises has written nothing. -/
structure OverwriteSafe (format : Format τ σ) (place : Publish.Place)
    (planned : List (String × Option (List (Yaml σ)))) (dir : Directory τ) : Prop where
  safe : ∀ report dir', preflight format report place (fun _ => planned) dir = (.ok (), dir') →
    ∀ file ∈ planned, SafeTarget format (dir.at? (place, file.1)) file.2
  untouched : ∀ report stop dir',
    preflight format report place (fun _ => planned) dir = (.error stop, dir') → dir' = dir

/-! ## What the code asks -/

/-- A path the code takes for free, or for the planned documents' own: by the fingerprint alone
where the file is of a mission, and by what the planned documents agree on where it is not. -/
inductive Replaces (format : Format τ σ) (rendered : Option (List (Yaml σ))) :
    Option (Entry τ) → Prop where
  | free : Replaces format rendered none
  | mission {text : τ} {found : ArtifactMission σ} {m : String}
      (isRendered : isRenderedArtifact format (.regular text) = true)
      (classified : artifactMission format (.regular text) = .ok found)
      (owner : found.owner = .mission) (named : found.mission = some m)
      (planned : renderedMission rendered = .ok (.str m)) :
      Replaces format rendered (some (.regular text))
  | installation {text : τ} {found : ArtifactMission σ} {ownerId : Yaml σ}
      (isRendered : isRenderedArtifact format (.regular text) = true)
      (classified : artifactMission format (.regular text) = .ok found)
      (owner : found.owner = .unmissioned)
      (planned : renderedMission rendered = .ok .null)
      (plannedOwner : renderedOwnerId rendered = .ok ownerId)
      (same : found.ownerId.same ownerId = true) :
      Replaces format rendered (some (.regular text))

/-- A file the code's questions do not see through: of a mission, with a raw id that is not the
planned documents'; or of none, where some planned document has one or the owners differ. -/
def Overlooked (format : Format τ σ) (present : Option (Entry τ))
    (rendered : Option (List (Yaml σ))) : Prop :=
  ∃ text docs, present = some (.regular text) ∧ format.load text = some docs ∧
    ((∃ m, ∀ d ∈ written docs, markAt d = some (.str m)) ∧
        (∃ d ∈ written docs, (annotationsOf d).at? ownerIdAnnotationKey ≠ none) ∧
        ¬ SameOwnerId (written docs) (plannedDocs rendered) ∨
      (∀ d ∈ written docs, markAt d = none) ∧
        ((∃ p ∈ plannedDocs rendered, ¬ Unset (markAt p)) ∨
          ¬ SameOwnerId (written docs) (plannedDocs rendered)))

variable {format : Format τ σ} {rendered : Option (List (Yaml σ))}

theorem sameOwner_eq_true {theirs : ArtifactMission σ} {ours : Yaml σ} :
    sameOwner theirs ours rendered = .ok true ↔
      (theirs.owner = .mission ∧ ∃ m, theirs.mission = some m ∧ ours = .str m) ∨
      (theirs.owner = .unmissioned ∧ ours = .null ∧
        ∃ ownerId, renderedOwnerId rendered = .ok ownerId ∧
          theirs.ownerId.same ownerId = true) := by
  unfold sameOwner
  cases howner : theirs.owner with
  | mission =>
    show Except.ok (theirs.mission.any fun m => ours.eqStr m) = .ok true ↔ _
    rw [Except.ok.injEq, Option.any_eq_true]
    simp only [Yaml.eqStr_iff, true_and, reduceCtorEq, false_and, or_false]
  | unmissioned =>
    show sameInstallation theirs ours rendered = .ok true ↔ _
    unfold sameInstallation
    split
    · next hnull =>
      rw [Yaml.isNull_iff.mp hnull]
      simp [bind_eq_ok, pure, Except.pure]
    · next hnull =>
      have hne : ours ≠ .null := fun h => hnull (Yaml.isNull_iff.mpr h)
      simp [hne]
  | mixed => simp
  | malformed => simp

/-- A path is no conflict exactly when it is free or one the code takes for the documents' own. -/
theorem isConflict_eq_false {present : Option (Entry τ)} :
    isConflict format rendered present = .ok false ↔ Replaces format rendered present := by
  constructor
  · intro h
    cases present with
    | none => exact .free
    | some entry =>
      cases entry with
      | symlink target => cases h
      | other => cases h
      | regular text =>
        change (if isRenderedArtifact format (.regular text) then _ else _) = _ at h
        split at h
        · next hrendered =>
          obtain ⟨same, hsame, h⟩ := bind_eq_ok.mp h
          obtain ⟨theirs, htheirs, hsame⟩ := bind_eq_ok.mp hsame
          obtain ⟨ours, hours, hsame⟩ := bind_eq_ok.mp hsame
          have htrue : same = true := by simpa using Except.ok.inj h
          rw [htrue] at hsame
          rcases sameOwner_eq_true.mp hsame with
            ⟨howner, m, hm, rfl⟩ | ⟨howner, rfl, ownerId, hownerId, hids⟩
          · exact .mission hrendered htheirs howner hm hours
          · exact .installation hrendered htheirs howner hours hownerId hids
        · cases h
  · intro h
    cases h with
    | free => rfl
    | mission isRendered classified owner named planned =>
      show (if _ then _ else _) = _
      rw [if_pos isRendered]
      have hsame := @sameOwner_eq_true _ _ rendered _ _ |>.mpr (.inl ⟨owner, _, named, rfl⟩)
      exact bind_eq_ok.mpr ⟨true, bind_eq_ok.mpr ⟨_, classified, bind_eq_ok.mpr
        ⟨_, planned, hsame⟩⟩, rfl⟩
    | installation isRendered classified owner planned plannedOwner same =>
      show (if _ then _ else _) = _
      rw [if_pos isRendered]
      have hsame := sameOwner_eq_true.mpr (.inr ⟨owner, rfl, _, plannedOwner, same⟩)
      exact bind_eq_ok.mpr ⟨true, bind_eq_ok.mpr ⟨_, classified, bind_eq_ok.mpr
        ⟨_, planned, hsame⟩⟩, rfl⟩

/-! ## What the planned documents agree on -/

theorem sameValue_of_onlyOf {xs : List (Yaml σ)} {v : Yaml σ} (h : onlyOf xs = v)
    (hv : v ≠ .null) : ∀ x ∈ xs, SameValue v x := by
  intro x hx
  unfold onlyOf at h
  split at h
  · next y hset =>
    have hone : ¬ 1 < (distinct Yaml.same xs).length := by simp [hset]
    have hsame := sameValue_head hone hx
    rw [hset] at hsame
    exact h ▸ hsame
  · exact absurd h.symm hv

theorem markAt_of_readMark {doc : Yaml σ} {m : String} (h : readMark doc = .ok (.str m)) :
    markAt doc = some (.str m) := by
  obtain ⟨labels, hlabels, h⟩ := bind_eq_ok.mp h
  obtain ⟨mark, hmark, hheld⟩ := bind_eq_ok.mp h
  obtain rfl := Yaml.hashed_eq_ok hheld
  obtain ⟨_, hmark⟩ := Yaml.getAttr_eq_ok.mp hmark
  have hat := at?_of_get_str hmark
  have hsame : (doc.get "metadata").orEmpty.get "labels" = labels := by
    unfold getAttrOr at hlabels
    split at hlabels
    · next entries hentries =>
      have hvalue := Except.ok.inj hlabels
      rw [hentries]
      cases hfound : Yaml.at? "labels" (.dict entries) with
      | none =>
        rw [hfound] at hvalue
        rw [← hvalue] at hat
        cases hat
      | some value =>
        rw [hfound] at hvalue
        exact (Yaml.get_of_at? hfound).trans hvalue
    · cases hlabels
  rw [get_orEmpty_eq] at hsame
  rw [markAt, labelsOf, hsame]
  exact hat

/-- Documents that are of one mission for the code are each of it. -/
theorem markAt_of_renderedMission {m : String} (h : renderedMission rendered = .ok (.str m)) :
    ∀ p ∈ plannedDocs rendered, markAt p = some (.str m) := by
  cases rendered with
  | none => cases h
  | some docs =>
    obtain ⟨marks, hmarks, h⟩ := bind_eq_ok.mp h
    intro p hp
    obtain ⟨mark, hmem, hread⟩ := exists_of_mem_forall₂ (mapM_eq_ok.mp hmarks).flip hp
    have hsame := sameValue_of_onlyOf (Except.ok.inj h) (by simp) mark hmem
    rw [hsame.str] at hread
    exact markAt_of_readMark hread

/-! ## Safety -/

/-- A path the code takes for free, or for its own, is safe to write at unless a raw id or a
planned document was overlooked. -/
theorem Replaces.safe {present : Option (Entry τ)} (h : Replaces format rendered present)
    (hseen : ¬ Overlooked format present rendered) : SafeTarget format present rendered := by
  cases h with
  | free => exact .inl rfl
  | @mission text found m isRendered classified owner named planned =>
    obtain ⟨text', docs, htext, hload, hnonempty, hmanaged⟩ := rendered_eq_true isRendered
    obtain rfl : text' = text := (Entry.regular.inj htext).symm
    have hfile := artifactMission_attributed hload hmanaged classified (.inl owner)
    have hmark : ∀ d ∈ written docs, markAt d = some (.str m) := by
      rcases hfile.mark with ⟨_, m', hm', hmarks⟩ | ⟨howner, _⟩
      · obtain rfl : m' = m := Option.some.inj (hm'.symm.trans named)
        exact hmarks
      · rw [owner] at howner
        cases howner
    refine .inr ⟨_, docs, rfl, hload, hnonempty, fun d hd => labelled_of_isManaged (hmanaged d hd),
      ⟨_, hfile.renderer⟩, ⟨_, hfile.scope⟩, .inl ⟨⟨m, hmark, ?_⟩, ?_⟩⟩
    · exact markAt_of_renderedMission planned
    · by_contra hneither
      obtain ⟨hnamed, hdiffers⟩ := not_or.mp hneither
      push Not at hnamed
      exact hseen ⟨_, docs, rfl, hload, .inl ⟨⟨m, hmark⟩, hnamed, hdiffers⟩⟩
  | @installation text found ownerId isRendered classified owner planned plannedOwner same =>
    obtain ⟨text', docs, htext, hload, hnonempty, hmanaged⟩ := rendered_eq_true isRendered
    obtain rfl : text' = text := (Entry.regular.inj htext).symm
    have hfile := artifactMission_attributed hload hmanaged classified (.inr owner)
    have hmark : ∀ d ∈ written docs, markAt d = none := by
      rcases hfile.mark with ⟨howner, _⟩ | ⟨_, hmarks⟩
      · rw [owner] at howner
        cases howner
      · exact hmarks
    refine .inr ⟨_, docs, rfl, hload, hnonempty, fun d hd => labelled_of_isManaged (hmanaged d hd),
      ⟨_, hfile.renderer⟩, ⟨_, hfile.scope⟩, .inr ⟨hmark, ?_, ?_⟩⟩
    · by_contra hmarked
      push Not at hmarked
      exact hseen ⟨_, docs, rfl, hload, .inr ⟨hmark, .inl hmarked⟩⟩
    · by_contra hdiffers
      exact hseen ⟨_, docs, rfl, hload, .inr ⟨hmark, .inr hdiffers⟩⟩

theorem Overlooked.not_safe {present : Option (Entry τ)}
    (h : Overlooked format present rendered) : ¬ SafeTarget format present rendered := by
  obtain ⟨text, docs, rfl, hload, hoverlooked⟩ := h
  intro hsafe
  rcases hsafe with habsent | ⟨text', docs', htext, hload', howned⟩
  · cases habsent
  · obtain rfl : text' = text := (Entry.regular.inj (Option.some.inj htext)).symm
    obtain rfl : docs' = docs := Option.some.inj (hload'.symm.trans hload)
    obtain ⟨d, hd⟩ := List.exists_mem_of_ne_nil _ howned.nonempty
    rcases hoverlooked with ⟨⟨m, hmarked⟩, ⟨e, he, hnamed⟩, hdiffers⟩ | ⟨hbare, hdiffers⟩
    · rcases howned.owner with hmission | hinstallation
      · exact hmission.ownerId.elim (fun hnone => hnamed (hnone e he)) hdiffers
      · have hnone := hinstallation.file d hd
        rw [hmarked d hd] at hnone
        cases hnone
    · rcases howned.owner with hmission | hinstallation
      · obtain ⟨m, hmarked, _⟩ := hmission.mark
        have hnone := hbare d hd
        rw [hmarked d hd] at hnone
        cases hnone
      · rcases hdiffers with ⟨p, hp, hmarked⟩ | hdiffers
        · exact hmarked (hinstallation.documents p hp)
        · exact hdiffers hinstallation.ownerId

/-- A preflight returns exactly when the code takes every path for free, or for its own. -/
theorem preflightWritable_eq_ok {present : String → Option (Entry τ)}
    {planned : List (String × Option (List (Yaml σ)))} :
    preflightWritable format present planned = .ok () ↔
      ∀ file ∈ planned, Replaces format file.2 (present file.1) := by
  constructor
  · intro h file hfile
    obtain ⟨conflicts, hconflicts, hnone⟩ := bind_eq_ok.mp h
    cases conflicts with
    | nil => exact isConflict_eq_false.mp (filterM_eq_nil.mp hconflicts file hfile)
    | cons conflict rest => cases hnone
  · intro h
    apply bind_eq_ok.mpr
    refine ⟨[], filterM_eq_nil.mpr fun file hfile => ?_, rfl⟩
    exact isConflict_eq_false.mpr (h file hfile)

/-- An overwrite is safe unless every planned path is taken for free or for the documents' own,
and at one of them a raw id or a planned document was overlooked. -/
theorem overwriteSafe_iff (format : Format τ σ) (place : Publish.Place)
    (planned : List (String × Option (List (Yaml σ)))) (dir : Directory τ) :
    OverwriteSafe format place planned dir ↔
      ((∀ file ∈ planned, Replaces format file.2 (dir.at? (place, file.1))) →
        ∀ file ∈ planned, ¬ Overlooked format (dir.at? (place, file.1)) file.2) := by
  constructor
  · intro hsafe hreplaces file hfile hoverlooked
    have hreturns : preflight format Stop.raised place (fun _ => planned) dir = (.ok (), dir) := by
      apply Session.bind_eq_ok.mpr
      refine ⟨_, dir, rfl, ?_⟩
      exact Session.lift_eq_ok.mpr ⟨preflightWritable_eq_ok.mpr hreplaces, rfl⟩
    exact hoverlooked.not_safe (hsafe.safe _ _ hreturns file hfile)
  · intro hseen
    refine ⟨fun report dir' h file hfile => ?_, fun report stop dir' h => ?_⟩
    · obtain ⟨hwritable, _⟩ := preflight_eq_ok h
      have hreplaces := preflightWritable_eq_ok.mp hwritable
      exact (hreplaces file hfile).safe (hseen hreplaces file hfile)
    · rcases Session.bind_eq_error.mp h with h | ⟨verdict, t, hread, h⟩
      · cases h
      · cases hread
        exact (Session.lift_eq_error.mp h).2

/-! A file of the same fingerprint that names another raw id: what a collision of two ids, or a
label put on by hand, leaves. -/

def collidingDocument : Yaml Number := sampleDocument scopeMission (.str "m2")

def plannedDocument : Yaml Number := sampleDocument scopeMission (.str "m1")

/-- The fingerprint decides the replacement on its own. -/
theorem collidingDocument_is_overwritten :
    preflight sampleFormat ownershipReport .out
        (fun _ => [("old.yaml", some [plannedDocument])]) (sampleDirectory collidingDocument) =
          (.ok (), sampleDirectory collidingDocument) ∧
      ¬ OverwriteSafe sampleFormat .out [("old.yaml", some [plannedDocument])]
        (sampleDirectory collidingDocument) := by
  refine ⟨rfl, fun hsafe => ?_⟩
  have htarget : SafeTarget sampleFormat ((sampleDirectory collidingDocument).at?
      (.out, "old.yaml")) (some [plannedDocument]) :=
    hsafe.safe ownershipReport _ rfl _ List.mem_cons_self
  refine Overlooked.not_safe ?_ htarget
  refine ⟨[collidingDocument], [collidingDocument], rfl, rfl,
    .inl ⟨⟨missionFingerprint sampleSha "m1", ?_⟩, ?_, ?_⟩⟩
  · intro d hd
    obtain rfl := List.mem_singleton.mp hd
    rfl
  · exact ⟨collidingDocument, List.mem_cons_self, Option.some_ne_none _⟩
  · intro ⟨ours, theirs, hfile, hplanned, hsame⟩
    have htheirs : SameValue theirs (.str "m2") := hfile collidingDocument List.mem_cons_self
    have hours : SameValue ours (.str "m1") := hplanned plannedDocument List.mem_cons_self
    obtain rfl : theirs = .str "m2" := htheirs.elim id Yaml.same_str.mp
    obtain rfl : ours = .str "m1" := hours.elim id Yaml.same_str.mp
    exact absurd (Yaml.str.inj (Yaml.str_same.mp hsame)) (by decide)

end MissionCompiler.Cli
