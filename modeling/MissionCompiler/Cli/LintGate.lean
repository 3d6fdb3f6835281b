import MissionCompiler.Cli.PruneSafety

/-!
# What the lint gate's verdict is about

The gate leaves out of its lint what a prune is expected to remove, and `_report_stale` holds
back some of that. The two sets differ by the files of the mission that say they are the
installation's, so a verdict is about the directory that results unless there is such a file.
-/

namespace MissionCompiler.Cli

open Lib Schema Names Compile Render Artifact Publish

variable {τ σ : Type} [Scalars σ] {c : Circumstances τ} {format : Format τ σ} {host : Host}
  {plan : MissionPlan} {options : ArgoOptions} {prune : Bool} {dir dir' : Directory τ}

/-! ## The files expected to leave -/

/-- What the gate takes for a file of the run. -/
structure OfRun (format : Format τ σ) (host : Host) (plan : MissionPlan) (file : String × Entry τ)
    (found : ArtifactMission σ) : Prop where
  manifest : isManifestName file.1 = true
  rendered : isRenderedArtifact format file.2 = true
  attributed : artifactMission format file.2 = .ok found
  owner : found.owner = .mission
  mission : found.mission = some (missionFingerprint host.sha plan.missionId)
  ownerId : found.ownerId = .null ∨ found.ownerId = .str plan.missionId
  renderer : found.renderer = .str rendererArgo

omit [Scalars σ] in
theorem inScope_argo {found : ArtifactMission σ} :
    inScope (argoReconciliation host plan) found = true ↔ found.owner = .mission ∧
      found.mission = some (missionFingerprint host.sha plan.missionId) ∧
      (found.ownerId = .null ∨ found.ownerId = .str plan.missionId) := by
  constructor
  · intro h
    cases howner : found.owner with
    | mission =>
      obtain ⟨⟨m, hm, hmission⟩, hids⟩ := inScope_mission h howner
      refine ⟨rfl, ?_, (hids _ rfl).imp_right fun ⟨o, ho, hid⟩ => ?_⟩
      · rw [hmission, List.mem_singleton.mp hm]
      · rw [hid, List.mem_singleton.mp ho]
    | unmissioned => cases (inScope_unmissioned h howner).2
    | mixed =>
      rw [inScope, howner] at h
      cases h
    | malformed =>
      rw [inScope, howner] at h
      cases h
  · intro ⟨howner, hmission, hid⟩
    rw [inScope, howner, hmission]
    rcases hid with hid | hid <;> simp [argoReconciliation, hid, Yaml.isNull]

theorem mem_leavingNames {current leaving : List String} {files : List (String × Entry τ)}
    (h : leavingNames format (argoReconciliation host plan) prune current files = .ok leaving)
    {name : String} : name ∈ leaving ↔ prune = true ∧ name ∉ current ∧
      ∃ entry found, (name, entry) ∈ files ∧ OfRun format host plan (name, entry) found := by
  unfold leavingNames at h
  split at h
  · next hprune =>
    obtain ⟨stale, hstale, h⟩ := bind_eq_ok.mp h
    obtain ⟨⟨mine, notOurs⟩, hmine, h⟩ := bind_eq_ok.mp h
    rw [← Except.ok.inj h, List.mem_map]
    constructor
    · intro ⟨file, hfile, hname⟩
      obtain ⟨hmem, hmine'⟩ := (mem_attributeStale hmine).mp hfile
      obtain ⟨hlisted, hstale'⟩ := (mem_staleRenderedArtifacts hstale).mp hmem
      obtain ⟨hmanifest, hfresh, hrendered, found, hfound, hscope⟩ := isStale_eq_true.mp hstale'
      obtain ⟨found', hfound', hrenderer, _⟩ := isMine_eq_true.mp hmine'
      obtain rfl : found = found' := Except.ok.inj (hfound.symm.trans hfound')
      obtain ⟨howner, hmission, hid⟩ := inScope_argo.mp hscope
      rw [← hname]
      exact ⟨hprune, hfresh, file.2, found, hlisted, hmanifest, hrendered, hfound, howner, hmission,
        hid, hrenderer⟩
    · intro ⟨_, hfresh, entry, found, hlisted, hrun⟩
      refine ⟨(name, entry), (mem_attributeStale hmine).mpr ⟨?_, ?_⟩, rfl⟩
      · refine (mem_staleRenderedArtifacts hstale).mpr ⟨hlisted, isStale_eq_true.mpr ?_⟩
        exact ⟨hrun.manifest, hfresh, hrun.rendered, found, hrun.attributed,
          inScope_argo.mpr ⟨hrun.owner, hrun.mission, hrun.ownerId⟩⟩
      · exact isMine_eq_true.mpr ⟨found, hrun.attributed, hrun.renderer, .inl hrun.owner⟩
  · next hprune =>
    rw [← Except.ok.inj h]
    constructor
    · intro hname
      exact absurd hname List.not_mem_nil
    · intro ⟨hprune', _⟩
      exact absurd hprune' hprune

/-- A file of the run is removed unless it says it is the installation's: `render-argo` retires
nothing of an installation. -/
theorem OfRun.chosen_iff {file : String × Entry τ} {found : ArtifactMission σ}
    {current : List String} (h : OfRun format host plan file found) (hfresh : file.1 ∉ current) :
    Chosen format (argoReconciliation host plan) current file found ↔
      found.scope ≠ .str scopeInstallation := by
  constructor
  · intro hchosen hscope
    cases (hchosen.retirable hscope).2
  · intro hscope
    exact ⟨h.manifest, hfresh, h.rendered, inScope_argo.mpr ⟨h.owner, h.mission, h.ownerId⟩,
      h.renderer, .inl h.owner, fun hinstallation => absurd hinstallation hscope⟩

/-! ## A gate that passed -/

/-- What the gate linted and what it published, in the order it did so. -/
structure Passed (format : Format τ σ) (host : Host) (plan : MissionPlan) (prune : Bool)
    (planned : List (String × List Json)) (dir published : Directory τ)
    (linted : String → Option τ) : Prop where
  writes : ∀ name, name ∈ planned.map Prod.fst → ∃ text,
    linted name = some text ∧ published.at? (.out, name) = some (.regular text)
  keeps : ∀ name, name ∉ planned.map Prod.fst →
    published.at? (.out, name) = dir.at? (.out, name)
  leaves : ∀ name entry found, name ∉ planned.map Prod.fst → prune = true →
    dir.at? (.out, name) = some entry → OfRun format host plan (name, entry) found →
      linted name = none
  lints : ∀ name text, name ∉ planned.map Prod.fst → isManifestName name = true →
    dir.at? (.out, name) = some (.regular text) → linted name = some text ∨
      prune = true ∧ ∃ found, OfRun format host plan (name, .regular text) found

theorem renderGated_passed {rendered : Rendered τ} {linted : String → Option τ}
    (h : renderGated c format host plan options prune dir = (.ok rendered, dir'))
    (hpassed : rendered.2 = some (.passed linted)) :
    ∃ planned, plannedWorkflows host plan options = .ok planned ∧
      rendered.1 = planned.map Prod.fst ∧
      Passed format host plan prune planned dir dir' linted := by
  obtain ⟨_, t₁, hmake, h₁⟩ := Session.bind_eq_ok.mp h
  obtain ⟨names, staged, hwritten, h₂⟩ := Session.bind_eq_ok.mp h₁
  obtain ⟨hempty, hsame⟩ := makeStaging_eq_ok hmake
  have hkeeps : Session.Keeps (SameIn .out)
      (writeIndividualWorkflows c format host .staging plan options) :=
    keeps_writeIndividualWorkflows (by decide) options
  have hout : SameIn .out dir staged := SameIn.trans _ _ _ hsame (hkeeps.of_eq hwritten)
  obtain ⟨planned, hplanned, rfl, hnodup, hstaged⟩ := writeIndividualWorkflows_eq_ok hwritten
  have hstaged : ∀ name, staged.at? (.staging, name) = contentOf format planned name :=
    fun name => by rw [hstaged name, hempty name, Option.or_none]
  have hgate : lintAndPublish c format host plan prune (planned.map Prod.fst) staged =
      (.ok rendered, dir') := by
    unfold gateRendered at h₂
    split at h₂
    · obtain ⟨_, t, _, hend⟩ := Session.bind_eq_ok.mp h₂
      obtain ⟨rfl, _⟩ := Session.pure_eq_ok.mp hend
      cases hpassed
    · split at h₂
      · cases h₂
      · split at h₂
        · cases h₂
        · exact h₂
  obtain ⟨leaving, carried, snapped, hleaving, hcarried, rfl, hpublished⟩ :=
    lintAndPublish_eq_ok hnodup hgate
  cases hpassed
  refine ⟨planned, hplanned, rfl, ⟨fun name hname => ?_, fun name hname => ?_,
    fun name entry found hname hprune hentry hrun => ?_,
    fun name text hname hmanifest hentry => ?_⟩⟩
  · have hnot : name ∉ carried := fun hmem =>
      hcarried.fresh name hmem (List.mem_append_left _ hname)
    obtain ⟨docs, hdocs⟩ : ∃ docs, planned.lookup name = some docs := by
      obtain ⟨entry, hentry⟩ := contentOf_isSome format hname
      obtain ⟨docs, hdocs, _⟩ := Option.map_eq_some_iff.mp hentry
      exact ⟨docs, hdocs⟩
    have hcontent : contentOf format planned name = some (.regular (format.dump docs)) := by
      rw [contentOf, hdocs]
      rfl
    refine ⟨format.dump docs, ?_, ?_⟩
    · rw [stagedTexts, hcarried.kept name hnot, hstaged name, hcontent]
    · rw [hpublished name, if_pos hname, hstaged name, hcontent]
  · rw [hpublished name, if_neg hname, hout name]
  · have hmem : name ∈ leaving := (mem_leavingNames hleaving).mpr ⟨hprune, hname, entry, found,
      mem_listing.mpr ((hout name).trans hentry), hrun⟩
    have hnot : name ∉ carried := fun hin =>
      hcarried.fresh name hin (List.mem_append_right _ hmem)
    rw [stagedTexts, hcarried.kept name hnot, hstaged name, contentOf_eq_none.mpr hname]
  · by_cases hleft : name ∈ leaving
    · obtain ⟨hprune, _, entry, found, hlisted, hrun⟩ := (mem_leavingNames hleaving).mp hleft
      have hentry' : some entry = some (.regular text) :=
        (mem_listing.mp hlisted).symm.trans ((hout name).trans hentry)
      obtain rfl := Option.some.inj hentry'
      exact .inr ⟨hprune, found, hrun⟩
    · have hskip : name ∉ planned.map Prod.fst ++ leaving := fun hin =>
        (List.mem_append.mp hin).elim hname hleft
      have hfile : (name, Entry.regular text) ∈ manifests staged :=
        List.mem_filter.mpr ⟨mem_listing.mpr ((hout name).trans hentry), hmanifest⟩
      obtain ⟨_, hcopy⟩ := hcarried.copied name text hfile hskip
      left
      rw [stagedTexts, hcopy]

/-! ## The verdict and the directory that results -/

/-- A verdict is about a directory when the linter was given every manifest of it. -/
def VerdictAbout (linted : String → Option τ) (dir : Directory τ) : Prop :=
  ∀ name text, isManifestName name = true → dir.at? (.out, name) = some (.regular text) →
    linted name = some text

/-- A file of the run that it does not write, and that says it is the installation's. -/
def LeftUnlinted (format : Format τ σ) (host : Host) (plan : MissionPlan)
    (planned : List (String × List Json)) (dir : Directory τ) : Prop :=
  ∃ name text found, name ∉ planned.map Prod.fst ∧
    dir.at? (.out, name) = some (.regular text) ∧
    OfRun format host plan (name, .regular text) found ∧ found.scope = .str scopeInstallation

/-- A gated render that reports its lint as passed: the verdict is about the directory that
results, unless `--prune` was given over a file of the mission that says it is the
installation's. That file is left out of the lint, and is not removed. -/
theorem lint_verdict_iff {report : Report τ} {linted : String → Option τ}
    (h : (Command.renderArgo plan options true prune).run c format host dir = (.ok report, dir'))
    (hpassed : report.lint = some (.passed linted)) :
    ∃ planned, plannedWorkflows host plan options = .ok planned ∧
      (VerdictAbout linted dir' ↔
        ¬ (prune = true ∧ LeftUnlinted format host plan planned dir)) := by
  obtain ⟨rendered, published, hrender, h₁⟩ := Session.bind_eq_ok.mp h
  obtain ⟨stale, t, hstale, hend⟩ := Session.bind_eq_ok.mp h₁
  obtain ⟨rfl, rfl⟩ := Session.pure_eq_ok.mp hend
  obtain ⟨planned, hplanned, hnames, hspec⟩ := renderGated_passed hrender hpassed
  refine ⟨planned, hplanned, ?_⟩
  obtain ⟨files, hfiles, hremoved⟩ := reportStale_eq_ok hstale
  have hmine : ∀ name entry found, name ∉ planned.map Prod.fst →
      dir.at? (.out, name) = some entry → OfRun format host plan (name, entry) found →
        ((name, entry) ∈ files.mine ↔ found.scope ≠ .str scopeInstallation) :=
    fun name entry found hname hentry hrun => by
      have hlisted : (name, entry) ∈ listing .out published :=
        mem_listing.mpr ((hspec.keeps name hname).trans hentry)
      rw [mem_mine hfiles (nodup_listing .out published),
        ← hrun.chosen_iff (hnames ▸ hname : name ∉ rendered.1)]
      constructor
      · intro ⟨_, found', hfound', hchosen⟩
        obtain rfl : found = found' := Except.ok.inj (hrun.attributed.symm.trans hfound')
        exact hchosen
      · intro hchosen
        exact ⟨hlisted, found, hrun.attributed, hchosen⟩
  constructor
  · intro habout ⟨hprune, name, text, found, hname, hentry, hrun, hscope⟩
    have hkept : dir'.at? (.out, name) = some (.regular text) := by
      rcases reportStale_out hstale name with hkept | ⟨_, _, files', hfiles', hmem⟩
      · rw [hkept, hspec.keeps name hname, hentry]
      · obtain rfl : files = files' := Except.ok.inj (hfiles.symm.trans hfiles')
        obtain ⟨file, hfile, rfl⟩ := List.mem_map.mp hmem
        have hlisted := ((mem_mine hfiles (nodup_listing .out published)).mp hfile).1
        have hentry' := (mem_listing.mp hlisted).symm.trans ((hspec.keeps _ hname).trans hentry)
        have hfile' : file = (file.1, Entry.regular text) :=
          Prod.ext rfl (Option.some.inj hentry')
        rw [hfile'] at hfile
        exact absurd hscope ((hmine _ _ found hname hentry hrun).mp hfile)
    have hlinted := habout name text hrun.manifest hkept
    rw [hspec.leaves name _ found hname hprune hentry hrun] at hlinted
    cases hlinted
  · intro hnone name text hmanifest hafter
    by_cases hname : name ∈ planned.map Prod.fst
    · obtain ⟨text', hlinted, hpublished⟩ := hspec.writes name hname
      rcases reportStale_out hstale name with hkept | ⟨hgone, _⟩
      · rw [hkept, hpublished] at hafter
        rw [hlinted, Entry.regular.inj (Option.some.inj hafter)]
      · rw [hgone] at hafter
        cases hafter
    · have hbefore : dir.at? (.out, name) = some (.regular text) := by
        rcases reportStale_out hstale name with hkept | ⟨hgone, _⟩
        · rw [← hspec.keeps name hname, ← hkept, hafter]
        · rw [hgone] at hafter
          cases hafter
      rcases hspec.lints name text hname hmanifest hbefore with hlinted | ⟨hprune, found, hrun⟩
      · exact hlinted
      · by_cases hscope : found.scope = .str scopeInstallation
        · exact absurd ⟨hprune, name, text, found, hname, hbefore, hrun, hscope⟩ hnone
        · have hmem := (hmine name _ found hname hbefore hrun).mpr hscope
          rw [hremoved hprune name (List.mem_map_of_mem hmem)] at hafter
          cases hafter

/-! A file of the mission of the sample plan that says it is the installation's, under a gated
render that prunes. -/

def installationScoped : Yaml Number := sampleDocument scopeInstallation .null

def gatedPrune : Command := .renderArgo repeatedPlan ⟨false, none, none⟩ true true

/-- Whether a run passed its lint without the file, and left it there. -/
def passedWithout (name : String) :
    Except Stop (Report (List (Yaml Number))) × Directory (List (Yaml Number)) → Bool
  | (.ok ⟨_, some (.passed linted), _⟩, after) =>
    (linted name).isNone && match after.at? (.out, name) with
      | some (.regular _) => true
      | _ => false
  | _ => false

theorem passedWithout_eq_true {name : String}
    {ran : Except Stop (Report (List (Yaml Number))) × Directory (List (Yaml Number))}
    (h : passedWithout name ran = true) : ∃ report linted after text,
      ran = (.ok report, after) ∧ report.lint = some (.passed linted) ∧
        linted name = none ∧ after.at? (.out, name) = some (.regular text) := by
  unfold passedWithout at h
  split at h
  · next files linted stale after =>
    rw [Bool.and_eq_true, Option.isNone_iff_eq_none] at h
    obtain ⟨hlinted, hafter⟩ := h
    split at hafter
    · next text hat => exact ⟨_, linted, after, text, rfl, rfl, hlinted, hat⟩
    · cases hafter
  · cases h

theorem gatedPrune_passes_without : passedWithout "old.yaml" (gatedPrune.run sampleCircumstances
    sampleFormat sampleHost (sampleDirectory installationScoped)) = true := by
  decide +kernel

/-- The run reports its lint as passed, and its directory holds a manifest nobody linted. -/
theorem gatedPrune_leaves_unlinted : ∃ report linted after,
    gatedPrune.run sampleCircumstances sampleFormat sampleHost
      (sampleDirectory installationScoped) = (.ok report, after) ∧
    report.lint = some (.passed linted) ∧ ¬ VerdictAbout linted after := by
  obtain ⟨report, linted, after, text, hrun, hpassed, hlinted, hafter⟩ :=
    passedWithout_eq_true gatedPrune_passes_without
  refine ⟨report, linted, after, hrun, hpassed, fun habout => ?_⟩
  have hgiven := habout "old.yaml" text (by decide) hafter
  rw [hlinted] at hgiven
  cases hgiven

theorem gatedPrune_verdict_iff : ∃ report linted after planned,
    gatedPrune.run sampleCircumstances sampleFormat sampleHost
      (sampleDirectory installationScoped) = (.ok report, after) ∧
    report.lint = some (.passed linted) ∧
    (VerdictAbout linted after ↔ ¬ LeftUnlinted sampleFormat sampleHost repeatedPlan planned
      (sampleDirectory installationScoped)) := by
  obtain ⟨report, linted, after, _, hrun, hpassed, _, _⟩ :=
    passedWithout_eq_true gatedPrune_passes_without
  obtain ⟨planned, _, hiff⟩ := lint_verdict_iff hrun hpassed
  exact ⟨report, linted, after, planned, hrun, hpassed,
    hiff.trans (not_congr (and_iff_right rfl))⟩

end MissionCompiler.Cli
