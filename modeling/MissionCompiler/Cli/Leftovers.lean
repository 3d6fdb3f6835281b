import MissionCompiler.Artifact.Classification
import MissionCompiler.Cli.PruneSafety

/-!
# What a run tells of the files it left

`_report_stale` as a partition: each file the scan finds goes to one list of the report, and the
list of the removed files is the list of the files that are gone. What the scan does not find is
told of nowhere (`Unheard`).
-/

namespace MissionCompiler.Cli

open Lib Schema Names Compile Render Artifact Publish

variable {τ σ : Type}

/-! ## The lists of a report -/

/-- The names a report gives, in any of its lists. -/
def StaleReport.told (report : StaleReport) : List String :=
  report.notOurs ++ report.otherInstallation ++ report.clusterScoped ++ report.pruned ++
    report.stale

/-- The files that are told of, in any of the lists. -/
def toldFiles (files : StaleFiles τ) : List (String × Entry τ) :=
  files.notOurs ++ files.theirs ++ files.heldBack ++ files.mine

section

variable [Scalars σ] {c : Circumstances τ} {format : Format τ σ} {run : Reconciliation}
  {current : List String} {listing : List (String × Entry τ)} {dir dir' : Directory τ}

/-- A file of another installation is not held back for this one. -/
theorem not_heldBack_of_theirs {file : String × Entry τ} (h : isTheirs format run file = .ok true) :
    isHeldBack format run file ≠ .ok true := by
  intro hheld
  obtain ⟨found, hfound, _, hother⟩ := isTheirs_eq_true.mp h
  obtain ⟨found', hfound', _, howner, _⟩ := isHeldBack_eq_true.mp hheld
  obtain rfl : found = found' := Except.ok.inj (hfound.symm.trans hfound')
  rw [hother] at howner
  cases howner

theorem staleRenderedArtifacts_sublist {stale : List (String × Entry τ)}
    (h : staleRenderedArtifacts format run current listing = .ok stale) :
    stale.Sublist listing := by
  unfold staleRenderedArtifacts at h
  split at h
  · rw [← Except.ok.inj h]
    exact List.nil_sublist listing
  · obtain ⟨holds, _, rfl⟩ := filterM_eq_ok h
    exact List.filter_sublist

/-- What is left of a list once two disjoint parts are taken out, by name, is the third part. -/
theorem filter_parts_perm {mine : List (String × Entry τ)} {p q : String × Entry τ → Bool}
    (hnames : (mine.map Prod.fst).Nodup) (hdisjoint : ∀ file ∈ mine, p file = true →
      q file = false) :
    (mine.filter p ++ (mine.filter q ++ mine.filter fun file =>
      !(mine.filter p ++ mine.filter q).any fun skipped => skipped.1 == file.1)).Perm mine := by
  have hskipped : ∀ file ∈ mine,
      ((mine.filter p ++ mine.filter q).any fun skipped => skipped.1 == file.1) =
        (p file || q file) := by
    intro file hfile
    rw [Bool.eq_iff_iff, List.any_eq_true, Bool.or_eq_true]
    have hmem : ∀ skipped, skipped ∈ mine.filter p ++ mine.filter q ↔
        skipped ∈ mine ∧ (p skipped = true ∨ q skipped = true) := by
      intro skipped
      rw [List.mem_append, List.mem_filter, List.mem_filter, and_or_left]
    constructor
    · intro ⟨skipped, hskipped, hname⟩
      obtain ⟨hmine, hparts⟩ := (hmem skipped).mp hskipped
      have hsame := List.inj_on_of_nodup_map hnames hmine hfile (beq_iff_eq.mp hname)
      rwa [hsame] at hparts
    · intro hparts
      exact ⟨file, (hmem file).mpr ⟨hfile, hparts⟩, beq_self_eq_true _⟩
  have hsecond : (mine.filter fun file => !p file).filter q = mine.filter q := by
    rw [List.filter_filter]
    apply List.filter_congr
    intro file hfile
    cases hp : p file with
    | true => rw [hdisjoint file hfile hp, Bool.false_and]
    | false => exact Bool.and_true _
  have hthird : ((mine.filter fun file => !p file).filter fun file => !q file) =
      mine.filter fun file =>
        !(mine.filter p ++ mine.filter q).any fun skipped => skipped.1 == file.1 := by
    rw [List.filter_filter]
    apply List.filter_congr
    intro file hfile
    rw [hskipped file hfile, Bool.not_or, Bool.and_comm]
  have hrest := List.filter_append_perm q (mine.filter fun file => !p file)
  rw [hsecond, hthird] at hrest
  exact (List.Perm.append_left _ hrest).trans (List.filter_append_perm p mine)

/-- The lists hold each stale file once. -/
theorem toldFiles_perm {files : StaleFiles τ}
    (h : staleFiles format run current listing = .ok files)
    (hnames : (listing.map Prod.fst).Nodup) :
    ∃ stale, staleRenderedArtifacts format run current listing = .ok stale ∧
      (stale.map Prod.fst).Nodup ∧ (toldFiles files).Perm stale := by
  obtain ⟨stale, hstale, h⟩ := bind_eq_ok.mp h
  obtain ⟨⟨mine, notOurs⟩, hmine, h⟩ := bind_eq_ok.mp h
  obtain ⟨theirs, htheirs, h⟩ := bind_eq_ok.mp h
  obtain ⟨heldBack, hheld, h⟩ := bind_eq_ok.mp h
  have hnodup : (stale.map Prod.fst).Nodup :=
    hnames.sublist ((staleRenderedArtifacts_sublist hstale).map Prod.fst)
  obtain ⟨holds, _, rfl, rfl⟩ := splitM_eq_ok hmine
  obtain ⟨p, hp, rfl⟩ := filterM_eq_ok htheirs
  obtain ⟨q, hq, rfl⟩ := filterM_eq_ok hheld
  have hdisjoint : ∀ file ∈ stale.filter holds, p file = true → q file = false := by
    intro file hfile htrue
    have hnot := not_heldBack_of_theirs ((hp file hfile).trans (congrArg _ htrue))
    rw [hq file hfile] at hnot
    simpa using hnot
  have hparts := filter_parts_perm (hnodup.sublist (List.filter_sublist.map Prod.fst)) hdisjoint
  refine ⟨stale, hstale, hnodup, ?_⟩
  rw [← Except.ok.inj h, toldFiles, List.append_assoc, List.append_assoc]
  refine (List.Perm.append_left _ hparts).trans ?_
  exact List.perm_append_comm.trans (List.filter_append_perm holds stale)

/-- A report tells of each stale file once, and of those it removed as removed. -/
theorem reportStale_told {prune : Bool} {report : StaleReport}
    (h : reportStale c format run prune current dir = (.ok report, dir')) :
    ∃ files, staleFiles format run current (Cli.listing .out dir) = .ok files ∧
      report.told = (toldFiles files).map Prod.fst ∧
      report.pruned = if prune then files.mine.map Prod.fst else [] := by
  obtain ⟨files, t, hscan, h⟩ := Session.bind_eq_ok.mp h
  refine ⟨files, scanStale_eq_ok hscan, ?_⟩
  rw [toldFiles, List.map_append, List.map_append, List.map_append]
  unfold pruneOrTell at h
  split at h
  · next hprune =>
    obtain ⟨removed, t', hremoved, h⟩ := Session.bind_eq_ok.mp h
    obtain ⟨rfl, _⟩ := Session.pure_eq_ok.mp h
    have hall := ((removeAll_spec hremoved).2 removed rfl).1
    rw [List.nil_append] at hall
    rw [StaleReport.told, if_pos hprune, hall, List.append_nil]
    exact ⟨rfl, rfl⟩
  · next hprune =>
    obtain ⟨rfl, _⟩ := Session.pure_eq_ok.mp h
    rw [StaleReport.told, if_neg hprune, List.append_nil]
    exact ⟨rfl, rfl⟩

/-- A report gives the names of the stale files, each once. -/
theorem count_told {prune : Bool} {report : StaleReport}
    (h : reportStale c format run prune current dir = (.ok report, dir')) :
    ∃ stale, staleRenderedArtifacts format run current (Cli.listing .out dir) = .ok stale ∧
      ∀ name, report.told.count name = if name ∈ stale.map Prod.fst then 1 else 0 := by
  obtain ⟨files, hfiles, htold, _⟩ := reportStale_told h
  obtain ⟨stale, hstale, hnodup, hperm⟩ := toldFiles_perm hfiles (nodup_listing .out dir)
  refine ⟨stale, hstale, fun name => ?_⟩
  rw [htold, (hperm.map Prod.fst).count_eq]
  exact hnodup.count

/-- What a run wrote it does not remove. -/
theorem reportStale_current {prune : Bool} {result : Except Stop StaleReport}
    (h : reportStale c format run prune current dir = (result, dir')) {name : String}
    (hname : name ∈ current) : dir'.at? (.out, name) = dir.at? (.out, name) := by
  rcases reportStale_out h name with hkept | ⟨_, _, files, hfiles, hmem⟩
  · exact hkept
  · obtain ⟨file, hfile, rfl⟩ := List.mem_map.mp hmem
    obtain ⟨_, found, _, hchosen⟩ := (mem_mine hfiles (nodup_listing .out dir)).mp hfile
    exact absurd hname hchosen.fresh

/-- The files reported as removed are the ones that are gone. -/
theorem mem_pruned_iff {prune : Bool} {report : StaleReport}
    (h : reportStale c format run prune current dir = (.ok report, dir')) (name : String) :
    name ∈ report.pruned ↔
      (dir.at? (.out, name)).isSome = true ∧ dir'.at? (.out, name) = none := by
  obtain ⟨files, hfiles, _, hpruned⟩ := reportStale_told h
  rw [hpruned]
  constructor
  · intro hname
    split at hname
    · next hprune =>
      obtain ⟨files', hfiles', hgone⟩ := reportStale_eq_ok h
      obtain rfl : files = files' := Except.ok.inj (hfiles.symm.trans hfiles')
      refine ⟨?_, hgone hprune name hname⟩
      obtain ⟨file, hfile, rfl⟩ := List.mem_map.mp hname
      have hlisted := ((mem_mine hfiles (nodup_listing .out dir)).mp hfile).1
      rw [mem_listing.mp hlisted]
      rfl
    · cases hname
  · intro ⟨hsome, hnone⟩
    rcases reportStale_out h name with hkept | ⟨_, hprune, files', hfiles', hmem⟩
    · rw [← hkept, hnone] at hsome
      cases hsome
    · obtain rfl : files = files' := Except.ok.inj (hfiles.symm.trans hfiles')
      rw [if_pos hprune]
      exact hmem

end

/-! ## Leftovers -/

section

variable [Scalars σ]

/-- Documents that name one writer, scope, schema and owner. -/
structure Agree (docs : List (Yaml σ)) : Prop where
  stamp : ¬ 1 < (distinct Stamp.same (docs.map fun d => stampOf (labelsOf d))).length
  ownerId : ¬ 1 < (distinct Yaml.same (docs.map ownerIdOf)).length

/-- A document with none of the labels of the ownership schema. -/
structure PreSchema (doc : Yaml σ) : Prop where
  mark : (labelsOf doc).at? missionFingerprintLabel = none
  renderer : (labelsOf doc).at? rendererLabel = none
  scope : (labelsOf doc).at? ownerScopeLabel = none
  schema : (labelsOf doc).at? ownershipSchemaLabel = none

/-- Documents without a mission, of an installation or from before the ownership schema. -/
def WithoutMission (docs : List (Yaml σ)) : Prop :=
  (∀ d ∈ docs, (labelsOf d).at? missionFingerprintLabel = none ∧
      (labelsOf d).at? ownerScopeLabel = some (.str scopeInstallation)) ∨
    ∀ d ∈ docs, PreSchema d

/-- Documents of a file an operator has to be told of. -/
structure Leftover (run : Reconciliation) (docs : List (Yaml σ)) : Prop where
  nonempty : docs ≠ []
  managed : ∀ d ∈ docs, (labelsOf d).at? managedByLabel = some (.str managedByValue)
  agree : Agree docs
  owner : OfMission (fun value => value = none) run docs ∨ WithoutMission docs

/-- A report tells of each leftover under one heading, and of a file as removed exactly when it is
gone. -/
structure NoneSilent (format : Format τ σ) (run : Reconciliation) (report : Report τ)
    (before after : Directory τ) : Prop where
  told : ∀ name text docs, before.at? (.out, name) = some (.regular text) →
    format.load text = some docs → isManifestName name = true → name ∉ report.files →
    Leftover run (written docs) → report.stale.told.count name = 1
  pruned : ∀ name, name ∈ report.stale.pruned ↔
    (before.at? (.out, name)).isSome = true ∧ after.at? (.out, name) = none

/-- Documents the scan passes over: from before the ownership schema, with no mission either, or
of a schema nobody knows. -/
def Unheard (docs : List (Yaml σ)) : Prop :=
  (∀ d ∈ docs, PreSchema d) ∨
    ∃ d ∈ docs, schemaKnown ((labelsOf d).get ownershipSchemaLabel) = false

/-! ## What the scan finds -/

variable {c : Circumstances τ} {format : Format τ σ} {run : Reconciliation} {docs : List (Yaml σ)}

omit [Scalars σ] in
theorem WithoutMission.mark (h : WithoutMission docs) :
    ∀ d ∈ docs, (labelsOf d).at? missionFingerprintLabel = none := by
  intro d hd
  rcases h with hinstallation | hold
  · exact (hinstallation d hd).1
  · exact (hold d hd).mark

/-- The fingerprints of a leftover are one, of this mission, or all missing. -/
theorem Leftover.marks (h : Leftover run docs) (hmissions : ∀ m ∈ run.missions, pyBlank m = false) :
    (∀ d ∈ docs, Marked d) ∧ ∀ d ∈ docs, ∀ e ∈ docs, (labelsOf d).at? missionFingerprintLabel =
      (labelsOf e).at? missionFingerprintLabel := by
  rcases h.owner with hmission | hwithout
  · obtain ⟨m, hm, hmarks⟩ := hmission.mark
    refine ⟨fun d hd => ⟨some m, ?_⟩, fun d hd e he => (hmarks d hd).trans (hmarks e he).symm⟩
    rw [markOf, hmarks d hd]
    show (if pyBlank m then _ else _) = _
    rw [hmissions m hm]
    rfl
  · have hmarks := hwithout.mark
    refine ⟨fun d hd => ⟨none, ?_⟩, fun d hd e he => (hmarks d hd).trans (hmarks e he).symm⟩
    rw [markOf, hmarks d hd]

/-- A leftover of a known schema has an owner, if the scan can read it at all. -/
theorem Leftover.owned (h : Leftover run docs) (hmissions : ∀ m ∈ run.missions, pyBlank m = false)
    (hschema : ∀ d ∈ docs, schemaKnown ((labelsOf d).get ownershipSchemaLabel) = true)
    {found : ArtifactMission σ} (hfound : attribution docs (docs.map labelsOf) = .ok found) :
    found.Owned := by
  have hmanaged : ∀ d ∈ docs, isManaged d = true := fun d hd =>
    isManaged_of_labelled (h.managed d hd)
  obtain ⟨hmarked, hsame⟩ := h.marks hmissions
  obtain ⟨marks, hmarks, hreads, hreadable⟩ := attribution_of_marked hmanaged hmarked
  have hagreement := hreads (hreadable ⟨found, hfound⟩)
  rw [← Except.ok.inj (hagreement.symm.trans hfound), agreement_owned_iff hmarks]
  intro hdiscordant
  rcases hdiscordant with hstamp | howner | ⟨d, hd, hunknown⟩ | ⟨d, hd, e, he, hne⟩
  · exact h.agree.stamp hstamp
  · exact h.agree.ownerId howner
  · rw [hschema d hd] at hunknown
    cases hunknown
  · exact hne (hsame d hd e he)

/-- What is attributed to a leftover that is not passed over is in the scope of the run. -/
theorem Leftover.inScope (h : Leftover run docs) (hinclude : run.includeUnmissioned = true)
    (hheard : ¬ ∀ d ∈ docs, PreSchema d) {found : ArtifactMission σ}
    (hfile : Attributed found docs) : inScope run found = true := by
  obtain ⟨d, hd⟩ := List.exists_mem_of_ne_nil docs h.nonempty
  rcases h.owner with hmission | hwithout
  · obtain ⟨m, hm, hmarks⟩ := hmission.mark
    rcases hfile.mark with ⟨howner, m', hm', hmarks'⟩ | ⟨_, hmarks'⟩
    · have hsame := (hmarks' d hd).symm.trans (hmarks d hd)
      obtain rfl : m' = m := Yaml.str.inj (Option.some.inj hsame)
      have hnamed : (found.mission.any fun m => run.missions.contains m) = true := by
        rw [hm']
        simpa using hm
      have howners : (run.owners.all fun owners => found.ownerId.isNull ||
          owners.any fun o => found.ownerId.eqStr o) = true := by
        rcases hmission.ownerId with hnone | ⟨owners, howners, o, ho, hall⟩
        · have hnull := hfile.ownerId d hd
          rw [Yaml.get, hnone d hd] at hnull
          rw [hnull.elim id Yaml.same_null.mp]
          cases run.owners <;> rfl
        · have hstr := hfile.ownerId d hd
          rw [Yaml.get_of_at? (hall d hd)] at hstr
          rw [howners, hstr.elim id Yaml.same_str.mp]
          simpa [Yaml.isNull, Yaml.eqStr] using ho
      unfold Artifact.inScope
      rw [howner]
      exact Bool.and_eq_true_iff.mpr ⟨hnamed, howners⟩
    · have hsame := (hmarks' d hd).symm.trans (hmarks d hd)
      cases hsame
  · rcases hfile.mark with ⟨_, m', _, hmarks'⟩ | ⟨howner, _⟩
    · have hsame := (hmarks' d hd).symm.trans (hwithout.mark d hd)
      cases hsame
    · rcases hwithout with hinstallation | hold
      · have hscope := hfile.scope d hd
        rw [Yaml.get_of_at? (hinstallation d hd).2] at hscope
        unfold Artifact.inScope
        rw [howner, hscope.elim id Yaml.same_str.mp, hinclude]
        simp [Yaml.eqStr]
      · exact absurd hold hheard

/-- The scan finds a leftover exactly when it is not one that is passed over. -/
theorem isStale_iff_of_leftover {current : List String} {name : String} {text : τ}
    {docs : List (Yaml σ)} {b : Bool}
    (htest : isStale format run current (name, .regular text) = .ok b)
    (hload : format.load text = some docs) (hmanifest : isManifestName name = true)
    (hfresh : name ∉ current) (h : Leftover run (written docs))
    (hmissions : ∀ m ∈ run.missions, pyBlank m = false)
    (hinclude : run.includeUnmissioned = true) : b = true ↔ ¬ Unheard (written docs) := by
  have hmanaged : ∀ d ∈ written docs, isManaged d = true := fun d hd =>
    isManaged_of_labelled (h.managed d hd)
  constructor
  · intro hb hunheard
    rw [hb] at htest
    obtain ⟨_, _, _, found, hfound, hscope⟩ := isStale_eq_true.mp htest
    have howned : found.Owned := by
      unfold Artifact.inScope at hscope
      split at hscope
      · exact .inl ‹_›
      · exact .inr ‹_›
      · cases hscope
    have hfile := artifactMission_attributed hload hmanaged hfound howned
    obtain ⟨d, hd⟩ := List.exists_mem_of_ne_nil _ h.nonempty
    rcases hunheard with hold | ⟨e, he, hunknown⟩
    · rcases hfile.mark with ⟨_, m, _, hmarks⟩ | ⟨howner, _⟩
      · have hmark := (hmarks d hd).symm.trans (hold d hd).mark
        cases hmark
      · have hnull := hfile.scope d hd
        rw [Yaml.get, (hold d hd).scope, (inScope_unmissioned hscope howner).1] at hnull
        cases hnull.str
    · rcases hfile.schema_cases with hunset | hknown
      · rcases hunset e he with hnone | hnull
        · rw [Yaml.get, hnone] at hunknown
          cases hunknown
        · rw [Yaml.get, hnull] at hunknown
          cases hunknown
      · rw [Yaml.get_of_at? (hknown e he), schemaKnown_iff.mpr (.inr rfl)] at hunknown
        cases hunknown
  · intro hheard
    obtain ⟨hstamped, hschemas⟩ := not_or.mp hheard
    have hschema : ∀ d ∈ written docs,
        schemaKnown ((labelsOf d).get ownershipSchemaLabel) = true := by
      intro d hd
      by_contra hunknown
      exact hschemas ⟨d, hd, Bool.eq_false_iff.mpr hunknown⟩
    have hrendered : isRenderedArtifact format (.regular text) = true := by
      rw [isRenderedArtifact, hload]
      show (!(written docs).isEmpty && (written docs).all isManaged) = true
      rw [Bool.and_eq_true, Bool.not_eq_true', List.isEmpty_eq_false_iff, List.all_eq_true]
      exact ⟨h.nonempty, hmanaged⟩
    have hcond : (isManifestName name && !current.contains name &&
        isRenderedArtifact format (.regular text)) = true := by
      rw [hmanifest, hrendered]
      simpa using hfresh
    rw [isStale, if_pos hcond] at htest
    obtain ⟨found, hfound, htest⟩ := bind_eq_ok.mp htest
    have hattribution := hfound
    rw [artifactMission_managed hload hmanaged] at hattribution
    have hfile := artifactMission_attributed hload hmanaged hfound
      (h.owned hmissions hschema hattribution)
    rw [← Except.ok.inj htest]
    exact h.inScope hinclude hstamped hfile

/-- A scan that looks at files without a mission asks of every file of the directory. -/
theorem mem_stale_iff {current : List String} {listing stale : List (String × Entry τ)}
    (h : staleRenderedArtifacts format run current listing = .ok stale)
    (hinclude : run.includeUnmissioned = true) (hnames : (listing.map Prod.fst).Nodup)
    {file : String × Entry τ} (hfile : file ∈ listing) :
    ∃ b, isStale format run current file = .ok b ∧ (file.1 ∈ stale.map Prod.fst ↔ b = true) := by
  rw [staleRenderedArtifacts, hinclude, if_neg (by simp)] at h
  obtain ⟨holds, hall, rfl⟩ := filterM_eq_ok h
  refine ⟨holds file, hall file hfile, ?_⟩
  constructor
  · intro hname
    obtain ⟨file', hfile', hsame⟩ := List.mem_map.mp hname
    obtain ⟨hlisted, hholds⟩ := List.mem_filter.mp hfile'
    rwa [List.inj_on_of_nodup_map hnames hlisted hfile hsame] at hholds
  · intro hholds
    exact List.mem_map_of_mem (List.mem_filter.mpr ⟨hfile, hholds⟩)

/-- A run that completes tells of every leftover, exactly when none of them is one that the scan
passes over. -/
theorem noneSilent_iff {host : Host} {plan : MissionPlan} {options : KueueOptions}
    {prune pruneGlobal : Bool} {dir after : Directory τ} {report : Report τ}
    (h : (Command.renderKueue plan options prune pruneGlobal).run c format host dir =
      (.ok report, after)) :
    NoneSilent format (kueueReconciliation host plan options.priorityClassPrefix pruneGlobal)
        report dir after ↔
      ∀ name text docs, dir.at? (.out, name) = some (.regular text) →
        format.load text = some docs → isManifestName name = true → name ∉ report.files →
        Leftover (kueueReconciliation host plan options.priorityClassPrefix pruneGlobal)
          (written docs) → ¬ Unheard (written docs) := by
  obtain ⟨names, rendered, hrender, hrun⟩ := Session.bind_eq_ok.mp h
  obtain ⟨stale, after', hreport, hend⟩ := Session.bind_eq_ok.mp hrun
  obtain ⟨rfl, rfl⟩ := Session.pure_eq_ok.mp hend
  obtain ⟨planned, _, hnames, _, hout⟩ := Command.render_eq_ok hrender
  have hkept : ∀ name, name ∉ names.1 → rendered.at? (.out, name) = dir.at? (.out, name) := by
    intro name hname
    rw [hout name, contentOf_eq_none.mpr (hnames ▸ hname)]
    rfl
  obtain ⟨found, hstale, hcount⟩ := count_told hreport
  have hmissions : ∀ m ∈ (kueueReconciliation host plan options.priorityClassPrefix
      pruneGlobal).missions, pyBlank m = false := by
    intro m hm
    rw [List.mem_singleton.mp hm]
    exact pyBlank_missionFingerprint host.sha plan.missionId
  have htold : ∀ name text docs, dir.at? (.out, name) = some (.regular text) →
      format.load text = some docs → isManifestName name = true → name ∉ names.1 →
      Leftover (kueueReconciliation host plan options.priorityClassPrefix pruneGlobal)
        (written docs) → (stale.told.count name = 1 ↔ ¬ Unheard (written docs)) := by
    intro name text docs hat hload hmanifest hfresh hleft
    have hlisted : (name, Entry.regular text) ∈ listing .out rendered :=
      mem_listing.mpr ((hkept name hfresh).trans hat)
    obtain ⟨b, htest, hmem⟩ := mem_stale_iff hstale rfl (nodup_listing .out rendered) hlisted
    rw [← isStale_iff_of_leftover htest hload hmanifest hfresh hleft hmissions rfl, ← hmem,
      hcount name]
    split
    · next hname => exact ⟨fun _ => hname, fun _ => rfl⟩
    · next hname => exact ⟨fun heq => absurd heq Nat.zero_ne_one, fun hin => absurd hin hname⟩
  constructor
  · intro hnone name text docs hat hload hmanifest hfresh hleft
    exact (htold name text docs hat hload hmanifest hfresh hleft).mp
      (hnone.told name text docs hat hload hmanifest hfresh hleft)
  · intro hheard
    refine ⟨fun name text docs hat hload hmanifest hfresh hleft => ?_, fun name => ?_⟩
    · exact (htold name text docs hat hload hmanifest hfresh hleft).mpr
        (hheard name text docs hat hload hmanifest hfresh hleft)
    · rw [mem_pruned_iff hreport name]
      by_cases hname : name ∈ names.1
      · have hafter := reportStale_current hreport hname
        obtain ⟨entry, hentry⟩ := contentOf_isSome format (hnames ▸ hname)
        rw [hafter, hout name, hentry]
        exact iff_of_false (fun hgone => Option.some_ne_none _ hgone.2)
          fun hgone => Option.some_ne_none _ hgone.2
      · rw [hkept name hname]

end

/-! A plan that renders nothing, pruned over a file of an installation and over one from before the
ownership schema. -/

def installationBundle : Yaml Number :=
  .dict [(.str "metadata", .dict [
    (.str "labels", .dict [(.str managedByLabel, .str managedByValue),
      (.str rendererLabel, .str rendererKueue), (.str ownerScopeLabel, .str scopeInstallation),
      (.str ownershipSchemaLabel, .str ownershipSchemaVersion)]),
    (.str "annotations", .dict [(.str ownerIdAnnotationKey, .str orchidePriorityClassPrefix)])])]

def preSchemaDocument : Yaml Number :=
  .dict [(.str "metadata", .dict [
    (.str "labels", .dict [(.str managedByLabel, .str managedByValue)])])]

def kueuePrune : Command := .renderKueue downlinkPlan sampleKueueOptions true true

def kueuePruneScope : Reconciliation :=
  kueueReconciliation sampleHost downlinkPlan orchidePriorityClassPrefix true

theorem text_of_sampleDirectory {doc : Yaml Number} {name : String} {text : List (Yaml Number)}
    (h : (sampleDirectory doc).at? (.out, name) = some (.regular text)) : text = [doc] := by
  by_cases hname : name = "old.yaml"
  · subst hname
    cases h
    rfl
  · have hnone : (sampleDirectory doc).at? (.out, name) = none := by
      apply AList.lookup_eq_none.mpr
      intro hmem
      have hpath := List.mem_singleton.mp (show (Place.out, name) ∈ [(Place.out, "old.yaml")]
        from hmem)
      exact hname (congrArg Prod.snd hpath)
    rw [hnone] at h
    cases h

theorem installationBundle_noneSilent : ∃ report after, kueuePrune.run sampleCircumstances
      sampleFormat sampleHost (sampleDirectory installationBundle) = (.ok report, after) ∧
    NoneSilent sampleFormat kueuePruneScope report (sampleDirectory installationBundle) after := by
  obtain ⟨report, after, hrun⟩ : ∃ report after, kueuePrune.run sampleCircumstances sampleFormat
      sampleHost (sampleDirectory installationBundle) = (.ok report, after) :=
    Session.exists_of_isOk (by decide +kernel)
  refine ⟨report, after, hrun, (noneSilent_iff hrun).mpr ?_⟩
  intro name text docs hat hload _ _ _ hunheard
  have hdocs : docs = [installationBundle] :=
    (Option.some.inj hload).symm.trans (text_of_sampleDirectory hat)
  rw [hdocs] at hunheard
  rcases hunheard with hold | ⟨d, hd, hunknown⟩
  · have hscope := (hold installationBundle List.mem_cons_self).scope
    cases hscope
  · obtain rfl := List.mem_singleton.mp hd
    cases hunknown

/-- The file is left where it is, and the report says nothing of it. -/
theorem preSchemaDocument_is_silent : ∃ report after, kueuePrune.run sampleCircumstances
      sampleFormat sampleHost (sampleDirectory preSchemaDocument) = (.ok report, after) ∧
    report.stale.told = [] ∧
    ¬ NoneSilent sampleFormat kueuePruneScope report (sampleDirectory preSchemaDocument) after := by
  obtain ⟨report, after, hrun⟩ : ∃ report after, kueuePrune.run sampleCircumstances sampleFormat
      sampleHost (sampleDirectory preSchemaDocument) = (.ok report, after) :=
    Session.exists_of_isOk (by decide +kernel)
  have hreport : ((kueuePrune.run sampleCircumstances sampleFormat sampleHost
      (sampleDirectory preSchemaDocument)).1.toOption.all fun report =>
        report.files.isEmpty && report.stale.told.isEmpty) = true := by decide +kernel
  rw [hrun] at hreport
  obtain ⟨hfiles, htold⟩ := Bool.and_eq_true_iff.mp hreport
  rw [List.isEmpty_iff] at hfiles htold
  refine ⟨report, after, hrun, htold, fun hnone => ?_⟩
  have hcount := hnone.told "old.yaml" [preSchemaDocument] [preSchemaDocument] rfl rfl
    (by decide) (by rw [hfiles]; exact List.not_mem_nil) ?_
  · rw [htold] at hcount
    cases hcount
  · have hall : ∀ {p : Yaml Number → Prop}, p preSchemaDocument →
        ∀ d ∈ written [preSchemaDocument], p d := by
      intro p hp d hd
      obtain rfl := List.mem_singleton.mp hd
      exact hp
    exact ⟨List.cons_ne_nil _ _, hall rfl, ⟨by decide, by decide⟩,
      .inr (.inr (hall ⟨rfl, rfl, rfl, rfl⟩))⟩

end MissionCompiler.Cli
