import MissionCompiler.Artifact.Stamped
import MissionCompiler.Cli.Concurrent
import MissionCompiler.Cli.Leftovers
import MissionCompiler.Cli.Progress

/-!
# Histories of runs

One run after another, over one output directory. From a directory without a rendered file every
rendered file stays the file of its writer, a mission and a renderer (`Accounted`): a run reaches
the files of its own mission and renderer and no others, and comes to the same when it is run
again.
-/

namespace MissionCompiler.Cli

open Lib Schema Names Compile Render Artifact Publish

variable {τ σ : Type}

/-! ## Writers -/

namespace Command

/-- The renderer of a command. -/
def renderer : Command → String
  | .renderArgo _ _ _ _ => rendererArgo
  | .renderKueue _ _ _ _ => rendererKueue

/-- Whether a command was given `--emit-priority-classes`. -/
def emitsPriorityClasses : Command → Bool
  | .renderArgo _ _ _ _ => false
  | .renderKueue _ options _ _ => options.emitPriorityClasses

variable {host : Host} {command other : Command} {planned : List (String × List Json)}

/-- The documents of a command are its mission's and its renderer's. -/
theorem planned_stamped (hclasses : command.emitsPriorityClasses = false)
    (h : command.planned host = .ok planned) : ∀ file ∈ planned, file.2 ≠ [] ∧
      ∀ doc ∈ file.2, (missionStamp host command.renderer command.plan.missionId).On doc := by
  cases command with
  | renderArgo plan options argoLint prune => exact plannedWorkflows_stamped host h
  | renderKueue plan options prune pruneGlobal =>
    intro file hfile
    obtain ⟨hne, hdocs | ⟨_, hemit, _⟩⟩ := plannedJobs_stamped host h file hfile
    · exact ⟨hne, hdocs⟩
    · exact absurd (hclasses.symm.trans hemit) Bool.false_ne_true

/-- A planned file has the name of a manifest. -/
theorem planned_isManifestName (hclasses : command.emitsPriorityClasses = false)
    (h : command.planned host = .ok planned) :
    ∀ file ∈ planned, isManifestName file.1 = true := by
  intro file hfile
  cases command with
  | renderArgo plan options argoLint prune =>
    obtain ⟨intent, hname, hfile⟩ := plannedWorkflows_name host h file hfile
    rw [hfile, argoFileName, sanitizeK8sName_workflowName host.sha hname]
    obtain ⟨c, hfirst, _⟩ := (rfc1123Label_workflowName host.sha hname).first
    apply isManifestName_yaml
    intro hnil
    rw [hnil] at hfirst
    cases hfirst
  | renderKueue plan options prune pruneGlobal =>
    have hyaml : ∀ front word : String, word.toList ≠ [] →
        isManifestName (front ++ word ++ ".yaml") = true := by
      intro front word hword
      apply isManifestName_yaml
      rw [String.toList_append]
      exact List.append_ne_nil_of_right_ne_nil _ hword
    rcases plannedJobs_name host h file hfile with hemit | ⟨intent, hname | hname⟩
    · exact absurd (hclasses.symm.trans hemit) Bool.false_ne_true
    · rw [hname]
      have h := hyaml (sanitizeK8sName intent.workflowName 63) "-kueue" (by decide)
      rwa [String.append_assoc] at h
    · rw [hname]
      have h := hyaml (sanitizeK8sName intent.workflowName 63) "-scheduler-fallback" (by decide)
      rwa [String.append_assoc] at h

/-- Commands that plan a file of one name are of one renderer. -/
theorem renderer_eq_of_name (hclasses : command.emitsPriorityClasses = false)
    (hclasses' : other.emitsPriorityClasses = false) {planned' : List (String × List Json)}
    (h : command.planned host = .ok planned) (h' : other.planned host = .ok planned')
    {file file' : String × List Json} (hfile : file ∈ planned) (hfile' : file' ∈ planned')
    (hname : file.1 = file'.1) : command.renderer = other.renderer := by
  -- A file of `render-argo` and one of `render-kueue`, whichever of the two commands is which.
  have hnever : ∀ {plan plan' : MissionPlan} {options : ArgoOptions} {options' : KueueOptions}
      {planned planned' : List (String × List Json)} {file file' : String × List Json},
      options'.emitPriorityClasses = false → plannedWorkflows host plan options = .ok planned →
      plannedJobs host plan' options' = .ok planned' → file ∈ planned → file' ∈ planned' →
      file.1 ≠ file'.1 := by
    intro plan plan' options options' planned planned' file file' hclasses h h' hfile hfile' hname
    obtain ⟨intent, hintent, hargo⟩ := plannedWorkflows_name host h file hfile
    rcases plannedJobs_name host h' file' hfile' with hemit | ⟨intent', hkueue | hkueue⟩
    · exact absurd (hclasses.symm.trans hemit) Bool.false_ne_true
    · exact (argoFileName_ne_kueue hintent intent').1 (hargo.symm.trans (hname.trans hkueue))
    · exact (argoFileName_ne_kueue hintent intent').2 (hargo.symm.trans (hname.trans hkueue))
  cases command with
  | renderArgo plan options argoLint prune =>
    cases other with
    | renderArgo plan' options' argoLint' prune' => rfl
    | renderKueue plan' options' prune' pruneGlobal' =>
      exact absurd hname (hnever hclasses' h h' hfile hfile')
  | renderKueue plan options prune pruneGlobal =>
    cases other with
    | renderArgo plan' options' argoLint' prune' =>
      exact absurd hname.symm (hnever hclasses h' h hfile' hfile)
    | renderKueue plan' options' prune' pruneGlobal' => rfl

end Command

section

variable [Scalars σ]

/-- A file of a mission and a renderer, by its labels and its owner id. -/
structure Belongs (format : Format τ σ) (host : Host) (missionId renderer : String)
    (entry : Entry τ) : Prop where
  labelled : isRenderedArtifact format entry = true
  owner : ∃ scope, artifactMission format entry = .ok ⟨.mission,
    some (missionFingerprint host.sha missionId), scope, .str missionId, .str renderer⟩

/-- A file of the run's own mission and renderer. -/
abbrev Command.Owns (format : Format τ σ) (host : Host) (command : Command) (entry : Entry τ) :
    Prop :=
  Belongs format host command.plan.missionId command.renderer entry

/-- A file a command plans under a name. -/
def Wrote (format : Format τ σ) (host : Host) (command : Command) (name : String)
    (entry : Entry τ) : Prop :=
  ∃ planned, command.planned host = .ok planned ∧ contentOf format planned name = some entry

variable {format : Format τ σ} {host : Host} {command : Command} {name : String}
  {entry : Entry τ}

theorem Belongs.unique {missionId missionId' renderer renderer' : String}
    (h : Belongs format host missionId renderer entry)
    (h' : Belongs format host missionId' renderer' entry) :
    missionId = missionId' ∧ renderer = renderer' := by
  obtain ⟨scope, howner⟩ := h.owner
  obtain ⟨scope', howner'⟩ := h'.owner
  have hsame := Except.ok.inj (howner.symm.trans howner')
  exact ⟨Yaml.str.inj (congrArg ArtifactMission.ownerId hsame),
    Yaml.str.inj (congrArg ArtifactMission.renderer hsame)⟩

omit [Scalars σ] in
theorem exists_of_contentOf {planned : List (String × List Json)}
    (h : contentOf format planned name = some entry) :
    ∃ docs, (name, docs) ∈ planned ∧ entry = .regular (format.dump docs) := by
  obtain ⟨docs, hdocs, hentry⟩ := Option.map_eq_some_iff.mp h
  obtain ⟨front, rest, rfl, _⟩ := List.lookup_eq_some_iff.mp hdocs
  exact ⟨docs, List.mem_append_right _ List.mem_cons_self, hentry.symm⟩

/-- How a file is classified that a command wrote. -/
structure Stamped (format : Format τ σ) (host : Host) (command : Command) (name : String)
    (text : τ) : Prop where
  manifest : isManifestName name = true
  labelled : isRenderedArtifact format (.regular text) = true
  owner : artifactMission format (.regular text) = .ok ⟨.mission,
    some (missionFingerprint host.sha command.plan.missionId), .str scopeMission,
    .str command.plan.missionId, .str command.renderer⟩

/-- A file is classified as its writer's. -/
theorem Wrote.stamped (hroundTrip : RoundTrips format)
    (hclasses : command.emitsPriorityClasses = false) (h : Wrote format host command name entry) :
    ∃ text, entry = .regular text ∧ Stamped format host command name text := by
  obtain ⟨planned, hplanned, hcontent⟩ := h
  obtain ⟨docs, hfile, rfl⟩ := exists_of_contentOf hcontent
  obtain ⟨hne, hdocs⟩ := Command.planned_stamped hclasses hplanned _ hfile
  have hmark : (missionStamp host command.renderer command.plan.missionId).mark =
      some (missionFingerprint host.sha command.plan.missionId) := rfl
  have hblank := pyBlank_missionFingerprint host.sha command.plan.missionId
  have hmanifest := Command.planned_isManifestName hclasses hplanned (name, docs) hfile
  have hlabelled := isRenderedArtifact_of_stamp (hroundTrip docs) hne hdocs
  have howner := artifactMission_of_stamp hmark hblank (hroundTrip docs) hne hdocs
  exact ⟨_, rfl, hmanifest, hlabelled, howner⟩

theorem Stamped.belongs {text : τ} (h : Stamped format host command name text) :
    command.Owns format host (.regular text) :=
  ⟨h.labelled, _, h.owner⟩

omit [Scalars σ] in
/-- The files of missions a command looks at are those of its own mission. -/
theorem Command.inScope_iff {found : ArtifactMission σ} (howner : found.owner = .mission) :
    inScope (command.reconciliation host) found = true ↔
      found.mission = some (missionFingerprint host.sha command.plan.missionId) ∧
        (found.ownerId = .null ∨ found.ownerId = .str command.plan.missionId) := by
  have hmissions : (command.reconciliation host).missions =
      [missionFingerprint host.sha command.plan.missionId] := by
    cases command <;> rfl
  have howners : (command.reconciliation host).owners = some [command.plan.missionId] := by
    cases command <;> rfl
  constructor
  · intro h
    obtain ⟨⟨m, hm, hmission⟩, hids⟩ := inScope_mission h howner
    rw [hmissions, List.mem_singleton] at hm
    refine ⟨hmission.trans (congrArg some hm), (hids _ howners).imp_right fun ⟨o, ho, hid⟩ => ?_⟩
    rw [hid, List.mem_singleton.mp ho]
  · intro ⟨hmission, hid⟩
    rw [inScope, howner, hmission, hmissions, howners]
    rcases hid with hid | hid <;> simp [hid, Yaml.isNull]

/-- What the filters of the scan let through is the file of the run's own mission and renderer,
and all of it. -/
theorem Stamped.chosen_iff {writer : Command} {text : τ} {current : List String}
    (h : Stamped format host writer name text) (hfresh : name ∉ current) :
    (∃ found, artifactMission format (.regular text) = .ok found ∧
      Chosen format (command.reconciliation host) current (name, .regular text) found) ↔
        command.Owns format host (.regular text) := by
  have hrenderer : (command.reconciliation host).renderer = command.renderer := by
    cases command <;> rfl
  constructor
  · intro ⟨found, hfound, hchosen⟩
    obtain rfl := Except.ok.inj (h.owner.symm.trans hfound)
    have hid : writer.plan.missionId = command.plan.missionId := by
      rcases ((Command.inScope_iff rfl).mp hchosen.scope).2 with hnull | hid
      · cases hnull
      · exact Yaml.str.inj hid
    have hwriter : writer.renderer = command.renderer :=
      (Yaml.str.inj hchosen.renderer).trans hrenderer
    refine ⟨h.labelled, .str scopeMission, ?_⟩
    rw [h.owner, hid, hwriter]
  · intro hown
    obtain ⟨scope, howner⟩ := hown.owner
    have hsame := Except.ok.inj (h.owner.symm.trans howner)
    refine ⟨_, howner, h.manifest, hfresh, h.labelled,
      (Command.inScope_iff rfl).mpr ⟨rfl, .inr rfl⟩, ?_,
      .inl rfl, fun hinstallation => ?_⟩
    · rw [hrenderer]
    · have hmission := congrArg ArtifactMission.scope hsame
      rw [hinstallation] at hmission
      exact absurd (Yaml.str.inj hmission) (by decide)

/-! ## One run -/

/-- Each file of an output directory has no label of ours, or is one that a command wrote. -/
def Accounted (format : Format τ σ) (host : Host) (past : List Command) (dir : Directory τ) :
    Prop :=
  ∀ name entry, dir.at? (.out, name) = some entry → isRenderedArtifact format entry = false ∨
    ∃ writer ∈ past, writer.emitsPriorityClasses = false ∧ Wrote format host writer name entry

/-- What a command that succeeds comes to. -/
structure Settled (format : Format τ σ) (host : Host) (command : Command)
    (planned : List (String × List Json)) (dir dir' : Directory τ) : Prop where
  writes : ∀ name ∈ planned.map Prod.fst,
    dir'.at? (.out, name) = contentOf format planned name
  removes : command.prune = true → ∀ name entry, name ∉ planned.map Prod.fst →
    dir.at? (.out, name) = some entry → command.Owns format host entry →
      dir'.at? (.out, name) = none
  keeps : ∀ name, name ∉ planned.map Prod.fst → (command.prune = true → ∀ entry,
    dir.at? (.out, name) = some entry → ¬ command.Owns format host entry) →
      dir'.at? (.out, name) = dir.at? (.out, name)

variable {c : Circumstances τ} {past : List Command} {dir dir' : Directory τ}
  {planned : List (String × List Json)}

theorem Accounted.stamped (h : Accounted format host past dir) (hroundTrip : RoundTrips format)
    (hat : dir.at? (.out, name) = some entry) (hlabelled : isRenderedArtifact format entry = true) :
    ∃ writer ∈ past, writer.emitsPriorityClasses = false ∧ Wrote format host writer name entry ∧
      ∃ text, entry = .regular text ∧ Stamped format host writer name text := by
  rcases h name entry hat with hunlabelled | ⟨writer, hwriter, hclasses, hwrote⟩
  · exact absurd (hunlabelled.symm.trans hlabelled) Bool.false_ne_true
  · exact ⟨writer, hwriter, hclasses, hwrote, hwrote.stamped hroundTrip hclasses⟩

theorem Accounted.classified (h : Accounted format host past dir)
    (hroundTrip : RoundTrips format) : Classified format (listing .out dir) := by
  intro file hfile hlabelled
  obtain ⟨_, _, _, _, text, htext, hstamped⟩ :=
    h.stamped hroundTrip (mem_listing.mp hfile) hlabelled
  rw [htext]
  exact ⟨_, hstamped.owner⟩

/-- The files the scan lets a command remove are its own. -/
theorem Accounted.chosen_iff (h : Accounted format host past dir) (hroundTrip : RoundTrips format)
    {current : List String} (hat : dir.at? (.out, name) = some entry) (hfresh : name ∉ current) :
    (∃ found, artifactMission format entry = .ok found ∧
      Chosen format (command.reconciliation host) current (name, entry) found) ↔
        command.Owns format host entry := by
  cases hlabelled : isRenderedArtifact format entry with
  | false =>
    constructor
    · intro ⟨_, _, hchosen⟩
      exact absurd (hlabelled.symm.trans hchosen.rendered) Bool.false_ne_true
    · intro hown
      exact absurd (hlabelled.symm.trans hown.labelled) Bool.false_ne_true
  | true =>
    obtain ⟨_, _, _, _, text, rfl, hstamped⟩ := h.stamped hroundTrip hat hlabelled
    exact hstamped.chosen_iff hfresh

/-- A scan over a directory that is accounted for succeeds, and removes what is the run's own. -/
theorem reportStale_settles (hquiet : c.Quiet) (hroundTrip : RoundTrips format)
    {rendered : Directory τ} (haccounted : Accounted format host past rendered)
    (hout : Overlaid format planned dir rendered) :
    ∃ report dir', reportStale c format (command.reconciliation host) command.prune
        (planned.map Prod.fst) rendered = (.ok report, dir') ∧
      Accounted format host past dir' ∧ Settled format host command planned dir dir' := by
  have htotal : ∃ report dir', reportStale c format (command.reconciliation host) command.prune
      (planned.map Prod.fst) rendered = (.ok report, dir') :=
    reportStale_total hquiet (haccounted.classified hroundTrip) command.prune
  obtain ⟨report, dir', hreport⟩ := htotal
  have hkept : ∀ name, name ∉ planned.map Prod.fst →
      rendered.at? (.out, name) = dir.at? (.out, name) := by
    intro name hname
    rw [hout name, contentOf_eq_none.mpr hname]
    rfl
  have hleft : Accounted format host past dir' := by
    intro name entry hat
    rcases reportStale_out hreport name with hsame | ⟨hgone, _⟩
    · exact haccounted name entry (hsame ▸ hat)
    · exact absurd (hgone.symm.trans hat) (Option.some_ne_none entry).symm
  refine ⟨report, dir', hreport, hleft, fun name hname => ?_,
    fun hprune name entry hname hat hown => ?_, fun name hname hnever => ?_⟩
  · obtain ⟨entry, hentry⟩ := contentOf_isSome format hname
    rw [reportStale_current hreport hname, hout name, hentry]
    rfl
  · obtain ⟨files, hfiles, hgone⟩ := reportStale_eq_ok hreport
    rw [← hkept name hname] at hat
    have hmine : (name, entry) ∈ files.mine := (mem_mine hfiles (nodup_listing .out rendered)).mpr
      ⟨mem_listing.mpr hat, (haccounted.chosen_iff hroundTrip hat hname).mpr hown⟩
    exact hgone hprune name (List.mem_map_of_mem hmine)
  · rcases reportStale_out hreport name with hsame | ⟨_, hprune, files, hfiles, hmine⟩
    · rw [hsame, hkept name hname]
    · obtain ⟨file, hfile, rfl⟩ := List.mem_map.mp hmine
      obtain ⟨hlisted, hchosen⟩ := (mem_mine hfiles (nodup_listing .out rendered)).mp hfile
      have hat := mem_listing.mp hlisted
      have hown := (haccounted.chosen_iff hroundTrip hat hname).mp hchosen
      rw [hkept file.1 hname] at hat
      exact absurd hown (hnever hprune file.2 hat)

omit [Scalars σ] in
/-- What a command plans over a directory that is accounted for is accounted for. -/
theorem Accounted.overlaid (h : Accounted format host past dir)
    (hclasses : command.emitsPriorityClasses = false)
    (hplanned : command.planned host = .ok planned)
    (hout : Overlaid format planned dir dir') :
    Accounted format host (past ++ [command]) dir' := by
  intro name entry hat
  rw [hout name] at hat
  cases hcontent : contentOf format planned name with
  | some written =>
    rw [hcontent] at hat
    obtain rfl : written = entry := Option.some.inj hat
    exact .inr ⟨command, List.mem_append_right _ (List.mem_singleton_self _), hclasses, planned,
      hplanned, hcontent⟩
  | none =>
    rw [hcontent] at hat
    refine (h name entry hat).imp_right fun ⟨writer, hwriter, hrest⟩ => ?_
    exact ⟨writer, List.mem_append_left _ hwriter, hrest⟩

/-- A fingerprint stands for one mission id of a list. -/
def Distinguishes (host : Host) (commands : List Command) : Prop :=
  Set.InjOn (missionFingerprint host.sha) {id | ∃ command ∈ commands, command.plan.missionId = id}

/-- The paths a command may write at are free, or hold files of its own. -/
theorem Fits.own (h : Fits format planned .out dir) (haccounted : Accounted format host past dir)
    (hroundTrip : RoundTrips format) (hids : Distinguishes host (past ++ [command]))
    (hclasses : command.emitsPriorityClasses = false)
    (hplanned : command.planned host = .ok planned) :
    ∀ name ∈ planned.map Prod.fst, ∀ entry, dir.at? (.out, name) = some entry →
      command.Owns format host entry := by
  intro name hname entry hat
  obtain ⟨file, hfile, rfl⟩ := List.mem_map.mp hname
  obtain ⟨hne, hdocs⟩ := Command.planned_stamped hclasses hplanned file hfile
  have hours : renderedMission (some (file.2.map Yaml.ofJson : List (Yaml σ))) =
      .ok (.str (missionFingerprint host.sha command.plan.missionId)) :=
    renderedMission_of_stamp hne hdocs
  have hreplaces := h file hfile
  rw [hat] at hreplaces
  cases hreplaces with
  | @mission text found m isRendered classified owner named ours =>
    obtain ⟨writer, hwriter, hwriterClasses, hwrote, text', htext, hstamped⟩ :=
      haccounted.stamped hroundTrip hat isRendered
    obtain rfl : text = text' := Entry.regular.inj htext
    have hmark : missionFingerprint host.sha writer.plan.missionId =
        missionFingerprint host.sha command.plan.missionId := by
      have hfound := Except.ok.inj (hstamped.owner.symm.trans classified)
      have htheirs := (congrArg ArtifactMission.mission hfound).trans named
      have hm := Yaml.str.inj (Except.ok.inj (ours.symm.trans hours))
      exact (Option.some.inj htheirs).trans hm
    have hid : writer.plan.missionId = command.plan.missionId :=
      hids ⟨writer, List.mem_append_left _ hwriter, rfl⟩
        ⟨command, List.mem_append_right _ (List.mem_singleton_self _), rfl⟩ hmark
    obtain ⟨planned', hplanned', hcontent⟩ := hwrote
    obtain ⟨docs, hfile', _⟩ := exists_of_contentOf hcontent
    have hrenderer : writer.renderer = command.renderer :=
      Command.renderer_eq_of_name hwriterClasses hclasses hplanned' hplanned hfile' hfile rfl
    have hown := hstamped.belongs
    rwa [Command.Owns, hid, hrenderer] at hown
  | installation isRendered classified owner ours =>
    cases ours.symm.trans hours

/-- A render that nothing opposes succeeds. -/
theorem Unopposed.run {lint : Option (Lint τ)}
    (h : Unopposed c format host command dir planned lint) (hquiet : c.Quiet)
    (hroundTrip : RoundTrips format) (hclasses : command.emitsPriorityClasses = false)
    (haccounted : Accounted format host past dir) :
    ∃ stale dir', command.run c format host dir = (.ok ⟨planned.map Prod.fst, lint, stale⟩, dir') ∧
      Accounted format host (past ++ [command]) dir' ∧
      Settled format host command planned dir dir' := by
  obtain ⟨rendered, hrender⟩ :=
    (Command.render_ok_iff hquiet hroundTrip).mpr ⟨planned, lint, rfl, h⟩
  obtain ⟨planned', hplanned, _, _, hout⟩ := Command.render_eq_ok hrender
  obtain rfl : planned = planned' := Except.ok.inj (h.plans.symm.trans hplanned)
  have hrendered := haccounted.overlaid hclasses h.plans hout
  have hscan : ∃ stale dir', reportStale c format (command.reconciliation host) command.prune
      (planned.map Prod.fst) rendered = (.ok stale, dir') ∧
      Accounted format host (past ++ [command]) dir' ∧
        Settled format host command planned dir dir' :=
    reportStale_settles hquiet hroundTrip hrendered hout
  obtain ⟨stale, dir', hstale, hsettled⟩ := hscan
  exact ⟨stale, dir', Session.bind_eq_ok.mpr ⟨_, rendered, hrender,
    Session.bind_eq_ok.mpr ⟨stale, dir', hstale, rfl⟩⟩, hsettled⟩

/-- A run over a directory that is accounted for is refused, and changes nothing, or nothing opposes
it. -/
theorem Command.run_cases (command : Command) (hquiet : c.Quiet) (hroundTrip : RoundTrips format) :
    (∃ stop dir', command.run c format host dir = (.error stop, dir') ∧ SameIn .out dir dir') ∨
    ∃ planned lint, Unopposed c format host command dir planned lint := by
  cases hrender : command.render c format host dir with
  | mk result rendered =>
    cases result with
    | error stop =>
      refine .inl ⟨stop, rendered, ?_, Command.render_error hquiet hrender⟩
      exact Session.bind_of_error _ hrender
    | ok names =>
      obtain ⟨planned, lint, _, hclear⟩ :=
        (Command.render_ok_iff hquiet hroundTrip).mp ⟨rendered, hrender⟩
      exact .inr ⟨planned, lint, hclear⟩

/-! ## The same run again -/

/-- What a prune has left is not the run's own, but for what the run wrote. -/
theorem Settled.left (h : Settled format host command planned dir dir')
    (hprune : command.prune = true) (hname : name ∉ planned.map Prod.fst)
    (hat : dir'.at? (.out, name) = some entry) : ¬ command.Owns format host entry := by
  intro hown
  by_cases hremoved : ∃ old, dir.at? (.out, name) = some old ∧ command.Owns format host old
  · obtain ⟨old, hold, hownOld⟩ := hremoved
    rw [h.removes hprune name old hname hold hownOld] at hat
    cases hat
  · have hkept := h.keeps name hname fun _ old hold hownOld => hremoved ⟨old, hold, hownOld⟩
    exact hremoved ⟨entry, hkept.symm.trans hat, hown⟩

/-- The planned files of a command may be written again. -/
theorem Settled.fits (h : Settled format host command planned dir dir')
    (hroundTrip : RoundTrips format) (hclasses : command.emitsPriorityClasses = false)
    (hplanned : command.planned host = .ok planned) (hdistinct : (planned.map Prod.fst).Nodup) :
    Fits format planned .out dir' := by
  intro file hfile
  have hcontent : contentOf format planned file.1 = some (.regular (format.dump file.2)) :=
    contentOf_of_mem hdistinct hfile
  have hwrote : Wrote format host command file.1 (.regular (format.dump file.2)) :=
    ⟨planned, hplanned, hcontent⟩
  obtain ⟨text, htext, hstamped⟩ := hwrote.stamped hroundTrip hclasses
  obtain ⟨hne, hdocs⟩ := Command.planned_stamped hclasses hplanned file hfile
  rw [h.writes file.1 (List.mem_map_of_mem hfile), hcontent, htext]
  exact .mission hstamped.labelled hstamped.owner rfl rfl (renderedMission_of_stamp hne hdocs)

/-- What the gate takes for a file of the run is the run's own. -/
theorem Accounted.ofRun_iff {plan : MissionPlan} (h : Accounted format host past dir)
    (hroundTrip : RoundTrips format) (hat : dir.at? (.out, name) = some entry) :
    (∃ found, OfRun format host plan (name, entry) found) ↔
      Belongs format host plan.missionId rendererArgo entry := by
  constructor
  · intro ⟨found, hrun⟩
    obtain ⟨_, _, _, _, text, rfl, hstamped⟩ := h.stamped hroundTrip hat hrun.rendered
    have hfound := Except.ok.inj (hstamped.owner.symm.trans hrun.attributed)
    refine ⟨hrun.rendered, found.scope, ?_⟩
    have hid : found.ownerId = .str plan.missionId := by
      refine hrun.ownerId.resolve_left fun hnull => ?_
      rw [← hfound] at hnull
      cases hnull
    rw [hrun.attributed, ← hrun.owner, ← hrun.mission, ← hid, ← hrun.renderer]
  · intro hown
    obtain ⟨scope, howner⟩ := hown.owner
    obtain ⟨_, _, _, _, text, rfl, hstamped⟩ := h.stamped hroundTrip hat hown.labelled
    exact ⟨_, hstamped.manifest, hown.labelled, howner, rfl, rfl, .inr rfl, rfl⟩

theorem leavingNames_total (run : Reconciliation) (prune : Bool) (current : List String)
    {files : List (String × Entry τ)} (h : Classified format files) :
    ∃ leaving, leavingNames format run prune current files = .ok leaving := by
  unfold leavingNames
  split
  · have hstale : ∃ stale, staleRenderedArtifacts format run current files = .ok stale :=
      staleRenderedArtifacts_total h
    obtain ⟨stale, hstale⟩ := hstale
    obtain ⟨parts, hparts⟩ := attributeStale_total hstale
    exact ⟨_, bind_eq_ok.mpr ⟨stale, hstale, bind_eq_ok.mpr ⟨parts, hparts, rfl⟩⟩⟩
  · exact ⟨[], rfl⟩

/-- The gate gives its linter the same over what the run came to. -/
theorem Lintable.again {plan : MissionPlan} {options : ArgoOptions} {prune : Bool}
    {linted : String → Option τ} (h : Lintable c format host plan prune planned dir linted)
    (hroundTrip : RoundTrips format) (haccounted : Accounted format host past dir)
    {later : List Command} (haccounted' : Accounted format host later dir')
    (hsettled : Settled format host (.renderArgo plan options true prune) planned dir dir') :
    Lintable c format host plan prune planned dir' linted := by
  obtain ⟨⟨leaving, hleaving, hlinted, hlinks⟩, hpasses⟩ := h
  have hnothing : leavingNames format (argoReconciliation host plan) prune (planned.map Prod.fst)
      (listing .out dir') = .ok [] := by
    obtain ⟨leaving', hleaving'⟩ := leavingNames_total (argoReconciliation host plan) prune
      (planned.map Prod.fst) (haccounted'.classified hroundTrip)
    have hnil : leaving' = [] := by
      refine List.eq_nil_iff_forall_not_mem.mpr fun name hname => ?_
      obtain ⟨hprune, hfresh, entry, found, hlisted, hrun⟩ :=
        (mem_leavingNames hleaving').mp hname
      have hat := mem_listing.mp hlisted
      exact hsettled.left hprune hfresh hat
        ((haccounted'.ofRun_iff hroundTrip hat).mp ⟨found, hrun⟩)
    rw [hleaving', hnil]
  -- A file the run did not write is still there exactly when it was not leaving.
  have hleft : ∀ name, name ∉ planned.map Prod.fst →
      name ∈ leaving ∧ dir'.at? (.out, name) = none ∨
        name ∉ leaving ∧ dir'.at? (.out, name) = dir.at? (.out, name) := by
    intro name hname
    by_cases hmem : name ∈ leaving
    · obtain ⟨hprune, _, entry, found, hlisted, hrun⟩ := (mem_leavingNames hleaving).mp hmem
      have hat := mem_listing.mp hlisted
      exact .inl ⟨hmem, hsettled.removes hprune name entry hname hat
        ((haccounted.ofRun_iff hroundTrip hat).mp ⟨found, hrun⟩)⟩
    · refine .inr ⟨hmem, hsettled.keeps name hname fun hprune entry hat hown => hmem ?_⟩
      obtain ⟨found, hrun⟩ := (haccounted.ofRun_iff hroundTrip hat).mpr hown
      exact (mem_leavingNames hleaving).mpr
        ⟨hprune, hname, entry, found, mem_listing.mpr hat, hrun⟩
  refine ⟨⟨[], hnothing, ?_, fun file hfile hfresh target => ?_⟩, hpasses⟩
  · rw [hlinted]
    funext name
    unfold lintedTexts
    cases hlookup : planned.lookup name with
    | some docs => rfl
    | none =>
      have hcontent : contentOf format planned name = none := by
        rw [contentOf, hlookup]
        rfl
      rcases hleft name (contentOf_eq_none.mp hcontent) with ⟨hmem, hnone⟩ | ⟨hmem, hsame⟩
      · rw [hnone]
        cases hat : dir.at? (.out, name) with
        | none => rfl
        | some entry => cases entry <;> simp [hmem]
      · rw [hsame]
        cases hat : dir.at? (.out, name) with
        | none => rfl
        | some entry => cases entry <;> simp [hmem]
  · obtain ⟨hlisted, hmanifest⟩ := List.mem_filter.mp hfile
    rw [List.append_nil] at hfresh
    have hat := mem_listing.mp hlisted
    rcases hleft file.1 hfresh with ⟨_, hnone⟩ | ⟨hmem, hsame⟩
    · rw [hnone] at hat
      cases hat
    · refine hlinks file (List.mem_filter.mpr ⟨mem_listing.mpr (hsame ▸ hat), hmanifest⟩) ?_ target
      exact fun hin => (List.mem_append.mp hin).elim hfresh hmem

/-- Nothing opposes the same render over what it came to. -/
theorem Unopposed.again {lint : Option (Lint τ)}
    (h : Unopposed c format host command dir planned lint) (hroundTrip : RoundTrips format)
    (hclasses : command.emitsPriorityClasses = false)
    (haccounted : Accounted format host past dir) {later : List Command}
    (haccounted' : Accounted format host later dir')
    (hsettled : Settled format host command planned dir dir') :
    Unopposed c format host command dir' planned lint where
  policy := h.policy
  plans := h.plans
  distinct := h.distinct
  fits := hsettled.fits hroundTrip hclasses h.plans h.distinct
  passes := by
    cases h.passes with
    | ungated locked => exact .ungated locked
    | kueue locked => exact .kueue locked
    | reconciled nothing locked => exact .reconciled nothing locked
    | linted something argoFound locked lintable =>
      exact .linted something argoFound locked
        (lintable.again hroundTrip haccounted haccounted' hsettled)

theorem Settled.congr {dir'' : Directory τ} (h : Settled format host command planned dir dir')
    (hsame : SameIn .out dir' dir'') : Settled format host command planned dir dir'' := by
  refine ⟨fun name hname => ?_, fun hprune name entry hname hat hown => ?_,
    fun name hname hnever => ?_⟩
  · rw [hsame name, h.writes name hname]
  · rw [hsame name, h.removes hprune name entry hname hat hown]
  · rw [hsame name, h.keeps name hname hnever]

/-- A command that settles over what it came to changes nothing. -/
theorem Settled.again {dir'' : Directory τ} (h : Settled format host command planned dir dir')
    (h' : Settled format host command planned dir' dir'') : SameIn .out dir' dir'' := by
  intro name
  by_cases hname : name ∈ planned.map Prod.fst
  · rw [h'.writes name hname, h.writes name hname]
  · exact h'.keeps name hname fun hprune entry hat => h.left hprune hname hat

/-! ## Histories -/

/-- How a run ends over an output directory, and what it leaves there. -/
def Invocation.over (format : Format τ σ) (host : Host) (run : Invocation τ)
    (dir : Directory τ) : Ending τ × Directory τ :=
  run.command.run run.circumstances format host (atTurn dir)

/-- The output directory after runs, one after another. -/
def afterAll (format : Format τ σ) (host : Host) (runs : List (Invocation τ))
    (dir : Directory τ) : Directory τ :=
  runs.foldl (fun dir run => (run.over format host dir).2) dir

/-- A run none of whose file calls fails, and that writes no priority classes. -/
structure Invocation.Ordinary (run : Invocation τ) : Prop where
  quiet : run.circumstances.Quiet
  noClasses : run.command.emitsPriorityClasses = false

/-- What a run does to an output directory. An entry is there after it exactly when it was before,
unless it is of the run's own mission and renderer. -/
structure Isolated (format : Format τ σ) (host : Host) (run : Invocation τ)
    (before : Directory τ) : Prop where
  unlabelled : ∀ name entry, isRenderedArtifact format entry = false →
    ((run.over format host before).2.at? (.out, name) = some entry ↔
      before.at? (.out, name) = some entry)
  others : ∀ missionId renderer,
    (missionId, renderer) ≠ (run.command.plan.missionId, run.command.renderer) →
    ∀ name entry, Belongs format host missionId renderer entry →
      ((run.over format host before).2.at? (.out, name) = some entry ↔
        before.at? (.out, name) = some entry)
  refused : ∀ stop, (run.over format host before).1 = .error stop →
    outOf (run.over format host before).2 = outOf before
  written : ∀ report, (run.over format host before).1 = .ok report →
    ∃ planned, run.command.planned host = .ok planned ∧ report.files = planned.map Prod.fst ∧
      ∀ name ∈ report.files, (run.over format host before).2.at? (.out, name) =
        contentOf format planned name
  pruned : ∀ report, (run.over format host before).1 = .ok report → run.command.prune = true →
    ∀ name, name ∈ report.files ↔ ∃ entry,
      (run.over format host before).2.at? (.out, name) = some entry ∧
        run.command.Owns format host entry
  repeated : ∀ report, (run.over format host before).1 = .ok report →
    ∃ report', (run.over format host (run.over format host before).2).1 = .ok report' ∧
      report'.files = report.files ∧ report'.lint = report.lint ∧
      outOf (run.over format host (run.over format host before).2).2 =
        outOf (run.over format host before).2

variable {run : Invocation τ}

omit [Scalars σ] in
theorem Accounted.congr (hsame : SameIn .out dir dir') (h : Accounted format host past dir) :
    Accounted format host past dir' := by
  intro name entry hat
  rw [hsame name] at hat
  exact h name entry hat

theorem sameIn_atTurn (dir : Directory τ) : SameIn .out dir (atTurn dir) := fun name =>
  (at?_beside _ dir (.out, name)).trans (if_pos rfl)

/-- A run that nothing opposes at its turn succeeds. -/
theorem Invocation.Ordinary.over_ok (h : run.Ordinary) (hroundTrip : RoundTrips format)
    (haccounted : Accounted format host past dir) {lint : Option (Lint τ)}
    (hclear : Unopposed run.circumstances format host run.command (atTurn dir) planned lint) :
    ∃ stale, (run.over format host dir).1 = .ok ⟨planned.map Prod.fst, lint, stale⟩ ∧
      Accounted format host (past ++ [run.command]) (run.over format host dir).2 ∧
      Settled format host run.command planned (atTurn dir) (run.over format host dir).2 := by
  obtain ⟨stale, dir', hrun, hafter⟩ :=
    hclear.run h.quiet hroundTrip h.noClasses (haccounted.congr (sameIn_atTurn dir))
  rw [Invocation.over, hrun]
  exact ⟨stale, rfl, hafter⟩

/-- A run is refused, and changes nothing, or nothing opposes it at its turn. -/
theorem Invocation.Ordinary.over_cases (h : run.Ordinary) (hroundTrip : RoundTrips format)
    (host : Host) (dir : Directory τ) :
    (∃ stop, (run.over format host dir).1 = .error stop ∧
      SameIn .out dir (run.over format host dir).2) ∨
    ∃ planned lint,
      Unopposed run.circumstances format host run.command (atTurn dir) planned lint := by
  refine (run.command.run_cases h.quiet hroundTrip).imp_left fun ⟨stop, dir', hrun, hsame⟩ => ?_
  rw [Invocation.over, hrun]
  exact ⟨stop, rfl, SameIn.trans _ _ _ (sameIn_atTurn dir) hsame⟩

/-- After a run, a directory is accounted for as before, with one command more. -/
theorem Accounted.over (haccounted : Accounted format host past dir) (h : run.Ordinary)
    (hroundTrip : RoundTrips format) :
    Accounted format host (past ++ [run.command]) (run.over format host dir).2 := by
  rcases h.over_cases hroundTrip host dir with ⟨_, _, hsame⟩ | ⟨planned, lint, hclear⟩
  · intro name entry hat
    refine (haccounted.congr hsame name entry hat).imp_right fun ⟨writer, hwriter, hwrote⟩ => ?_
    exact ⟨writer, List.mem_append_left _ hwriter, hwrote⟩
  · obtain ⟨_, _, hafter, _⟩ := h.over_ok hroundTrip haccounted hclear
    exact hafter

theorem Accounted.afterAll {runs : List (Invocation τ)}
    (haccounted : Accounted format host past dir) (h : ∀ run ∈ runs, run.Ordinary)
    (hroundTrip : RoundTrips format) :
    Accounted format host (past ++ runs.map Invocation.command)
      (afterAll format host runs dir) := by
  induction runs generalizing past dir with
  | nil =>
    rw [List.map_nil, List.append_nil]
    exact haccounted
  | cons run runs ih =>
    have hnext := haccounted.over (h run List.mem_cons_self) hroundTrip
    have hrest := ih hnext fun run hrun => h run (List.mem_cons_of_mem _ hrun)
    rw [List.append_assoc] at hrest
    exact hrest

theorem Settled.others (h : Settled format host command planned dir dir')
    (hplanned : command.planned host = .ok planned) (hroundTrip : RoundTrips format)
    (hclasses : command.emitsPriorityClasses = false)
    (hown : ∀ name ∈ planned.map Prod.fst, ∀ entry, dir.at? (.out, name) = some entry →
      command.Owns format host entry)
    (hother : ¬ command.Owns format host entry) :
    dir'.at? (.out, name) = some entry ↔ dir.at? (.out, name) = some entry := by
  by_cases hname : name ∈ planned.map Prod.fst
  · rw [h.writes name hname]
    constructor
    · intro hcontent
      have hwrote : Wrote format host command name entry := ⟨planned, hplanned, hcontent⟩
      obtain ⟨text, rfl, hstamped⟩ := hwrote.stamped hroundTrip hclasses
      exact absurd hstamped.belongs hother
    · intro hat
      exact absurd (hown name hname entry hat) hother
  · by_cases hremoved : command.prune = true ∧
        ∃ old, dir.at? (.out, name) = some old ∧ command.Owns format host old
    · obtain ⟨hprune, old, hold, hownOld⟩ := hremoved
      rw [h.removes hprune name old hname hold hownOld, hold]
      constructor
      · intro hnone
        cases hnone
      · intro heq
        exact absurd (Option.some.inj heq ▸ hownOld) hother
    · rw [h.keeps name hname fun hprune old hold hownOld => hremoved ⟨hprune, old, hold, hownOld⟩]

/-- A run over a directory that is accounted for reaches no files but its own, and can be
repeated. -/
theorem Accounted.isolated (haccounted : Accounted format host past dir) (h : run.Ordinary)
    (hroundTrip : RoundTrips format) (hids : Distinguishes host (past ++ [run.command])) :
    Isolated format host run dir := by
  have hturn := sameIn_atTurn dir
  rcases h.over_cases hroundTrip host dir with ⟨stop, hends, hsame⟩ | ⟨planned, lint, hclear⟩
  · have hnever : ∀ report, (run.over format host dir).1 ≠ .ok report := by
      intro report hok
      rw [hends] at hok
      cases hok
    refine ⟨fun name entry _ => ?_, fun _ _ _ name entry _ => ?_, fun _ _ => funext hsame,
      fun report hok => absurd hok (hnever report), fun report hok => absurd hok (hnever report),
      fun report hok => absurd hok (hnever report)⟩
    · rw [hsame name]
    · rw [hsame name]
  · obtain ⟨stale, hends, hafter, hsettled⟩ := h.over_ok hroundTrip haccounted hclear
    have hown := hclear.fits.own (haccounted.congr hturn) hroundTrip hids h.noClasses hclear.plans
    have hothers : ∀ name entry, ¬ run.command.Owns format host entry →
        ((run.over format host dir).2.at? (.out, name) = some entry ↔
          dir.at? (.out, name) = some entry) := by
      intro name entry hother
      rw [← hturn name]
      exact hsettled.others hclear.plans hroundTrip h.noClasses hown hother
    have hreport : ∀ report, (run.over format host dir).1 = .ok report →
        report = ⟨planned.map Prod.fst, lint, stale⟩ := by
      intro report hok
      exact Except.ok.inj (hok.symm.trans hends)
    refine ⟨fun name entry hunlabelled => hothers name entry fun hown => ?_,
      fun missionId renderer hne name entry hbelongs => hothers name entry fun hown => hne ?_,
      fun stop herror => ?_, fun report hok => ?_, fun report hok hprune name => ?_,
      fun report hok => ?_⟩
    · exact absurd (hunlabelled.symm.trans hown.labelled) Bool.false_ne_true
    · obtain ⟨hid, hrenderer⟩ := hbelongs.unique hown
      rw [hid, hrenderer]
    · cases hends.symm.trans herror
    · obtain rfl := hreport report hok
      exact ⟨planned, hclear.plans, rfl, hsettled.writes⟩
    · obtain rfl := hreport report hok
      constructor
      · intro hname
        obtain ⟨entry, hentry⟩ := contentOf_isSome format hname
        have hwrote : Wrote format host run.command name entry := ⟨planned, hclear.plans, hentry⟩
        obtain ⟨text, rfl, hstamped⟩ := hwrote.stamped hroundTrip h.noClasses
        exact ⟨_, (hsettled.writes name hname).trans hentry, hstamped.belongs⟩
      · intro ⟨entry, hat, hownEntry⟩
        by_contra hname
        exact hsettled.left hprune hname hat hownEntry
    · obtain rfl := hreport report hok
      have hturn' := sameIn_atTurn (run.over format host dir).2
      have hclear' := hclear.again hroundTrip h.noClasses (haccounted.congr hturn)
        (hafter.congr hturn') (hsettled.congr hturn')
      obtain ⟨stale', hends', _, hsettled'⟩ := h.over_ok hroundTrip hafter hclear'
      have hsame := SameIn.trans _ _ _ hturn' ((hsettled.congr hturn').again hsettled')
      exact ⟨_, hends', rfl, rfl, funext hsame⟩

/-- Runs of both renderers, one after another over an output directory that held no file of ours.
Every labelled file in it is of the mission and the renderer of a run, and the next run reaches
those of its own. -/
theorem histories_isolated (hroundTrip : RoundTrips format) {start : Directory τ}
    (hstart : ∀ name entry, start.at? (.out, name) = some entry →
      isRenderedArtifact format entry = false)
    {history : List (Invocation τ)} (hordinary : ∀ past ∈ history ++ [run], past.Ordinary)
    (hids : Distinguishes host ((history ++ [run]).map Invocation.command)) :
    (∀ name entry, (afterAll format host history start).at? (.out, name) = some entry →
      isRenderedArtifact format entry = true →
        ∃ past ∈ history, past.command.Owns format host entry) ∧
    Isolated format host run (afterAll format host history start) := by
  have hnone : Accounted format host [] start := fun name entry hat => .inl (hstart name entry hat)
  have haccounted := hnone.afterAll
    (fun past hpast => hordinary past (List.mem_append_left _ hpast)) hroundTrip
  constructor
  · intro name entry hat hlabelled
    obtain ⟨writer, hwriter, _, _, text, rfl, hstamped⟩ :=
      haccounted.stamped hroundTrip hat hlabelled
    obtain ⟨past, hpast, rfl⟩ := List.mem_map.mp hwriter
    exact ⟨past, hpast, hstamped.belongs⟩
  · have hrun := hordinary run (List.mem_append_right _ (List.mem_singleton_self run))
    rw [List.map_append] at hids
    exact haccounted.isolated hrun hroundTrip hids

end

/-! Renders of two missions, and a prune by one of them that renders nothing. -/

def foreignDocument : Yaml Number := .dict [(.str "kind", .str "ConfigMap")]

theorem otherMission_notBlank : pyBlank "m2" = false := by decide

def otherPlan : MissionPlan :=
  ⟨"m2", none, repeatedPlan.events, otherMission_notBlank, repeatedPlan.events_ne_nil⟩

def sampleHistory : List (Invocation (List (Yaml Number))) :=
  [⟨gatedPrune, sampleCircumstances⟩,
    ⟨.renderKueue otherPlan sampleKueueOptions false false, sampleCircumstances⟩]

def samplePrune : Invocation (List (Yaml Number)) := ⟨downlinkPrune, sampleCircumstances⟩

theorem sampleHistory_distinguishes :
    Distinguishes sampleHost ((sampleHistory ++ [samplePrune]).map Invocation.command) := by
  have hids : ∀ id, (∃ command ∈ (sampleHistory ++ [samplePrune]).map Invocation.command,
      command.plan.missionId = id) → id = "m1" ∨ id = "m2" := by
    rintro id ⟨command, hcommand, rfl⟩
    simp only [sampleHistory, List.map_cons, List.map_nil, List.cons_append, List.nil_append,
      List.mem_cons, List.not_mem_nil, or_false] at hcommand
    rcases hcommand with rfl | rfl | rfl
    · exact .inl rfl
    · exact .inr rfl
    · exact .inl rfl
  have hne : missionFingerprint sampleSha "m1" ≠ missionFingerprint sampleSha "m2" := by decide
  intro id hid id' hid' hsame
  rcases hids id hid with rfl | rfl <;> rcases hids id' hid' with rfl | rfl
  · rfl
  · exact absurd hsame hne
  · exact absurd hsame.symm hne
  · rfl

theorem samplePrune_isolated :
    Isolated sampleFormat sampleHost samplePrune
      (afterAll sampleFormat sampleHost sampleHistory (sampleDirectory foreignDocument)) := by
  have hstart : ∀ name entry, (sampleDirectory foreignDocument).at? (.out, name) = some entry →
      isRenderedArtifact sampleFormat entry = false := by
    intro name entry hat
    cases entry with
    | regular text =>
      rw [text_of_sampleDirectory hat]
      rfl
    | symlink target => rfl
    | other => rfl
  have hordinary : ∀ past ∈ sampleHistory ++ [samplePrune], past.Ordinary := by
    intro past hpast
    simp only [sampleHistory, List.cons_append, List.nil_append, List.mem_cons, List.not_mem_nil,
      or_false] at hpast
    rcases hpast with rfl | rfl | rfl <;> exact ⟨fun _ => rfl, rfl⟩
  exact (histories_isolated (fun _ => rfl) hstart hordinary sampleHistory_distinguishes).2

end MissionCompiler.Cli
