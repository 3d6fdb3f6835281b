import MissionCompiler.Cli.Leftovers
import MissionCompiler.Cli.LintGate
import MissionCompiler.Cli.Overwrite
import MissionCompiler.Cli.Views

/-!
# Where no file call fails

A command whose file calls all succeed has rendered exactly when nothing opposes it: not the
policy, not the preflights, not the gate (`Command.render_ok_iff`). Otherwise it leaves the output
directory as it was (`Command.render_error`). Its scan for stale files then comes to an end.
-/

namespace MissionCompiler.Publish

open Lib

variable {α : Type} {faults : Nat → Bool}

/-- One file of a publication that no call of fails. -/
theorem publishStep_total (hquiet : ∀ n, faults n = false) {name : String} {s : Publishing α}
    (hstaged : (s.fs.at? (.staging, name)).isSome = true) :
    ∃ displaced landed, displace faults name s = (true, displaced) ∧
      land faults name displaced = (true, landed) ∧
      ∀ n, n ≠ name → landed.fs.at? (.staging, n) = s.fs.at? (.staging, n) := by
  have hdisplace : ∃ displaced, displace faults name s = (true, displaced) ∧
      ∀ n, displaced.fs.at? (.staging, n) = s.fs.at? (.staging, n) := by
    unfold displace
    split
    · next hthere =>
      rcases s.fs.replace_cases faults (.out, name) (.backup, name) with
        ⟨_, hfault | hnone⟩ | ⟨a, fs, hcall, _, _, _, _, hother⟩
      · rw [hquiet] at hfault
        cases hfault
      · rw [hnone] at hthere
        cases hthere
      · rw [hcall]
        exact ⟨_, rfl, fun n => hother _ (by simp) (by simp)⟩
    · exact ⟨s, rfl, fun _ => rfl⟩
  obtain ⟨displaced, hdisplaced, hkept⟩ := hdisplace
  refine ⟨displaced, ?_⟩
  unfold land
  rcases displaced.fs.replace_cases faults (.staging, name) (.out, name) with
    ⟨_, hfault | hnone⟩ | ⟨a, fs, hcall, _, _, _, _, hother⟩
  · rw [hquiet] at hfault
    cases hfault
  · rw [hkept] at hnone
    rw [hnone] at hstaged
    cases hstaged
  · rw [hcall]
    refine ⟨_, hdisplaced, rfl, fun n hn => ?_⟩
    rw [← hkept n]
    exact hother _ (by simpa using hn) (by simp)

theorem publishLoop_total (hquiet : ∀ n, faults n = false) {names : List String}
    (hnodup : names.Nodup) {s : Publishing α}
    (hstaged : ∀ name ∈ names, (s.fs.at? (.staging, name)).isSome = true) :
    (publishLoop faults names s).1 = true := by
  induction names generalizing s with
  | nil => rfl
  | cons name names ih =>
    obtain ⟨hnot, hrest⟩ := List.nodup_cons.mp hnodup
    obtain ⟨displaced, landed, hdisplace, hland, hkept⟩ :=
      publishStep_total hquiet (hstaged name List.mem_cons_self)
    unfold publishLoop
    simp only [hdisplace, hland]
    refine ih hrest fun n hn => ?_
    rw [hkept n fun heq => hnot (heq ▸ hn)]
    exact hstaged n (List.mem_cons_of_mem name hn)

end MissionCompiler.Publish

namespace MissionCompiler.Cli

open Lib Schema Names Compile Render Artifact Publish

variable {τ σ : Type} {c : Circumstances τ} {format : Format τ σ} {dir dir' : Directory τ}

/-- No file call fails. -/
def Circumstances.Quiet (c : Circumstances τ) : Prop := ∀ n, c.faults n = false

def Command.plan : Command → MissionPlan
  | .renderArgo plan _ _ _ => plan
  | .renderKueue plan _ _ _ => plan

/-! ## Steps -/

theorem write_total (hquiet : c.Quiet) (p : Path) (entry : Entry τ) (dir : Directory τ) :
    ∃ dir', dir.write c.faults p entry = (true, dir') := by
  rcases dir.write_cases c.faults p entry with ⟨_, hfault⟩ | ⟨fs, hcall, _⟩
  · rw [hquiet] at hfault
    cases hfault
  · exact ⟨fs, hcall⟩

/-- The first of distinct files that are there can be removed, and the others are still there. -/
theorem unlink_total {faults : Nat → Bool} (hquiet : ∀ n, faults n = false) {place : Place}
    {name : String} {names : List String} (hnodup : (name :: names).Nodup)
    (hthere : ∀ n ∈ name :: names, (dir.at? (place, n)).isSome = true) :
    ∃ dir', dir.unlink faults (place, name) = (true, dir') ∧
      ∀ n ∈ names, (dir'.at? (place, n)).isSome = true := by
  have hfirst := hthere name List.mem_cons_self
  rcases dir.unlink_cases faults (place, name) with
    ⟨_, hfault | hnone⟩ | ⟨fs, hcall, _, _, hother⟩
  · rw [hquiet] at hfault
    cases hfault
  · rw [hnone] at hfirst
    cases hfirst
  · refine ⟨fs, hcall, fun n hn => ?_⟩
    have hne : (place, n) ≠ (place, name) := by
      rintro heq
      cases heq
      exact (List.nodup_cons.mp hnodup).1 hn
    rw [hother _ hne]
    exact hthere n (List.mem_cons_of_mem name hn)

theorem look_total (hquiet : c.Quiet) (report : Stop) (dir : Directory τ) :
    Session.call report (FileSystem.look c.faults) dir = (.ok (), dir.failed) := by
  rw [Session.call_eq_ok, FileSystem.look, hquiet]
  rfl

theorem writeAll_total (hquiet : c.Quiet) (format : Format τ σ) (place : Place)
    (planned : List (String × List Json)) (dir : Directory τ) :
    ∃ dir', writeAll c format place planned dir = (.ok (), dir') := by
  induction planned generalizing dir with
  | nil => exact ⟨dir, rfl⟩
  | cons file rest ih =>
    obtain ⟨t, hwrite⟩ := write_total hquiet (place, file.1) (.regular (format.dump file.2)) dir
    obtain ⟨dir', hrest⟩ := ih t
    exact ⟨dir', Session.bind_eq_ok.mpr ⟨(), t, Session.call_eq_ok.mpr hwrite, hrest⟩⟩

/-- Distinct files of the staging directory can be published. -/
theorem publishSet_total (hquiet : c.Quiet) {names : List String} (hnodup : names.Nodup)
    (hstaged : ∀ name ∈ names, (dir.at? (.staging, name)).isSome = true) :
    ∃ dir', publishSet c names dir = (.ok (), dir') := by
  have hloop : (publishLoop c.faults names ⟨dir, [], []⟩).1 = true :=
    publishLoop_total hquiet hnodup hstaged
  unfold publishSet publish publishKeeping
  cases hrun : publishLoop c.faults names ⟨dir, [], []⟩ with
  | mk ok s =>
    rw [hrun] at hloop
    subst hloop
    exact ⟨_, rfl⟩

/-- Distinct files of the output directory can be removed. -/
theorem removeAll_total {faults : Nat → Bool} (hquiet : ∀ n, faults n = false)
    {names : List String} (hnodup : names.Nodup)
    (hthere : ∀ name ∈ names, (dir.at? (.out, name)).isSome = true) (removed : List String) :
    ∃ gone dir', removeAll faults names removed dir = (.ok gone, dir') := by
  induction names generalizing dir removed with
  | nil => exact ⟨removed, dir, rfl⟩
  | cons name names ih =>
    obtain ⟨t, hunlink, hrest⟩ := unlink_total hquiet hnodup hthere
    obtain ⟨gone, dir', hgone⟩ := ih (List.nodup_cons.mp hnodup).2 hrest (removed ++ [name])
    exact ⟨gone, dir', Session.bind_eq_ok.mpr ⟨(), t, Session.call_eq_ok.mpr hunlink, hgone⟩⟩

/-- Distinct copies in the staging directory can be removed. -/
theorem dropCarried_total (hquiet : c.Quiet) {carried : List String} (hnodup : carried.Nodup)
    (hthere : ∀ name ∈ carried, (dir.at? (.staging, name)).isSome = true) :
    ∃ dir', dropCarried c carried dir = (.ok (), dir') := by
  induction carried generalizing dir with
  | nil => exact ⟨dir, rfl⟩
  | cons name carried ih =>
    obtain ⟨t, hunlink, hrest⟩ := unlink_total hquiet hnodup hthere
    obtain ⟨dir', hdropped⟩ := ih (List.nodup_cons.mp hnodup).2 hrest
    exact ⟨dir', Session.bind_eq_ok.mpr ⟨(), t, Session.call_eq_ok.mpr hunlink, hdropped⟩⟩

theorem carryManifests_total (hquiet : c.Quiet) {skipped : List String}
    {files : List (String × Entry τ)}
    (hlinks : ∀ file ∈ files, file.1 ∉ skipped → ∀ target, file.2 ≠ .symlink target)
    (dir : Directory τ) :
    ∃ carried dir', carryManifests c skipped files dir = (.ok carried, dir') := by
  induction files generalizing dir with
  | nil => exact ⟨[], dir, rfl⟩
  | cons file files ih =>
    have hhere : ∃ here t, carryUnless c skipped file.1 file.2 dir = (.ok here, t) := by
      unfold carryUnless
      split
      · exact ⟨[], dir, rfl⟩
      · next hskipped =>
        cases hentry : file.2 with
        | symlink target =>
          exact absurd hentry (hlinks file List.mem_cons_self (by simpa using hskipped) target)
        | other => exact ⟨[], dir, rfl⟩
        | regular text =>
          obtain ⟨t, hwrite⟩ := write_total hquiet (.staging, file.1) (.regular text) dir
          exact ⟨[file.1], t, Session.bind_eq_ok.mpr ⟨(), t, Session.call_eq_ok.mpr hwrite, rfl⟩⟩
    obtain ⟨here, t, hhere⟩ := hhere
    obtain ⟨carried, dir', hrest⟩ := ih (fun other hother => hlinks other
      (List.mem_cons_of_mem file hother)) t
    exact ⟨here ++ carried, dir', Session.bind_eq_ok.mpr ⟨here, t, hhere,
      Session.bind_eq_ok.mpr ⟨carried, dir', hrest, rfl⟩⟩⟩

/-! ## What the gate leaves alone -/

section

variable (place : Place)

theorem keeps_takeLockOrStop (lock : Lock) :
    Session.Keeps (SameIn place) (takeLockOrStop lock : Run τ Unit) :=
  Session.keeps_require (SameIn.refl place) _ _

theorem keeps_takeLock (lock : Lock) :
    Session.Keeps (SameIn place) (takeLock lock : Run τ Unit) :=
  Session.keeps_require (SameIn.refl place) _ _

end

theorem keeps_carryManifests (skipped : List String) (files : List (String × Entry τ)) :
    Session.Keeps (SameIn .out) (carryManifests c skipped files) := by
  induction files with
  | nil => exact Session.keeps_pure (SameIn.refl .out) []
  | cons file files ih =>
    refine Session.Keeps.bind SameIn.trans ?_ fun _ => ih.bind SameIn.trans fun _ =>
      Session.keeps_pure (SameIn.refl .out) _
    show Session.Keeps (SameIn .out) (carryUnless c skipped file.1 file.2)
    unfold carryUnless
    split
    · exact Session.keeps_pure (SameIn.refl .out) []
    · cases file.2 with
      | symlink target => exact Session.keeps_stop (SameIn.refl .out) _
      | other => exact Session.keeps_pure (SameIn.refl .out) []
      | regular text =>
        refine Session.Keeps.bind SameIn.trans ?_ fun _ => Session.keeps_pure (SameIn.refl .out) _
        exact Session.keeps_call (sameIn_write (by decide) file.1 _) _

theorem keeps_dropCarried (carried : List String) :
    Session.Keeps (SameIn .out) (dropCarried c carried : Run τ Unit) := by
  induction carried with
  | nil => exact Session.keeps_pure (SameIn.refl .out) ()
  | cons name carried ih =>
    refine Session.Keeps.bind SameIn.trans (Session.keeps_call (fun dir => ?_) _) fun _ => ih
    rcases dir.unlink_cases c.faults (.staging, name) with ⟨hcall, _⟩ | ⟨fs, hcall, _, _, hother⟩
    · rw [hcall]
      exact SameIn.refl .out dir
    · rw [hcall]
      exact fun n => hother (.out, n) (by simp)

theorem keeps_lintSnapshot (carried : List String) :
    Session.Keeps (SameIn .out) (lintSnapshot c carried) := by
  have hrefl : ∀ dir : Directory τ, SameIn .out dir dir := SameIn.refl .out
  refine (Session.keeps_reads hrefl _).bind SameIn.trans fun linted => ?_
  refine (Session.keeps_require hrefl _ _).bind SameIn.trans fun _ => ?_
  cases c.lint linted with
  | unavailable => exact Session.keeps_stop hrefl _
  | answered accepted output =>
    refine (keeps_dropCarried carried).bind SameIn.trans fun _ => ?_
    exact (Session.keeps_require hrefl _ _).bind SameIn.trans fun _ => Session.keeps_pure hrefl _

theorem keeps_snapshot [Scalars σ] (run : Reconciliation) (prune : Bool) (current : List String) :
    Session.Keeps (SameIn .out) (snapshot c format run prune current) := by
  have hrefl : ∀ dir : Directory τ, SameIn .out dir dir := SameIn.refl .out
  refine (Session.keeps_call (sameIn_look .out c.faults) _).bind SameIn.trans fun _ => ?_
  refine (Session.keeps_reads hrefl _).bind SameIn.trans fun files => ?_
  refine (Session.keeps_call (sameIn_look .out c.faults) _).bind SameIn.trans fun _ => ?_
  exact (Session.keeps_lift hrefl _ _).bind SameIn.trans fun leaving => keeps_carryManifests _ _

/-! ## The snapshot of the gate -/

/-- What the gate gives the linter over a directory: the planned files, and beside them the
manifests that are not leaving. -/
def lintedTexts (format : Format τ σ) (planned : List (String × List Json))
    (leaving : List String) (dir : Directory τ) (name : String) : Option τ :=
  match planned.lookup name, dir.at? (.out, name) with
  | some docs, _ => some (format.dump docs)
  | none, some (.regular text) =>
    if isManifestName name && !leaving.contains name then some text else none
  | none, _ => none

/-- A lint that passes. -/
def LintPasses (c : Circumstances τ) (linted : String → Option τ) : Prop :=
  (c.unreadable linted).isEmpty = true ∧
    ∃ accepted output, c.lint linted = .answered accepted output ∧ accepts accepted output = true

/-- The files of a render in its staging directory. -/
def Staged (format : Format τ σ) (planned : List (String × List Json)) (dir : Directory τ) :
    Prop :=
  ∀ name, dir.at? (.staging, name) = contentOf format planned name

variable {planned : List (String × List Json)} {leaving carried : List String}

theorem stagedTexts_snapped {snapped : Directory τ} (hstaged : Staged format planned dir)
    (hcarried : Carried (planned.map Prod.fst ++ leaving) (manifests dir) dir snapped carried)
    (hcopies : Copies (planned.map Prod.fst ++ leaving) (manifests dir) carried) :
    stagedTexts snapped = lintedTexts format planned leaving dir := by
  funext name
  unfold lintedTexts
  have hkept : name ∉ carried → stagedTexts snapped name = stagedTexts dir name := by
    intro hnot
    rw [stagedTexts, stagedTexts, hcarried.kept name hnot]
  cases hlookup : planned.lookup name with
  | some docs =>
    have hcontent : contentOf format planned name = some (.regular (format.dump docs)) := by
      rw [contentOf, hlookup]
      rfl
    have hname : name ∈ planned.map Prod.fst := by
      by_contra hnot
      rw [contentOf_eq_none.mpr hnot] at hcontent
      cases hcontent
    rw [hkept fun hmem => hcarried.fresh name hmem (List.mem_append_left _ hname), stagedTexts,
      hstaged name, hcontent]
  | none =>
    have hcontent : contentOf format planned name = none := by
      rw [contentOf, hlookup]
      rfl
    have hnone : stagedTexts dir name = none := by rw [stagedTexts, hstaged name, hcontent]
    have hname : name ∉ planned.map Prod.fst := contentOf_eq_none.mp hcontent
    -- A name is carried exactly when the second branch of the snapshot gives its text.
    by_cases hmem : name ∈ carried
    · obtain ⟨text, hfile⟩ := hcopies.regular name hmem
      have hfresh := hcarried.fresh name hmem
      have hleaving : name ∉ leaving := fun hin => hfresh (List.mem_append_right _ hin)
      obtain ⟨hlisted, hmanifest⟩ := List.mem_filter.mp hfile
      rw [stagedTexts, (hcarried.copied name text hfile hfresh).2, mem_listing.mp hlisted]
      simp [show isManifestName name = true from hmanifest, hleaving]
    · rw [hkept hmem, hnone]
      split
      · next heq => cases heq
      · next text _ hat =>
        split
        · next hcond =>
          simp only [Bool.and_eq_true, Bool.not_eq_true', List.contains_eq_mem,
            decide_eq_false_iff_not] at hcond
          have hskip : name ∉ planned.map Prod.fst ++ leaving := fun hin =>
            (List.mem_append.mp hin).elim hname hcond.2
          have hfile : (name, Entry.regular text) ∈ manifests dir :=
            List.mem_filter.mpr ⟨mem_listing.mpr hat, hcond.1⟩
          exact absurd (hcarried.copied name text hfile hskip).1 hmem
        · rfl
      · rfl

theorem lintSnapshot_passes {lint : Lint τ}
    (h : lintSnapshot c carried dir = (.ok lint, dir')) : LintPasses c (stagedTexts dir) := by
  obtain ⟨linted, t₁, hread, h₁⟩ := Session.bind_eq_ok.mp h
  obtain ⟨_, t₂, hreadable, h₂⟩ := Session.bind_eq_ok.mp h₁
  cases hread
  refine ⟨(Session.require_eq_ok.mp hreadable).1, ?_⟩
  cases hanswer : c.lint (stagedTexts dir) with
  | unavailable =>
    rw [hanswer] at h₂
    cases h₂
  | answered accepted output =>
    rw [hanswer] at h₂
    obtain ⟨_, t₃, _, h₃⟩ := Session.bind_eq_ok.mp h₂
    obtain ⟨_, t₄, haccepted, _⟩ := Session.bind_eq_ok.mp h₃
    exact ⟨accepted, output, rfl, (Session.require_eq_ok.mp haccepted).1⟩

theorem lintSnapshot_total (hquiet : c.Quiet) (hpasses : LintPasses c (stagedTexts dir))
    (hnodup : carried.Nodup)
    (hthere : ∀ name ∈ carried, (dir.at? (.staging, name)).isSome = true) :
    ∃ dir', lintSnapshot c carried dir = (.ok (.passed (stagedTexts dir)), dir') := by
  obtain ⟨hreadable, accepted, output, hanswer, haccepts⟩ := hpasses
  obtain ⟨dir', hdropped⟩ := dropCarried_total hquiet hnodup hthere
  refine ⟨dir', Session.bind_eq_ok.mpr ⟨stagedTexts dir, dir, rfl, Session.bind_eq_ok.mpr
    ⟨(), dir, Session.require_eq_ok.mpr ⟨hreadable, rfl⟩, ?_⟩⟩⟩
  rw [hanswer]
  exact Session.bind_eq_ok.mpr ⟨(), dir', hdropped, Session.bind_eq_ok.mpr
    ⟨(), dir', Session.require_eq_ok.mpr ⟨haccepts, rfl⟩, rfl⟩⟩

theorem contentOf_of_mem (hnodup : (planned.map Prod.fst).Nodup) {file : String × List Json}
    (hfile : file ∈ planned) :
    contentOf format planned file.1 = some (.regular (format.dump file.2)) := by
  have hlookup : planned.lookup file.1 = some file.2 := by
    induction planned with
    | nil => cases hfile
    | cons first rest ih =>
      obtain ⟨hnot, hrest⟩ := List.nodup_cons.mp hnodup
      rcases List.mem_cons.mp hfile with rfl | hfile
      · exact List.lookup_cons_self
      · have hne : file.1 ≠ first.1 := fun heq => hnot (heq ▸ List.mem_map_of_mem hfile)
        rw [List.lookup_cons, beq_eq_false_iff_ne.mpr hne]
        exact ih hrest hfile
  rw [contentOf, hlookup]
  rfl

section

variable [Scalars σ] {host : Host} {plan : MissionPlan} {prune : Bool}

/-- Dumping documents and loading them gives them back. -/
def RoundTrips (format : Format τ σ) : Prop :=
  ∀ docs, format.load (format.dump docs) = some (docs.map Yaml.ofJson)

/-- The planned files may be written over a directory. -/
def Fits (format : Format τ σ) (planned : List (String × List Json)) (place : Place)
    (dir : Directory τ) : Prop :=
  ∀ file ∈ planned, Replaces format (some (file.2.map Yaml.ofJson)) (dir.at? (place, file.1))

/-- What a preflight is given of the planned files. -/
def asLoaded (planned : List (String × List Json)) : List (String × Option (List (Yaml σ))) :=
  planned.map fun file => (file.1, some (file.2.map Yaml.ofJson))

theorem preflight_ok_iff {report : Exn → Stop} {place : Place}
    {documents : Directory τ → List (String × Option (List (Yaml σ)))}
    (hdocuments : documents dir = asLoaded planned) :
    preflight format report place documents dir = (.ok (), dir') ↔
      Fits format planned place dir ∧ dir' = dir := by
  have hfits : preflightWritable format (fun name => dir.at? (place, name)) (documents dir) =
      .ok () ↔ Fits format planned place dir := by
    rw [preflightWritable_eq_ok, hdocuments]
    simp only [asLoaded, List.forall_mem_map, Fits]
  constructor
  · intro h
    obtain ⟨hwritable, hsame⟩ := preflight_eq_ok h
    exact ⟨hfits.mp hwritable, hsame⟩
  · rintro ⟨h, hsame⟩
    refine Session.bind_eq_ok.mpr ⟨_, dir, rfl, ?_⟩
    exact Session.lift_eq_ok.mpr ⟨hfits.mpr h, hsame⟩

theorem stagedDocuments_eq (hroundTrip : RoundTrips format)
    (hnodup : (planned.map Prod.fst).Nodup)
    (hstaged : ∀ name ∈ planned.map Prod.fst,
      dir.at? (.staging, name) = contentOf format planned name) :
    stagedDocuments format (planned.map Prod.fst) dir = asLoaded planned := by
  rw [stagedDocuments, asLoaded, List.map_map]
  refine List.map_congr_left fun file hfile => ?_
  have hcontent : dir.at? (.staging, file.1) = some (.regular (format.dump file.2)) := by
    rw [hstaged file.1 (List.mem_map_of_mem hfile), contentOf_of_mem hnodup hfile]
  show (file.1, (stagedTexts dir file.1).bind format.load) = _
  rw [stagedTexts, hcontent]
  exact congrArg (Prod.mk file.1) (hroundTrip file.2)

/-- What the gate asks of the output directory: it can be snapshot, and the linter accepts the
snapshot. -/
structure Lintable (c : Circumstances τ) (format : Format τ σ) (host : Host) (plan : MissionPlan)
    (prune : Bool) (planned : List (String × List Json)) (dir : Directory τ)
    (linted : String → Option τ) : Prop where
  snapshot : ∃ leaving, leavingNames format (argoReconciliation host plan) prune
      (planned.map Prod.fst) (listing .out dir) = .ok leaving ∧
    linted = lintedTexts format planned leaving dir ∧
    ∀ file ∈ manifests dir, file.1 ∉ planned.map Prod.fst ++ leaving →
      ∀ target, file.2 ≠ .symlink target
  passes : LintPasses c linted

theorem Lintable.congr {linted : String → Option τ} (hsame : SameIn .out dir dir')
    (h : Lintable c format host plan prune planned dir linted) :
    Lintable c format host plan prune planned dir' linted := by
  obtain ⟨⟨leaving, hleaving, hlinted, hlinks⟩, hpasses⟩ := h
  have hlisting : listing .out dir' = listing .out dir := listing_sameIn hsame
  refine ⟨⟨leaving, ?_, ?_, ?_⟩, hpasses⟩
  · rw [hlisting]
    exact hleaving
  · rw [hlinted]
    funext name
    rw [lintedTexts, lintedTexts, hsame name]
  · rw [manifests, hlisting]
    exact hlinks

theorem Fits.congr {place : Place} (hsame : SameIn place dir dir')
    (h : Fits format planned place dir) : Fits format planned place dir' := by
  intro file hfile
  rw [hsame file.1]
  exact h file hfile

/-! ## Rendering -/

theorem writeIndividualWorkflows_ok_iff (hquiet : c.Quiet) {place : Place}
    {options : ArgoOptions} {names : List String} :
    (∃ dir', writeIndividualWorkflows c format host place plan options dir = (.ok names, dir')) ↔
      c.policy plan = .ok () ∧ ∃ planned, plannedWorkflows host plan options = .ok planned ∧
        names = planned.map Prod.fst ∧ names.Nodup ∧ Fits format planned place dir := by
  constructor
  · intro ⟨dir', h⟩
    obtain ⟨_, t₁, hpolicy, h₁⟩ := Session.bind_eq_ok.mp h
    obtain ⟨planned, t₂, hplan, h₂⟩ := Session.bind_eq_ok.mp h₁
    obtain ⟨_, t₃, hpaths, h₃⟩ := Session.bind_eq_ok.mp h₂
    obtain ⟨_, t₄, hpreflight, h₄⟩ := Session.bind_eq_ok.mp h₃
    obtain ⟨_, t₅, _, hend⟩ := Session.bind_eq_ok.mp h₄
    obtain ⟨hallowed, rfl⟩ := Session.lift_eq_ok.mp hpolicy
    obtain ⟨hplanned, rfl⟩ := Session.lift_eq_ok.mp hplan
    obtain ⟨hunique, rfl⟩ := Session.lift_eq_ok.mp hpaths
    obtain ⟨hfits, _⟩ := (preflight_ok_iff (show _ = asLoaded planned from rfl)).mp hpreflight
    obtain ⟨rfl, _⟩ := Session.pure_eq_ok.mp hend
    exact ⟨hallowed, planned, hplanned, rfl, nodup_of_preflightUnique hunique, hfits⟩
  · intro ⟨hpolicy, planned, hplanned, hnames, hnodup, hfits⟩
    subst hnames
    obtain ⟨dir', hwritten⟩ := writeAll_total hquiet format place planned dir
    refine ⟨dir', Session.bind_eq_ok.mpr ⟨(), dir, Session.lift_eq_ok.mpr ⟨hpolicy, rfl⟩,
      Session.bind_eq_ok.mpr ⟨planned, dir, Session.lift_eq_ok.mpr ⟨hplanned, rfl⟩, ?_⟩⟩⟩
    refine Session.bind_eq_ok.mpr ⟨(), dir, Session.lift_eq_ok.mpr
      ⟨preflightUnique_of_nodup hnodup, rfl⟩, Session.bind_eq_ok.mpr ⟨(), dir, ?_, ?_⟩⟩
    · exact (preflight_ok_iff (show _ = asLoaded planned from rfl)).mpr ⟨hfits, rfl⟩
    · exact Session.bind_eq_ok.mpr ⟨(), dir', hwritten, rfl⟩

/-- Workflows that cannot be written are refused before the first of them is. -/
theorem writeIndividualWorkflows_error (hquiet : c.Quiet) {place : Place}
    {options : ArgoOptions} {stop : Stop}
    (h : writeIndividualWorkflows c format host place plan options dir = (.error stop, dir')) :
    dir' = dir := by
  rcases Session.bind_eq_error.mp h with hpolicy | ⟨_, t₁, hpolicy, h₁⟩
  · exact (Session.lift_eq_error.mp hpolicy).2
  obtain ⟨_, rfl⟩ := Session.lift_eq_ok.mp hpolicy
  rcases Session.bind_eq_error.mp h₁ with hplan | ⟨planned, t₂, hplan, h₂⟩
  · exact (Session.lift_eq_error.mp hplan).2
  obtain ⟨_, rfl⟩ := Session.lift_eq_ok.mp hplan
  rcases Session.bind_eq_error.mp h₂ with hpaths | ⟨_, t₃, hpaths, h₃⟩
  · exact (Session.lift_eq_error.mp hpaths).2
  obtain ⟨_, rfl⟩ := Session.lift_eq_ok.mp hpaths
  rcases Session.bind_eq_error.mp h₃ with hpreflight | ⟨_, t₄, hpreflight, h₄⟩
  · rcases Session.bind_eq_error.mp hpreflight with hread | ⟨verdict, t, hread, hlift⟩
    · cases hread
    · cases hread
      exact (Session.lift_eq_error.mp hlift).2
  obtain ⟨t₅, hwritten⟩ := writeAll_total hquiet format place planned t₄
  rw [Session.bind_of_ok _ hwritten] at h₄
  cases h₄

theorem snapshot_total (hquiet : c.Quiet) {run : Reconciliation} {current : List String}
    (hleaving : leavingNames format run prune current (listing .out dir) = .ok leaving)
    (hlinks : ∀ file ∈ manifests dir, file.1 ∉ current ++ leaving →
      ∀ target, file.2 ≠ .symlink target) :
    ∃ carried dir', snapshot c format run prune current dir = (.ok carried, dir') := by
  obtain ⟨carried, dir', hcarried⟩ := carryManifests_total hquiet hlinks dir.failed.failed
  refine ⟨carried, dir', Session.bind_eq_ok.mpr ⟨(), dir.failed, look_total hquiet _ dir, ?_⟩⟩
  refine Session.bind_eq_ok.mpr ⟨listing .out dir, dir.failed, rfl, Session.bind_eq_ok.mpr
    ⟨(), dir.failed.failed, look_total hquiet _ dir.failed, ?_⟩⟩
  exact Session.bind_eq_ok.mpr ⟨leaving, dir.failed.failed,
    Session.lift_eq_ok.mpr ⟨hleaving, rfl⟩, hcarried⟩

/-- What a gate has done once its snapshot passed the lint, and before it publishes. -/
structure Linted (c : Circumstances τ) (format : Format τ σ) (host : Host) (plan : MissionPlan)
    (prune : Bool) (planned : List (String × List Json)) (dir : Directory τ)
    (linted : String → Option τ) (dir' : Directory τ) : Prop where
  lintable : Lintable c format host plan prune planned dir linted
  out : SameIn .out dir dir'
  staged : ∀ name ∈ planned.map Prod.fst,
    dir'.at? (.staging, name) = contentOf format planned name

theorem linted_of_ok (hstaged : Staged format planned dir) {snapped : Directory τ}
    {lint : Lint τ}
    (hsnapshot : snapshot c format (argoReconciliation host plan) prune (planned.map Prod.fst)
      dir = (.ok carried, snapped))
    (hlint : lintSnapshot c carried snapped = (.ok lint, dir')) :
    ∃ linted, lint = .passed linted ∧
      Linted c format host plan prune planned dir linted dir' := by
  obtain ⟨leaving, hleaving, hcarried, hcopies⟩ := snapshot_eq_ok hsnapshot
  have htexts := stagedTexts_snapped hstaged hcarried hcopies
  have hpasses := lintSnapshot_passes hlint
  obtain ⟨rfl, hout, hkept⟩ := lintSnapshot_eq_ok hlint
  rw [htexts] at hpasses ⊢
  refine ⟨_, rfl, ⟨⟨leaving, hleaving, rfl, hcopies.links⟩, hpasses⟩,
    SameIn.trans _ _ _ hcarried.out hout, fun name hname => ?_⟩
  have hnot : name ∉ carried := fun hmem =>
    hcarried.fresh name hmem (List.mem_append_left _ hname)
  rw [hkept name hnot, hcarried.kept name hnot, hstaged name]

theorem linted_total (hquiet : c.Quiet) {linted : String → Option τ}
    (hstaged : Staged format planned dir)
    (h : Lintable c format host plan prune planned dir linted) :
    ∃ carried snapped dir', snapshot c format (argoReconciliation host plan) prune
        (planned.map Prod.fst) dir = (.ok carried, snapped) ∧
      lintSnapshot c carried snapped = (.ok (.passed linted), dir') := by
  obtain ⟨⟨leaving, hleaving, rfl, hlinks⟩, hpasses⟩ := h
  obtain ⟨carried, snapped, hsnapshot⟩ := snapshot_total hquiet hleaving hlinks
  obtain ⟨leaving', hleaving', hcarried, hcopies⟩ := snapshot_eq_ok hsnapshot
  obtain rfl : leaving = leaving' := Except.ok.inj (hleaving.symm.trans hleaving')
  have htexts := stagedTexts_snapped hstaged hcarried hcopies
  have hthere : ∀ name ∈ carried, (snapped.at? (.staging, name)).isSome = true := by
    intro name hname
    obtain ⟨text, hfile⟩ := hcopies.regular name hname
    rw [(hcarried.copied name text hfile (hcarried.fresh name hname)).2]
    rfl
  rw [← htexts] at hpasses
  obtain ⟨dir', hlint⟩ := lintSnapshot_total hquiet hpasses
    ((nodup_manifests dir).sublist hcopies.sublist) hthere
  rw [htexts] at hlint
  exact ⟨carried, snapped, dir', hsnapshot, hlint⟩

theorem lintAndPublish_ok_iff (hquiet : c.Quiet) (hroundTrip : RoundTrips format)
    (hnodup : (planned.map Prod.fst).Nodup) (hstaged : Staged format planned dir)
    {rendered : Rendered τ} :
    (∃ dir', lintAndPublish c format host plan prune (planned.map Prod.fst) dir =
        (.ok rendered, dir')) ↔
      c.lock = .acquired ∧ ∃ linted, rendered = (planned.map Prod.fst, some (.passed linted)) ∧
        Lintable c format host plan prune planned dir linted ∧ Fits format planned .out dir := by
  constructor
  · intro ⟨dir', h⟩
    obtain ⟨_, t₁, hlock, h₁⟩ := Session.bind_eq_ok.mp h
    obtain ⟨carried, snapped, hsnapshot, h₂⟩ := Session.bind_eq_ok.mp h₁
    obtain ⟨lint, t₃, hlint, h₃⟩ := Session.bind_eq_ok.mp h₂
    obtain ⟨_, t₄, hpreflight, h₄⟩ := Session.bind_eq_ok.mp h₃
    obtain ⟨_, t₅, _, hend⟩ := Session.bind_eq_ok.mp h₄
    obtain ⟨hacquired, rfl⟩ := Session.require_eq_ok.mp hlock
    obtain ⟨linted, rfl, hlinted⟩ := linted_of_ok hstaged hsnapshot hlint
    obtain ⟨hfits, _⟩ := (preflight_ok_iff
      (stagedDocuments_eq hroundTrip hnodup hlinted.staged)).mp hpreflight
    obtain ⟨rfl, _⟩ := Session.pure_eq_ok.mp hend
    exact ⟨beq_iff_eq.mp hacquired, linted, rfl, hlinted.lintable,
      hfits.congr fun name => (hlinted.out name).symm⟩
  · intro ⟨hlock, linted, hrendered, hlintable, hfits⟩
    subst hrendered
    obtain ⟨carried, snapped, t, hsnapshot, hlint⟩ := linted_total hquiet hstaged hlintable
    obtain ⟨_, _, hlinted⟩ := linted_of_ok hstaged hsnapshot hlint
    have hthere : ∀ name ∈ planned.map Prod.fst, (t.at? (.staging, name)).isSome = true := by
      intro name hname
      obtain ⟨entry, hentry⟩ := contentOf_isSome format hname
      rw [hlinted.staged name hname, hentry]
      rfl
    obtain ⟨dir', hpublished⟩ := publishSet_total hquiet hnodup hthere
    refine ⟨dir', Session.bind_eq_ok.mpr ⟨(), dir,
      Session.require_eq_ok.mpr ⟨beq_iff_eq.mpr hlock, rfl⟩, Session.bind_eq_ok.mpr
        ⟨carried, snapped, hsnapshot, Session.bind_eq_ok.mpr ⟨_, t, hlint, ?_⟩⟩⟩⟩
    refine Session.bind_eq_ok.mpr ⟨(), t, ?_, Session.bind_eq_ok.mpr ⟨(), dir', hpublished, rfl⟩⟩
    exact (preflight_ok_iff (stagedDocuments_eq hroundTrip hnodup hlinted.staged)).mpr
      ⟨hfits.congr hlinted.out, rfl⟩

/-- A gate that refuses a render has changed nothing but its own directories. -/
theorem lintAndPublish_error (hquiet : c.Quiet) (hnodup : (planned.map Prod.fst).Nodup)
    (hstaged : Staged format planned dir) {stop : Stop}
    (h : lintAndPublish c format host plan prune (planned.map Prod.fst) dir =
      (.error stop, dir')) : SameIn .out dir dir' := by
  have hkeepsSnapshot : Session.Keeps (SameIn .out)
      (snapshot c format (argoReconciliation host plan) prune (planned.map Prod.fst)) :=
    keeps_snapshot _ prune _
  rcases Session.bind_eq_error.mp h with hlock | ⟨_, t₁, hlock, h₁⟩
  · exact (keeps_takeLockOrStop .out c.lock).of_eq hlock
  obtain rfl := takeLockOrStop_eq_ok hlock
  rcases Session.bind_eq_error.mp h₁ with hsnapshot | ⟨carried, snapped, hsnapshot, h₂⟩
  · exact hkeepsSnapshot.of_eq hsnapshot
  have hsnapped := hkeepsSnapshot.of_eq hsnapshot
  rcases Session.bind_eq_error.mp h₂ with hlint | ⟨lint, t₃, hlint, h₃⟩
  · exact SameIn.trans _ _ _ hsnapped ((keeps_lintSnapshot carried).of_eq hlint)
  obtain ⟨linted, _, hlinted⟩ := linted_of_ok hstaged hsnapshot hlint
  rcases Session.bind_eq_error.mp h₃ with hpreflight | ⟨_, t₄, hpreflight, h₄⟩
  · exact SameIn.trans _ _ _ hlinted.out ((keeps_preflight .out).of_eq hpreflight)
  obtain ⟨_, rfl⟩ := preflight_eq_ok hpreflight
  have hthere : ∀ name ∈ planned.map Prod.fst, (t₄.at? (.staging, name)).isSome = true := by
    intro name hname
    obtain ⟨entry, hentry⟩ := contentOf_isSome format hname
    rw [hlinted.staged name hname, hentry]
    rfl
  obtain ⟨t₅, hpublished⟩ := publishSet_total hquiet hnodup hthere
  rw [Session.bind_of_ok _ hpublished] at h₄
  cases h₄

/-! ## Commands -/

/-- What a command asks besides the policy and the preflight: the lock, and of the gate the
linter. -/
inductive Passes (c : Circumstances τ) (format : Format τ σ) (host : Host)
    (planned : List (String × List Json)) (dir : Directory τ) : Command → Option (Lint τ) → Prop
  | ungated {plan : MissionPlan} {options : ArgoOptions} {prune : Bool}
      (locked : c.lock ≠ .unavailable) :
      Passes c format host planned dir (.renderArgo plan options false prune) none
  | kueue {plan : MissionPlan} {options : KueueOptions} {prune pruneGlobal : Bool}
      (locked : c.lock ≠ .unavailable) :
      Passes c format host planned dir (.renderKueue plan options prune pruneGlobal) none
  | reconciled {plan : MissionPlan} {options : ArgoOptions} (nothing : planned = [])
      (locked : c.lock = .acquired) :
      Passes c format host planned dir (.renderArgo plan options true true) (some .notApplicable)
  | linted {plan : MissionPlan} {options : ArgoOptions} {prune : Bool}
      {linted : String → Option τ} (something : planned ≠ []) (argoFound : c.argoFound = true)
      (locked : c.lock = .acquired)
      (lintable : Lintable c format host plan prune planned dir linted) :
      Passes c format host planned dir (.renderArgo plan options true prune)
        (some (.passed linted))

/-- Nothing opposes a render. -/
structure Unopposed (c : Circumstances τ) (format : Format τ σ) (host : Host) (command : Command)
    (dir : Directory τ) (planned : List (String × List Json)) (lint : Option (Lint τ)) :
    Prop where
  policy : c.policy command.plan = .ok ()
  plans : command.planned host = .ok planned
  distinct : (planned.map Prod.fst).Nodup
  fits : Fits format planned .out dir
  passes : Passes c format host planned dir command lint

theorem gateRendered_ok_iff (hquiet : c.Quiet) (hroundTrip : RoundTrips format)
    (hnodup : (planned.map Prod.fst).Nodup) (hstaged : Staged format planned dir)
    {rendered : Rendered τ} {options : ArgoOptions} :
    (∃ dir', gateRendered c format host plan prune (planned.map Prod.fst) dir =
        (.ok rendered, dir')) ↔
      ∃ lint, rendered = (planned.map Prod.fst, lint) ∧ Fits format planned .out dir ∧
        Passes c format host planned dir (.renderArgo plan options true prune) lint := by
  have hempty : (planned.map Prod.fst).isEmpty = true ↔ planned = [] := by
    rw [List.isEmpty_iff, List.map_eq_nil_iff]
  unfold gateRendered
  constructor
  · intro ⟨dir', h⟩
    split at h
    · next hcond =>
      obtain ⟨hnothing, rfl⟩ := Bool.and_eq_true_iff.mp hcond
      obtain rfl := hempty.mp hnothing
      obtain ⟨_, t, hlock, hend⟩ := Session.bind_eq_ok.mp h
      obtain ⟨hrendered, _⟩ := Session.pure_eq_ok.mp hend
      exact ⟨_, hrendered, fun _ hfile => absurd hfile List.not_mem_nil,
        .reconciled rfl (beq_iff_eq.mp (Session.require_eq_ok.mp hlock).1)⟩
    · split at h
      · cases h
      · next hfound =>
        split at h
        · cases h
        · next hsome =>
          obtain ⟨hlocked, linted, hrendered, hlintable, hfits⟩ :=
            (lintAndPublish_ok_iff hquiet hroundTrip hnodup hstaged).mp ⟨dir', h⟩
          have hargo : c.argoFound = true := by simpa using hfound
          exact ⟨_, hrendered, hfits,
            .linted (fun hnil => hsome (hempty.mpr hnil)) hargo hlocked hlintable⟩
  · intro ⟨lint, hrendered, hfits, hpasses⟩
    subst hrendered
    cases hpasses with
    | reconciled nothing locked =>
      subst nothing
      refine ⟨dir, ?_⟩
      show reconcileEmptyRender c dir = _
      exact Session.bind_eq_ok.mpr
        ⟨(), dir, Session.require_eq_ok.mpr ⟨beq_iff_eq.mpr locked, rfl⟩, rfl⟩
    | linted something argoFound locked lintable =>
      have hsome : (planned.map Prod.fst).isEmpty = false :=
        Bool.eq_false_iff.mpr fun hnil => something (hempty.mp hnil)
      obtain ⟨dir', hdone⟩ := (lintAndPublish_ok_iff hquiet hroundTrip hnodup hstaged).mpr
        ⟨locked, _, rfl, lintable, hfits⟩
      refine ⟨dir', ?_⟩
      rw [hsome, argoFound]
      exact hdone

/-- The staging directory and the output directory before a gate looks at its render. -/
theorem staged_of_writes {options : ArgoOptions} {names : List String} {made : Directory τ}
    (hmake : makeStaging dir = (.ok (), made))
    (hwritten : writeIndividualWorkflows c format host .staging plan options made =
      (.ok names, dir')) :
    ∃ planned, plannedWorkflows host plan options = .ok planned ∧ names = planned.map Prod.fst ∧
      Staged format planned dir' ∧ SameIn .out dir dir' := by
  obtain ⟨hempty, hsame⟩ := makeStaging_eq_ok hmake
  obtain ⟨planned, hplanned, hnames, _, hcontent⟩ := writeIndividualWorkflows_eq_ok hwritten
  have hkeeps : Session.Keeps (SameIn .out)
      (writeIndividualWorkflows c format host .staging plan options) :=
    keeps_writeIndividualWorkflows (by decide) options
  refine ⟨planned, hplanned, hnames, fun name => ?_,
    SameIn.trans _ _ _ hsame (hkeeps.of_eq hwritten)⟩
  rw [hcontent name, hempty name, Option.or_none]

theorem Passes.congr {command : Command} {lint : Option (Lint τ)} (hsame : SameIn .out dir dir')
    (h : Passes c format host planned dir command lint) :
    Passes c format host planned dir' command lint := by
  cases h with
  | ungated locked => exact .ungated locked
  | kueue locked => exact .kueue locked
  | reconciled nothing locked => exact .reconciled nothing locked
  | linted something argoFound locked lintable =>
    exact .linted something argoFound locked (lintable.congr hsame)

theorem SameIn.symm {place : Place} (h : SameIn place dir dir') : SameIn place dir' dir :=
  fun name => (h name).symm

theorem renderGated_ok_iff (hquiet : c.Quiet) (hroundTrip : RoundTrips format)
    {options : ArgoOptions} {rendered : Rendered τ} :
    (∃ dir', renderGated c format host plan options prune dir = (.ok rendered, dir')) ↔
      ∃ planned lint, rendered = (planned.map Prod.fst, lint) ∧
        Unopposed c format host (.renderArgo plan options true prune) dir planned lint := by
  constructor
  · intro ⟨dir', h⟩
    obtain ⟨_, made, hmake, h₁⟩ := Session.bind_eq_ok.mp h
    obtain ⟨names, staged, hwritten, h₂⟩ := Session.bind_eq_ok.mp h₁
    obtain ⟨planned, hplanned, rfl, hstaged, hsame⟩ := staged_of_writes hmake hwritten
    obtain ⟨hpolicy, _, _, _, hnodup, _⟩ :=
      (writeIndividualWorkflows_ok_iff hquiet).mp ⟨staged, hwritten⟩
    obtain ⟨lint, hrendered, hfits, hpasses⟩ :=
      (gateRendered_ok_iff hquiet hroundTrip hnodup hstaged).mp ⟨dir', h₂⟩
    exact ⟨planned, lint, hrendered, hpolicy, hplanned, hnodup, hfits.congr hsame.symm,
      hpasses.congr hsame.symm⟩
  · intro ⟨planned, lint, hrendered, hclear⟩
    have hmake : makeStaging dir = (.ok (), dir.without fun p => p.1 == .staging) := rfl
    obtain ⟨hempty, _⟩ := makeStaging_eq_ok hmake
    have hfree : Fits format planned .staging (dir.without fun p => p.1 == .staging) := by
      intro file _
      rw [hempty file.1]
      exact .free
    obtain ⟨staged, hwritten⟩ := (writeIndividualWorkflows_ok_iff hquiet).mpr
      ⟨hclear.policy, planned, hclear.plans, rfl, hclear.distinct, hfree⟩
    obtain ⟨planned', hplanned', _, hstaged, hsame⟩ := staged_of_writes hmake hwritten
    obtain rfl : planned = planned' := Except.ok.inj (hclear.plans.symm.trans hplanned')
    obtain ⟨dir', hgate⟩ := (gateRendered_ok_iff hquiet hroundTrip hclear.distinct hstaged).mpr
      ⟨lint, hrendered, hclear.fits.congr hsame, hclear.passes.congr hsame⟩
    exact ⟨dir', Session.bind_eq_ok.mpr ⟨(), _, hmake,
      Session.bind_eq_ok.mpr ⟨_, staged, hwritten, hgate⟩⟩⟩

theorem renderGated_error (hquiet : c.Quiet) {options : ArgoOptions} {stop : Stop}
    (h : renderGated c format host plan options prune dir = (.error stop, dir')) :
    SameIn .out dir dir' := by
  rcases Session.bind_eq_error.mp h with hmake | ⟨_, made, hmake, h₁⟩
  · cases hmake
  rcases Session.bind_eq_error.mp h₁ with hwritten | ⟨names, staged, hwritten, h₂⟩
  · rw [writeIndividualWorkflows_error hquiet hwritten]
    exact (makeStaging_eq_ok hmake).2
  obtain ⟨planned, _, rfl, hstaged, hsame⟩ := staged_of_writes hmake hwritten
  obtain ⟨_, _, _, _, hnodup, _⟩ :=
    (writeIndividualWorkflows_ok_iff hquiet).mp ⟨staged, hwritten⟩
  refine SameIn.trans _ _ _ hsame ?_
  unfold gateRendered at h₂
  split at h₂
  · rcases Session.bind_eq_error.mp h₂ with hlock | ⟨_, t, _, hend⟩
    · exact (keeps_takeLockOrStop .out c.lock).of_eq hlock
    · cases hend
  · split at h₂
    · cases h₂
      exact SameIn.refl .out _
    · split at h₂
      · cases h₂
        exact SameIn.refl .out _
      · exact lintAndPublish_error hquiet hnodup hstaged h₂

theorem renderUngated_ok_iff (hquiet : c.Quiet) {options : ArgoOptions} {rendered : Rendered τ} :
    (∃ dir', renderUngated c format host plan options dir = (.ok rendered, dir')) ↔
      ∃ planned lint, rendered = (planned.map Prod.fst, lint) ∧
        Unopposed c format host (.renderArgo plan options false prune) dir planned lint := by
  constructor
  · intro ⟨dir', h⟩
    obtain ⟨_, t₁, hlock, h₁⟩ := Session.bind_eq_ok.mp h
    obtain ⟨names, t₂, hwritten, hend⟩ := Session.bind_eq_ok.mp h₁
    obtain ⟨hlocked, rfl⟩ := Session.require_eq_ok.mp hlock
    obtain ⟨hpolicy, planned, hplanned, rfl, hnodup, hfits⟩ :=
      (writeIndividualWorkflows_ok_iff hquiet).mp ⟨t₂, hwritten⟩
    obtain ⟨hrendered, _⟩ := Session.pure_eq_ok.mp hend
    exact ⟨planned, none, hrendered, hpolicy, hplanned, hnodup, hfits,
      .ungated (bne_iff_ne.mp hlocked)⟩
  · intro ⟨planned, lint, hrendered, hclear⟩
    obtain ⟨dir', hwritten⟩ := (writeIndividualWorkflows_ok_iff hquiet).mpr
      ⟨hclear.policy, planned, hclear.plans, rfl, hclear.distinct, hclear.fits⟩
    cases hclear.passes with
    | ungated locked =>
      subst hrendered
      exact ⟨dir', Session.bind_eq_ok.mpr ⟨(), dir, Session.require_eq_ok.mpr
        ⟨bne_iff_ne.mpr locked, rfl⟩, Session.bind_eq_ok.mpr ⟨_, dir', hwritten, rfl⟩⟩⟩

theorem renderUngated_error (hquiet : c.Quiet) {options : ArgoOptions} {stop : Stop}
    (h : renderUngated c format host plan options dir = (.error stop, dir')) :
    SameIn .out dir dir' := by
  rcases Session.bind_eq_error.mp h with hlock | ⟨_, t₁, hlock, h₁⟩
  · exact (keeps_takeLock .out c.lock).of_eq hlock
  obtain rfl := takeLock_eq_ok hlock
  rcases Session.bind_eq_error.mp h₁ with hwritten | ⟨names, t₂, _, hend⟩
  · rw [writeIndividualWorkflows_error hquiet hwritten]
    exact SameIn.refl .out _
  · cases hend

omit [Scalars σ] in
/-- Distinct jobs can be staged and published. -/
theorem stagedJobs_total (hquiet : c.Quiet) (format : Format τ σ)
    (hnodup : (planned.map Prod.fst).Nodup) (dir : Directory τ) :
    ∃ staged dir', writeAll c format .staging planned (dir.without fun p => p.1 == .staging) =
        (.ok (), staged) ∧ publishSet c (planned.map Prod.fst) staged = (.ok (), dir') := by
  obtain ⟨staged, hwritten⟩ :=
    writeAll_total hquiet format .staging planned (dir.without fun p => p.1 == .staging)
  have hthere : ∀ name ∈ planned.map Prod.fst, (staged.at? (.staging, name)).isSome = true := by
    intro name hname
    obtain ⟨entry, hentry⟩ := contentOf_isSome format hname
    rw [writeAll_eq_ok hnodup hwritten name, hentry]
    rfl
  obtain ⟨dir', hpublished⟩ := publishSet_total hquiet hnodup hthere
  exact ⟨staged, dir', hwritten, hpublished⟩

theorem renderKueue_ok_iff (hquiet : c.Quiet) (hroundTrip : RoundTrips format)
    {options : KueueOptions} {pruneGlobal : Bool} {rendered : Rendered τ} :
    (∃ dir', Cli.renderKueue c format host plan options dir = (.ok rendered, dir')) ↔
      ∃ planned lint, rendered = (planned.map Prod.fst, lint) ∧
        Unopposed c format host (.renderKueue plan options prune pruneGlobal) dir planned
          lint := by
  have hloaded : ∀ planned : List (String × List Json),
      (planned.map fun file => (file.1, format.load (format.dump file.2))) = asLoaded planned := by
    intro planned
    simp only [asLoaded, hroundTrip _]
  constructor
  · intro ⟨dir', h⟩
    obtain ⟨_, t₁, hpolicy, h₁⟩ := Session.bind_eq_ok.mp h
    obtain ⟨planned, t₂, hplanned, h₂⟩ := Session.bind_eq_ok.mp h₁
    obtain ⟨_, t₃, hlock, h₃⟩ := Session.bind_eq_ok.mp h₂
    obtain ⟨_, t₄, hpaths, h₄⟩ := Session.bind_eq_ok.mp h₃
    obtain ⟨_, t₅, hpreflight, h₅⟩ := Session.bind_eq_ok.mp h₄
    obtain ⟨_, t₆, _, h₆⟩ := Session.bind_eq_ok.mp h₅
    obtain ⟨_, t₇, _, h₇⟩ := Session.bind_eq_ok.mp h₆
    obtain ⟨_, t₈, _, hend⟩ := Session.bind_eq_ok.mp h₇
    obtain ⟨hallowed, rfl⟩ := Session.lift_eq_ok.mp hpolicy
    obtain ⟨hjobs, rfl⟩ := Session.lift_eq_ok.mp hplanned
    obtain ⟨hlocked, rfl⟩ := Session.require_eq_ok.mp hlock
    obtain ⟨hunique, rfl⟩ := Session.lift_eq_ok.mp hpaths
    obtain ⟨hfits, _⟩ := (preflight_ok_iff (hloaded planned)).mp hpreflight
    obtain ⟨hrendered, _⟩ := Session.pure_eq_ok.mp hend
    exact ⟨planned, none, hrendered, hallowed, hjobs, nodup_of_preflightUnique hunique, hfits,
      .kueue (bne_iff_ne.mp hlocked)⟩
  · intro ⟨planned, lint, hrendered, hclear⟩
    obtain ⟨staged, dir', hwritten, hpublished⟩ :=
      stagedJobs_total hquiet format hclear.distinct dir
    cases hclear.passes with
    | kueue locked =>
      subst hrendered
      refine ⟨dir', Session.bind_eq_ok.mpr ⟨(), dir, Session.lift_eq_ok.mpr ⟨hclear.policy, rfl⟩,
        Session.bind_eq_ok.mpr ⟨planned, dir, Session.lift_eq_ok.mpr ⟨hclear.plans, rfl⟩, ?_⟩⟩⟩
      refine Session.bind_eq_ok.mpr ⟨(), dir, Session.require_eq_ok.mpr
        ⟨bne_iff_ne.mpr locked, rfl⟩, Session.bind_eq_ok.mpr ⟨(), dir, Session.lift_eq_ok.mpr
          ⟨preflightUnique_of_nodup hclear.distinct, rfl⟩, ?_⟩⟩
      refine Session.bind_eq_ok.mpr ⟨(), dir, (preflight_ok_iff (hloaded planned)).mpr
        ⟨hclear.fits, rfl⟩, Session.bind_eq_ok.mpr ⟨(), _, rfl, ?_⟩⟩
      exact Session.bind_eq_ok.mpr ⟨(), staged, hwritten,
        Session.bind_eq_ok.mpr ⟨(), dir', hpublished, rfl⟩⟩

theorem renderKueue_error (hquiet : c.Quiet) {options : KueueOptions} {stop : Stop}
    (h : Cli.renderKueue c format host plan options dir = (.error stop, dir')) :
    SameIn .out dir dir' := by
  rcases Session.bind_eq_error.mp h with hpolicy | ⟨_, t₁, hpolicy, h₁⟩
  · rw [(Session.lift_eq_error.mp hpolicy).2]
    exact SameIn.refl .out _
  obtain ⟨_, rfl⟩ := Session.lift_eq_ok.mp hpolicy
  rcases Session.bind_eq_error.mp h₁ with hplanned | ⟨planned, t₂, hplanned, h₂⟩
  · rw [(Session.lift_eq_error.mp hplanned).2]
    exact SameIn.refl .out _
  obtain ⟨_, rfl⟩ := Session.lift_eq_ok.mp hplanned
  rcases Session.bind_eq_error.mp h₂ with hlock | ⟨_, t₃, hlock, h₃⟩
  · exact (keeps_takeLock .out c.lock).of_eq hlock
  obtain rfl := takeLock_eq_ok hlock
  rcases Session.bind_eq_error.mp h₃ with hpaths | ⟨_, t₄, hpaths, h₄⟩
  · rw [(Session.lift_eq_error.mp hpaths).2]
    exact SameIn.refl .out _
  obtain ⟨hunique, rfl⟩ := Session.lift_eq_ok.mp hpaths
  rcases Session.bind_eq_error.mp h₄ with hpreflight | ⟨_, t₅, hpreflight, h₅⟩
  · exact (keeps_preflight .out).of_eq hpreflight
  obtain ⟨_, rfl⟩ := preflight_eq_ok hpreflight
  obtain ⟨staged, final, hwritten, hpublished⟩ :=
    stagedJobs_total hquiet format (nodup_of_preflightUnique hunique) t₅
  have hmake : makeStaging t₅ = (.ok (), t₅.without fun p => p.1 == .staging) := rfl
  rw [Session.bind_of_ok _ hmake, Session.bind_of_ok _ hwritten,
    Session.bind_of_ok _ hpublished] at h₅
  cases h₅

/-- A command renders exactly when nothing opposes it. -/
theorem Command.render_ok_iff (hquiet : c.Quiet) (hroundTrip : RoundTrips format)
    {command : Command} {rendered : Rendered τ} :
    (∃ dir', command.render c format host dir = (.ok rendered, dir')) ↔
      ∃ planned lint, rendered = (planned.map Prod.fst, lint) ∧
        Unopposed c format host command dir planned lint := by
  cases command with
  | renderArgo plan options argoLint prune =>
    cases argoLint with
    | true => exact renderGated_ok_iff hquiet hroundTrip
    | false => exact renderUngated_ok_iff hquiet
  | renderKueue plan options prune pruneGlobal => exact renderKueue_ok_iff hquiet hroundTrip

/-- A command that does not render leaves the output directory as it was. -/
theorem Command.render_error (hquiet : c.Quiet) {command : Command} {stop : Stop}
    (h : command.render c format host dir = (.error stop, dir')) : SameIn .out dir dir' := by
  cases command with
  | renderArgo plan options argoLint prune =>
    cases argoLint with
    | true => exact renderGated_error hquiet h
    | false => exact renderUngated_error hquiet h
  | renderKueue plan options prune pruneGlobal => exact renderKueue_error hquiet h

/-- The scan for stale files comes to an end where every rendered file has a classification. -/
theorem reportStale_total (hquiet : c.Quiet) {run : Reconciliation} {current : List String}
    (h : Classified format (listing .out dir)) (prune : Bool) :
    ∃ report dir', reportStale c format run prune current dir = (.ok report, dir') := by
  have htotal : ∃ files, staleFiles format run current (listing .out dir) = .ok files :=
    staleFiles_total h
  obtain ⟨files, hfiles⟩ := htotal
  have hscan : scanStale c format run current dir = (.ok files, dir.failed) :=
    Session.bind_eq_ok.mpr ⟨(), dir.failed, look_total hquiet _ dir, Session.bind_eq_ok.mpr
      ⟨_, dir.failed, rfl, Session.lift_eq_ok.mpr ⟨hfiles, rfl⟩⟩⟩
  obtain ⟨stale, _, hnodup, hperm⟩ := toldFiles_perm hfiles (nodup_listing .out dir)
  have htold : ((toldFiles files).map Prod.fst).Nodup :=
    (hperm.map Prod.fst).nodup_iff.mpr hnodup
  have hmine : (files.mine.map Prod.fst).Nodup :=
    htold.sublist ((List.sublist_append_right _ _).map _)
  have hthere : ∀ name ∈ files.mine.map Prod.fst,
      (dir.failed.at? (.out, name)).isSome = true := by
    intro name hname
    obtain ⟨file, hfile, rfl⟩ := List.mem_map.mp hname
    have hlisted := ((mem_mine hfiles (nodup_listing .out dir)).mp hfile).1
    rw [FileSystem.at?_failed, mem_listing.mp hlisted]
    rfl
  cases prune with
  | false => exact ⟨_, dir.failed, Session.bind_eq_ok.mpr ⟨files, dir.failed, hscan, rfl⟩⟩
  | true =>
    obtain ⟨gone, dir', hgone⟩ := removeAll_total hquiet hmine hthere []
    exact ⟨_, dir', Session.bind_eq_ok.mpr ⟨files, dir.failed, hscan,
      Session.bind_eq_ok.mpr ⟨gone, dir', hgone, rfl⟩⟩⟩

end

end MissionCompiler.Cli
