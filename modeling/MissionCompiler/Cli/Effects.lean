import MissionCompiler.Cli.Commands
import MissionCompiler.Compile.Unique
import MissionCompiler.Publish.AllOrNothing

/-!
# What the steps do to the directories

One lemma for each step: what is where after it, and what it leaves alone. Everything before a
publication leaves the output directory alone.
-/

namespace MissionCompiler.Cli

open Lib Schema Names Compile Render Artifact Publish

variable {τ σ : Type}

/-! ## Reading -/

theorem mem_namesIn {place : Place} {dir : Directory τ} {name : String} :
    name ∈ namesIn place dir ↔ (dir.at? (place, name)).isSome = true := by
  rw [namesIn, List.mem_insertionSort, List.mem_filterMap, FileSystem.at?, AList.lookup_isSome,
    AList.mem_keys]
  constructor
  · rintro ⟨p, hp, hname⟩
    split at hname
    · next hplace =>
      rw [← hplace, ← Option.some.inj hname]
      exact hp
    · cases hname
  · intro h
    exact ⟨(place, name), h, if_pos rfl⟩

theorem nodup_namesIn (place : Place) (dir : Directory τ) : (namesIn place dir).Nodup := by
  rw [namesIn, (List.perm_insertionSort _ _).nodup_iff]
  refine List.Nodup.filterMap ?_ dir.files.nodupKeys
  intro p q name hp hq
  rw [Option.mem_def] at hp hq
  split at hp
  · next hp' =>
    split at hq
    · next hq' =>
      have hname := (Option.some.inj hp).trans (Option.some.inj hq).symm
      exact Prod.ext (hp'.trans hq'.symm) hname
    · cases hq
  · cases hp

theorem mem_listing {place : Place} {dir : Directory τ} {file : String × Entry τ} :
    file ∈ listing place dir ↔ dir.at? (place, file.1) = some file.2 := by
  rw [listing, List.mem_filterMap]
  constructor
  · intro ⟨name, _, hfile⟩
    obtain ⟨entry, hentry, rfl⟩ := Option.map_eq_some_iff.mp hfile
    exact hentry
  · intro h
    refine ⟨file.1, mem_namesIn.mpr (by rw [h]; rfl), ?_⟩
    rw [h]
    rfl

theorem nodup_listing (place : Place) (dir : Directory τ) :
    ((listing place dir).map Prod.fst).Nodup := by
  have hsub : ((listing place dir).map Prod.fst).Sublist (namesIn place dir) := by
    rw [listing, List.map_filterMap]
    have hname : ∀ name, ((dir.at? (place, name)).map fun e => (name, e)).map Prod.fst =
        Option.guard (fun name => (dir.at? (place, name)).isSome) name := fun name => by
      cases hat : dir.at? (place, name) <;> simp [Option.guard, hat]
    simp only [hname]
    rw [List.filterMap_eq_filter]
    exact List.filter_sublist
  exact (nodup_namesIn place dir).sublist hsub

/-! ## Writing -/

/-- What a planned file comes to hold. -/
def contentOf (format : Format τ σ) (planned : List (String × List Json)) (name : String) :
    Option (Entry τ) :=
  (planned.lookup name).map fun docs => .regular (format.dump docs)

theorem contentOf_eq_none {format : Format τ σ} {planned : List (String × List Json)}
    {name : String} : contentOf format planned name = none ↔ name ∉ planned.map Prod.fst := by
  rw [contentOf, Option.map_eq_none_iff, List.lookup_eq_none_iff]
  constructor
  · intro h hmem
    obtain ⟨file, hfile, rfl⟩ := List.mem_map.mp hmem
    simpa using h file hfile
  · intro h file hfile
    simp only [bne_iff_ne, ne_eq]
    intro heq
    exact h (heq ▸ List.mem_map_of_mem hfile)

theorem contentOf_isSome (format : Format τ σ) {planned : List (String × List Json)}
    {name : String} (h : name ∈ planned.map Prod.fst) :
    ∃ entry, contentOf format planned name = some entry := by
  cases hcontent : contentOf format planned name with
  | none => exact absurd h (contentOf_eq_none.mp hcontent)
  | some entry => exact ⟨entry, rfl⟩

/-- Two states of the directories that agree on one of them. -/
def SameIn (place : Place) (dir dir' : Directory τ) : Prop :=
  ∀ name, dir'.at? (place, name) = dir.at? (place, name)

theorem SameIn.refl (place : Place) (dir : Directory τ) : SameIn place dir dir := fun _ => rfl

theorem SameIn.trans {place : Place} (dir dir' dir'' : Directory τ) (h : SameIn place dir dir')
    (h' : SameIn place dir' dir'') : SameIn place dir dir'' :=
  fun name => (h' name).trans (h name)

variable {c : Circumstances τ} {format : Format τ σ} {dir dir' : Directory τ}

/-- A write reaches one path. -/
theorem sameIn_write {place written : Place} (hne : place ≠ written) (name : String)
    (entry : Entry τ) (dir : Directory τ) :
    SameIn place dir (dir.write c.faults (written, name) entry).2 := by
  rcases dir.write_cases c.faults (written, name) entry with ⟨hcall, _⟩ | ⟨fs, hcall, _, _, hother⟩
  · rw [hcall]
    exact SameIn.refl place dir
  · rw [hcall]
    intro n
    apply hother
    intro heq
    exact hne (congrArg Prod.fst heq)

theorem keeps_writeAll {place written : Place} (hne : place ≠ written)
    (planned : List (String × List Json)) :
    Session.Keeps (SameIn place) (writeAll c format written planned) := by
  induction planned with
  | nil => exact Session.keeps_pure (SameIn.refl place) ()
  | cons file rest ih =>
    apply Session.Keeps.bind SameIn.trans
    · exact Session.keeps_call (sameIn_write hne file.1 _) _
    · intro _
      exact ih

/-- After the writes each planned file is in its directory, over what was there. -/
theorem writeAll_eq_ok {place : Place} {planned : List (String × List Json)} {u : Unit}
    (hnodup : (planned.map Prod.fst).Nodup)
    (h : writeAll c format place planned dir = (.ok u, dir')) (name : String) :
    dir'.at? (place, name) = (contentOf format planned name).or (dir.at? (place, name)) := by
  induction planned generalizing dir with
  | nil =>
    cases h
    rfl
  | cons file rest ih =>
    obtain ⟨hnot, hrest⟩ := List.nodup_cons.mp hnodup
    obtain ⟨_, dir₁, hcall, h⟩ := Session.bind_eq_ok.mp h
    have hwrite := Session.call_eq_ok.mp hcall
    rcases dir.write_cases c.faults (place, file.1) (.regular (format.dump file.2)) with
      ⟨hfailed, _⟩ | ⟨fs, hwritten, _, hat, hother⟩
    · rw [hfailed] at hwrite
      cases hwrite
    · obtain rfl : fs = dir₁ := congrArg Prod.snd (hwritten.symm.trans hwrite)
      rw [ih hrest h]
      by_cases hname : name = file.1
      · rw [hname, hat, contentOf_eq_none.mpr hnot, contentOf, List.lookup_cons_self]
        rfl
      · have hlookup : contentOf format (file :: rest) name = contentOf format rest name := by
          rw [contentOf, List.lookup_cons, beq_eq_false_iff_ne.mpr hname]
          rfl
        rw [hlookup, hother (place, name) fun heq => hname (congrArg Prod.snd heq)]

theorem makeStaging_eq_ok {u : Unit} (h : makeStaging dir = (.ok u, dir')) :
    (∀ name, dir'.at? (.staging, name) = none) ∧ SameIn .out dir dir' := by
  cases h
  refine ⟨fun name => ?_, fun name => ?_⟩
  · rw [FileSystem.at?_without]
    rfl
  · rw [FileSystem.at?_without]
    rfl

theorem keeps_makeStaging : Session.Keeps (SameIn .out) (makeStaging : Run τ Unit) := by
  intro dir name
  show (dir.without fun p => p.1 == .staging).at? (.out, name) = _
  rw [FileSystem.at?_without]
  rfl

/-! ## Publishing -/

/-- A publication that succeeds moves the staged files over the output directory. -/
theorem publishSet_eq_ok {names : List String} {u : Unit} (hnodup : names.Nodup)
    (h : publishSet c names dir = (.ok u, dir')) (name : String) :
    dir'.at? (.out, name) =
      if name ∈ names then dir.at? (.staging, name) else dir.at? (.out, name) := by
  have hspec := (publish_all_or_nothing c.faults c.survives hnodup dir).1
  unfold publishSet at h
  cases hpublish : publish c.faults c.survives names dir with
  | mk outcome fs =>
    rw [hpublish] at h hspec
    cases outcome with
    | returned published =>
      cases h
      exact hspec.2 name
    | raised => cases h
    | rolledBackPartially unrestored unremoved => cases h

/-- The planned files over a directory. -/
def Overlaid (format : Format τ σ) (planned : List (String × List Json))
    (dir dir' : Directory τ) : Prop :=
  ∀ name, dir'.at? (.out, name) = (contentOf format planned name).or (dir.at? (.out, name))

theorem overlaid_of_published {planned : List (String × List Json)} {staged : Directory τ}
    (hstaged : ∀ name, name ∈ planned.map Prod.fst →
      staged.at? (.staging, name) = contentOf format planned name)
    (hout : SameIn .out dir staged)
    (h : ∀ name, dir'.at? (.out, name) = if name ∈ planned.map Prod.fst
      then staged.at? (.staging, name) else staged.at? (.out, name)) :
    Overlaid format planned dir dir' := by
  intro name
  rw [h name]
  split
  · next hname =>
    obtain ⟨entry, hentry⟩ := contentOf_isSome format hname
    rw [hstaged name hname, hentry]
    rfl
  · next hname =>
    rw [contentOf_eq_none.mpr hname, hout name]
    rfl

/-! ## Removing -/

/-- The loop of the removals takes only the named files away, and all of them when it ends. -/
theorem removeAll_spec {faults : Nat → Bool} {names removed : List String}
    {result : Except Stop (List String)} (h : removeAll faults names removed dir = (result, dir')) :
    (∀ p, dir'.at? p = dir.at? p ∨ dir'.at? p = none ∧ p.1 = .out ∧ p.2 ∈ names) ∧
      ∀ gone, result = .ok gone → gone = removed ++ names ∧
        ∀ name ∈ names, dir'.at? (.out, name) = none := by
  induction names generalizing dir removed with
  | nil =>
    cases h
    refine ⟨fun p => .inl rfl, fun gone hgone => ⟨?_, fun _ hname => absurd hname List.not_mem_nil⟩⟩
    rw [← Except.ok.inj hgone, List.append_nil]
  | cons name rest ih =>
    rcases dir.unlink_cases faults (Place.out, name) with ⟨hcall, _⟩ | ⟨fs, hcall, _, hnone, hother⟩
    · have hstop : removeAll faults (name :: rest) removed dir =
          (.error (.pruneFailed removed (name :: rest)), dir.failed) := by
        show (Session.call _ _ >>= _ : Run τ (List String)) dir = _
        exact Session.bind_eq_error.mpr (.inl (Session.call_eq_error.mpr ⟨hcall, rfl⟩))
      rw [hstop] at h
      cases h
      refine ⟨fun p => .inl rfl, fun gone hgone => ?_⟩
      cases hgone
    · have hgo : removeAll faults (name :: rest) removed dir =
          removeAll faults rest (removed ++ [name]) fs :=
        Session.bind_of_ok (a := ()) _ (Session.call_eq_ok.mpr hcall)
      rw [hgo] at h
      obtain ⟨hrest, hall⟩ := ih h
      refine ⟨fun p => ?_, fun gone hgone => ?_⟩
      · by_cases hp : p = (.out, name)
        · rcases hrest p with hsame | hgone
          · right
            rw [hsame, hp]
            exact ⟨hnone, rfl, List.mem_cons_self⟩
          · exact .inr ⟨hgone.1, hgone.2.1, List.mem_cons_of_mem _ hgone.2.2⟩
        · rw [← hother p hp]
          exact (hrest p).imp_right fun hgone =>
            ⟨hgone.1, hgone.2.1, List.mem_cons_of_mem _ hgone.2.2⟩
      · obtain ⟨hremoved, hnames⟩ := hall gone hgone
        refine ⟨by rw [hremoved, List.append_assoc]; rfl, fun n hn => ?_⟩
        rcases List.mem_cons.mp hn with rfl | hn
        · rcases hrest (.out, n) with hsame | hgone
          · rw [hsame, hnone]
          · exact hgone.1
        · exact hnames n hn

/-! ## Stale files -/

/-- A call that only looks leaves every directory as it is. -/
theorem sameIn_look (place : Place) (faults : Nat → Bool) (dir : Directory τ) :
    SameIn place dir (dir.look faults).2 := fun _ => rfl

section

variable [Scalars σ] {run : Reconciliation} {prune : Bool} {current : List String}

theorem keeps_scanStale (place : Place) :
    Session.Keeps (SameIn place) (scanStale c format run current) := by
  apply Session.Keeps.bind SameIn.trans
  · exact Session.keeps_call (sameIn_look place c.faults) _
  · intro _
    apply Session.Keeps.bind SameIn.trans
    · exact Session.keeps_reads (SameIn.refl place) _
    · exact fun files => Session.keeps_lift (SameIn.refl place) _ _

theorem scanStale_eq_ok {files : StaleFiles τ}
    (h : scanStale c format run current dir = (.ok files, dir')) :
    staleFiles format run current (listing .out dir) = .ok files := by
  obtain ⟨_, t, hlook, h⟩ := Session.bind_eq_ok.mp h
  obtain ⟨read, t', hread, h⟩ := Session.bind_eq_ok.mp h
  obtain rfl : dir.failed = t := congrArg Prod.snd (Session.call_eq_ok.mp hlook)
  cases hread
  exact (Session.lift_eq_ok.mp h).1

/-- What is removed from the output directory, by a scan that is acted on. -/
theorem reportStale_out {result : Except Stop StaleReport}
    (h : reportStale c format run prune current dir = (result, dir')) (name : String) :
    dir'.at? (.out, name) = dir.at? (.out, name) ∨ dir'.at? (.out, name) = none ∧
      prune = true ∧ ∃ files, staleFiles format run current (listing .out dir) = .ok files ∧
        name ∈ files.mine.map Prod.fst := by
  rcases Session.bind_cases h with ⟨stop, hstop, _⟩ | ⟨files, t, hscan, h⟩
  · exact .inl ((keeps_scanStale .out).of_eq hstop name)
  · have hsame := (keeps_scanStale .out).of_eq hscan
    unfold pruneOrTell at h
    split at h
    · next hprune =>
      have hremove : ∃ result, removeAll c.faults (files.mine.map Prod.fst) [] t =
          (result, dir') := by
        rcases Session.bind_cases h with ⟨stop, hstop, _⟩ | ⟨removed, t', hremoved, h⟩
        · exact ⟨_, hstop⟩
        · cases h
          exact ⟨_, hremoved⟩
      obtain ⟨_, hremove⟩ := hremove
      rcases (removeAll_spec hremove).1 (.out, name) with hkept | ⟨hnone, _, hmem⟩
      · exact .inl (hkept.trans (hsame name))
      · exact .inr ⟨hnone, hprune, files, scanStale_eq_ok hscan, hmem⟩
    · cases h
      exact .inl (hsame name)

/-- A scan that ends well removed everything it was to remove. -/
theorem reportStale_eq_ok {report : StaleReport}
    (h : reportStale c format run prune current dir = (.ok report, dir')) :
    ∃ files, staleFiles format run current (listing .out dir) = .ok files ∧
      (prune = true → ∀ name ∈ files.mine.map Prod.fst, dir'.at? (.out, name) = none) := by
  obtain ⟨files, t, hscan, h⟩ := Session.bind_eq_ok.mp h
  refine ⟨files, scanStale_eq_ok hscan, fun hprune => ?_⟩
  rw [pruneOrTell, if_pos hprune] at h
  obtain ⟨removed, t', hremoved, h⟩ := Session.bind_eq_ok.mp h
  cases h
  exact ((removeAll_spec hremoved).2 removed rfl).2

/-! ## Rendering -/

theorem keeps_preflight (place : Place) {report : Exn → Stop} {where_ : Place}
    {planned : Directory τ → List (String × Option (List (Yaml σ)))} :
    Session.Keeps (SameIn place) (preflight format report where_ planned) := by
  apply Session.Keeps.bind SameIn.trans
  · exact Session.keeps_reads (SameIn.refl place) _
  · exact fun verdict => Session.keeps_lift (SameIn.refl place) _ _

theorem preflight_eq_ok {report : Exn → Stop} {place : Place}
    {planned : Directory τ → List (String × Option (List (Yaml σ)))} {u : Unit}
    (h : preflight format report place planned dir = (.ok u, dir')) :
    preflightWritable format (fun name => dir.at? (place, name)) (planned dir) = .ok u ∧
      dir' = dir := by
  obtain ⟨verdict, t, hread, h⟩ := Session.bind_eq_ok.mp h
  cases hread
  exact Session.lift_eq_ok.mp h

variable {host : Host} {plan : MissionPlan}

/-- A render that ends well planned its files, found nothing in their way, and wrote them. -/
theorem writeIndividualWorkflows_eq_ok {place : Place} {options : ArgoOptions}
    {names : List String}
    (h : writeIndividualWorkflows c format host place plan options dir = (.ok names, dir')) :
    ∃ planned, plannedWorkflows host plan options = .ok planned ∧ names = planned.map Prod.fst ∧
      names.Nodup ∧ ∀ name,
        dir'.at? (place, name) = (contentOf format planned name).or (dir.at? (place, name)) := by
  obtain ⟨_, t₁, hpolicy, h₁⟩ := Session.bind_eq_ok.mp h
  obtain ⟨planned, t₂, hplan, h₂⟩ := Session.bind_eq_ok.mp h₁
  obtain ⟨_, t₃, hpaths, h₃⟩ := Session.bind_eq_ok.mp h₂
  obtain ⟨_, t₄, hpreflight, h₄⟩ := Session.bind_eq_ok.mp h₃
  obtain ⟨_, t₅, hwritten, hend⟩ := Session.bind_eq_ok.mp h₄
  obtain ⟨_, rfl⟩ := Session.lift_eq_ok.mp hpolicy
  obtain ⟨hplanned, rfl⟩ := Session.lift_eq_ok.mp hplan
  obtain ⟨hunique, rfl⟩ := Session.lift_eq_ok.mp hpaths
  obtain ⟨_, rfl⟩ := preflight_eq_ok hpreflight
  obtain ⟨rfl, rfl⟩ := Session.pure_eq_ok.mp hend
  have hnodup := nodup_of_preflightUnique hunique
  exact ⟨planned, hplanned, rfl, hnodup, writeAll_eq_ok hnodup hwritten⟩

theorem keeps_writeIndividualWorkflows {place written : Place} (hne : place ≠ written)
    (options : ArgoOptions) :
    Session.Keeps (SameIn place)
      (writeIndividualWorkflows c format host written plan options) := by
  apply Session.Keeps.bind SameIn.trans (Session.keeps_lift (SameIn.refl place) _ _)
  intro _
  apply Session.Keeps.bind SameIn.trans (Session.keeps_lift (SameIn.refl place) _ _)
  intro planned
  apply Session.Keeps.bind SameIn.trans (Session.keeps_lift (SameIn.refl place) _ _)
  intro _
  apply Session.Keeps.bind SameIn.trans (keeps_preflight place)
  intro _
  apply Session.Keeps.bind SameIn.trans (keeps_writeAll hne planned)
  intro _
  exact Session.keeps_pure (SameIn.refl place) _

/-! ## The snapshot of the gate -/

/-- A manifest is left out of the snapshot, refused, or copied beside the staged files. -/
theorem carryUnless_eq_ok {skipped here : List String} {name : String} {entry : Entry τ}
    (h : carryUnless c skipped name entry dir = (.ok here, dir')) :
    (here = [] ∧ dir' = dir ∧ (name ∈ skipped ∨ entry = .other)) ∨
      ∃ text, here = [name] ∧ name ∉ skipped ∧ entry = .regular text ∧
        dir'.at? (.staging, name) = some (.regular text) ∧
        ∀ p, p ≠ (.staging, name) → dir'.at? p = dir.at? p := by
  unfold carryUnless at h
  split at h
  · next hskipped =>
    cases h
    exact .inl ⟨rfl, rfl, .inl (by simpa using hskipped)⟩
  · next hskipped =>
    cases entry with
    | symlink target => cases h
    | other =>
      cases h
      exact .inl ⟨rfl, rfl, .inr rfl⟩
    | regular text =>
      obtain ⟨_, t, hcall, h⟩ := Session.bind_eq_ok.mp h
      have hwrite := Session.call_eq_ok.mp hcall
      rcases dir.write_cases c.faults (.staging, name) (.regular text) with
        ⟨hfailed, _⟩ | ⟨fs, hwritten, _, hat, hother⟩
      · rw [hfailed] at hwrite
        cases hwrite
      · obtain rfl : fs = t := congrArg Prod.snd (hwritten.symm.trans hwrite)
        cases h
        exact .inr ⟨text, rfl, by simpa using hskipped, rfl, hat, hother⟩

/-- What can be copied, and was: of the manifests that are not skipped none is a link, and the
regular files among them are copied once each. -/
structure Copies (skipped : List String) (files : List (String × Entry τ))
    (carried : List String) : Prop where
  links : ∀ file ∈ files, file.1 ∉ skipped → ∀ target, file.2 ≠ .symlink target
  sublist : carried.Sublist (files.map Prod.fst)
  regular : ∀ name ∈ carried, ∃ text, (name, Entry.regular text) ∈ files

theorem carryManifests_copies {skipped carried : List String} {files : List (String × Entry τ)}
    (h : carryManifests c skipped files dir = (.ok carried, dir')) :
    Copies skipped files carried := by
  induction files generalizing dir dir' carried with
  | nil =>
    cases h
    exact ⟨fun _ hfile => absurd hfile List.not_mem_nil, .slnil,
      fun _ hname => absurd hname List.not_mem_nil⟩
  | cons file rest ih =>
    obtain ⟨here, t, hhere, h⟩ := Session.bind_eq_ok.mp h
    obtain ⟨carried', t', hcarried, h⟩ := Session.bind_eq_ok.mp h
    obtain ⟨rfl, _⟩ := Session.pure_eq_ok.mp h
    obtain ⟨hlinks, hsublist, hregular⟩ := ih hcarried
    have hkept : ∀ name ∈ carried', ∃ text, (name, Entry.regular text) ∈ file :: rest :=
      fun name hname => (hregular name hname).imp fun _ => List.mem_cons_of_mem file
    rcases carryUnless_eq_ok hhere with ⟨rfl, _, hskip⟩ | ⟨text, rfl, _, hentry, _⟩
    · refine ⟨fun other hother hnot target heq => ?_, hsublist.cons file.1, hkept⟩
      rcases List.mem_cons.mp hother with rfl | hother
      · rcases hskip with hskip | hskip
        · exact hnot hskip
        · rw [heq] at hskip
          cases hskip
      · exact hlinks other hother hnot target heq
    · refine ⟨fun other hother hnot target heq => ?_, hsublist.cons_cons file.1,
        fun name hname => ?_⟩
      · rcases List.mem_cons.mp hother with rfl | hother
        · rw [heq] at hentry
          cases hentry
        · exact hlinks other hother hnot target heq
      · rcases List.mem_cons.mp hname with rfl | hname
        · exact ⟨text, List.mem_cons.mpr (.inl (Prod.ext rfl hentry.symm))⟩
        · exact hkept name hname

/-- The copies: which manifests were copied, and where everything is afterwards. -/
structure Carried (skipped : List String) (files : List (String × Entry τ))
    (dir dir' : Directory τ) (carried : List String) : Prop where
  fresh : ∀ name ∈ carried, name ∉ skipped
  copied : ∀ name text, (name, Entry.regular text) ∈ files → name ∉ skipped →
    name ∈ carried ∧ dir'.at? (.staging, name) = some (.regular text)
  kept : ∀ name, name ∉ carried → dir'.at? (.staging, name) = dir.at? (.staging, name)
  out : SameIn .out dir dir'

theorem carryManifests_eq_ok {skipped carried : List String} {files : List (String × Entry τ)}
    (hnodup : (files.map Prod.fst).Nodup)
    (h : carryManifests c skipped files dir = (.ok carried, dir')) :
    Carried skipped files dir dir' carried := by
  induction files generalizing dir carried with
  | nil =>
    cases h
    refine ⟨?_, ?_, ?_, fun _ => rfl⟩
    · exact fun name hname => absurd hname List.not_mem_nil
    · exact fun name text hfile => absurd hfile List.not_mem_nil
    · exact fun name _ => rfl
  | cons file rest ih =>
    obtain ⟨hnot, hrest⟩ := List.nodup_cons.mp hnodup
    obtain ⟨here, t, hhere, h⟩ := Session.bind_eq_ok.mp h
    obtain ⟨carried', t', hcarried, h⟩ := Session.bind_eq_ok.mp h
    obtain ⟨rfl, rfl⟩ := Session.pure_eq_ok.mp h
    have hspec := ih hrest hcarried
    rcases carryUnless_eq_ok hhere with ⟨rfl, rfl, hskip⟩ | ⟨text, rfl, hfresh, hentry, hat, hother⟩
    · refine ⟨hspec.fresh, fun name text hfile hname => ?_, hspec.kept, hspec.out⟩
      rcases List.mem_cons.mp hfile with heq | hfile
      · rcases hskip with hskip | hskip
        · rw [← heq] at hskip
          exact absurd hskip hname
        · rw [← heq] at hskip
          cases hskip
      · exact hspec.copied name text hfile hname
    · have hnotCarried : file.1 ∉ carried' := fun hmem =>
        hnot ((carryManifests_copies hcarried).sublist.subset hmem)
      refine ⟨fun name hname => ?_, fun name text' hfile hname => ?_, fun name hname => ?_,
        fun name => ?_⟩
      · rcases List.mem_cons.mp hname with rfl | hname
        · exact hfresh
        · exact hspec.fresh name hname
      · rcases List.mem_cons.mp hfile with heq | hfile
        · refine ⟨List.mem_cons.mpr (.inl (congrArg Prod.fst heq)), ?_⟩
          have hname' : name = file.1 := congrArg Prod.fst heq
          have htext : Entry.regular text' = file.2 := congrArg Prod.snd heq
          rw [hname', hspec.kept file.1 hnotCarried, hat, htext, hentry]
        · obtain ⟨hmem, hcopy⟩ := hspec.copied name text' hfile hname
          exact ⟨List.mem_cons_of_mem _ hmem, hcopy⟩
      · obtain ⟨hne, hname⟩ := not_or.mp fun hor => hname (List.mem_cons.mpr hor)
        rw [hspec.kept name hname, hother]
        intro heq
        exact hne (congrArg Prod.snd heq)
      · rw [hspec.out name, hother]
        intro heq
        cases heq

/-- Removing the copies leaves the other staged files, and the output directory, alone. -/
theorem dropCarried_eq_ok {carried : List String} {u : Unit}
    (h : dropCarried c carried dir = (.ok u, dir')) :
    SameIn .out dir dir' ∧
      ∀ name, name ∉ carried → dir'.at? (.staging, name) = dir.at? (.staging, name) := by
  induction carried generalizing dir with
  | nil =>
    cases h
    exact ⟨fun _ => rfl, fun _ _ => rfl⟩
  | cons name rest ih =>
    obtain ⟨_, t, hcall, h⟩ := Session.bind_eq_ok.mp h
    have hunlink := Session.call_eq_ok.mp hcall
    obtain ⟨hout, hstaging⟩ := ih h
    rcases dir.unlink_cases c.faults (.staging, name) with ⟨hfailed, _⟩ | ⟨fs, hdone, _, _, hother⟩
    · rw [hfailed] at hunlink
      cases hunlink
    · obtain rfl : fs = t := congrArg Prod.snd (hdone.symm.trans hunlink)
      refine ⟨fun n => ?_, fun n hn => ?_⟩
      · rw [hout n, hother]
        intro heq
        cases heq
      · obtain ⟨hne, hn⟩ := not_or.mp fun hor => hn (List.mem_cons.mpr hor)
        rw [hstaging n hn, hother]
        intro heq
        exact hne (congrArg Prod.snd heq)

theorem takeLock_eq_ok {lock : Lock} {u : Unit} (h : takeLock lock dir = (.ok u, dir')) :
    dir' = dir := (Session.require_eq_ok.mp h).2

theorem takeLockOrStop_eq_ok {lock : Lock} {u : Unit}
    (h : takeLockOrStop lock dir = (.ok u, dir')) : dir' = dir :=
  (Session.require_eq_ok.mp h).2

/-- The manifests of a listing. -/
def manifests (dir : Directory τ) : List (String × Entry τ) :=
  (listing .out dir).filter fun file => isManifestName file.1

theorem nodup_manifests (dir : Directory τ) : ((manifests dir).map Prod.fst).Nodup :=
  (nodup_listing .out dir).sublist (List.filter_sublist.map _)

theorem snapshot_eq_ok {carried : List String}
    (h : snapshot c format run prune current dir = (.ok carried, dir')) :
    ∃ leaving, leavingNames format run prune current (listing .out dir) = .ok leaving ∧
      Carried (current ++ leaving) (manifests dir) dir dir' carried ∧
      Copies (current ++ leaving) (manifests dir) carried := by
  obtain ⟨_, t₁, hlook, h₁⟩ := Session.bind_eq_ok.mp h
  obtain ⟨files, t₂, hread, h₂⟩ := Session.bind_eq_ok.mp h₁
  obtain ⟨_, t₃, hlook', h₃⟩ := Session.bind_eq_ok.mp h₂
  obtain ⟨leaving, t₄, hleaving, h₄⟩ := Session.bind_eq_ok.mp h₃
  obtain rfl : dir.failed = t₁ := congrArg Prod.snd (Session.call_eq_ok.mp hlook)
  cases hread
  obtain rfl : dir.failed.failed = t₃ := congrArg Prod.snd (Session.call_eq_ok.mp hlook')
  obtain ⟨hnames, rfl⟩ := Session.lift_eq_ok.mp hleaving
  obtain ⟨hfresh, hcopied, hkept, hout⟩ := carryManifests_eq_ok (nodup_manifests dir) h₄
  exact ⟨leaving, hnames, ⟨hfresh, hcopied, hkept, hout⟩, carryManifests_copies h₄⟩

theorem actOnAnswer_eq_ok {carried : List String} {linted : String → Option τ}
    {answer : LintAnswer} {lint : Lint τ}
    (h : actOnAnswer c carried linted answer dir = (.ok lint, dir')) :
    lint = .passed linted ∧ SameIn .out dir dir' ∧
      ∀ name, name ∉ carried → dir'.at? (.staging, name) = dir.at? (.staging, name) := by
  cases answer with
  | unavailable => cases h
  | answered accepted output =>
    obtain ⟨_, t₁, hdropped, h₁⟩ := Session.bind_eq_ok.mp h
    obtain ⟨_, t₂, haccepted, hend⟩ := Session.bind_eq_ok.mp h₁
    obtain ⟨_, rfl⟩ := Session.require_eq_ok.mp haccepted
    obtain ⟨rfl, rfl⟩ := Session.pure_eq_ok.mp hend
    exact ⟨rfl, dropCarried_eq_ok hdropped⟩

theorem lintSnapshot_eq_ok {carried : List String} {lint : Lint τ}
    (h : lintSnapshot c carried dir = (.ok lint, dir')) :
    lint = .passed (stagedTexts dir) ∧ SameIn .out dir dir' ∧
      ∀ name, name ∉ carried → dir'.at? (.staging, name) = dir.at? (.staging, name) := by
  obtain ⟨linted, t₁, hread, h₁⟩ := Session.bind_eq_ok.mp h
  obtain ⟨_, t₂, hreadable, h₂⟩ := Session.bind_eq_ok.mp h₁
  cases hread
  obtain ⟨_, rfl⟩ := Session.require_eq_ok.mp hreadable
  exact actOnAnswer_eq_ok h₂

/-- A gate that lets a render through: what it linted, and what it published. -/
theorem lintAndPublish_eq_ok {names : List String} {rendered : Rendered τ} (hnodup : names.Nodup)
    (h : lintAndPublish c format host plan prune names dir = (.ok rendered, dir')) :
    ∃ leaving carried snapped,
      leavingNames format (argoReconciliation host plan) prune names (listing .out dir) =
        .ok leaving ∧
      Carried (names ++ leaving) (manifests dir) dir snapped carried ∧
      rendered = (names, some (.passed (stagedTexts snapped))) ∧
      ∀ name, dir'.at? (.out, name) =
        if name ∈ names then dir.at? (.staging, name) else dir.at? (.out, name) := by
  obtain ⟨_, t₁, hlock, h₁⟩ := Session.bind_eq_ok.mp h
  obtain ⟨carried, snapped, hsnapshot, h₂⟩ := Session.bind_eq_ok.mp h₁
  obtain ⟨lint, t₃, hlint, h₃⟩ := Session.bind_eq_ok.mp h₂
  obtain ⟨_, t₄, hpreflight, h₄⟩ := Session.bind_eq_ok.mp h₃
  obtain ⟨_, t₅, hpublish, hend⟩ := Session.bind_eq_ok.mp h₄
  obtain rfl := takeLockOrStop_eq_ok hlock
  obtain ⟨leaving, hleaving, hcarried, _⟩ := snapshot_eq_ok hsnapshot
  obtain ⟨rfl, hout, hstaging⟩ := lintSnapshot_eq_ok hlint
  obtain ⟨_, rfl⟩ := preflight_eq_ok hpreflight
  obtain ⟨rfl, rfl⟩ := Session.pure_eq_ok.mp hend
  refine ⟨leaving, carried, snapped, hleaving, hcarried, rfl, fun name => ?_⟩
  rw [publishSet_eq_ok hnodup hpublish name]
  split
  · next hname =>
    have hnot : name ∉ carried := fun hmem =>
      hcarried.fresh name hmem (List.mem_append_left _ hname)
    rw [hstaging name hnot, hcarried.kept name hnot]
  · rw [hout name, hcarried.out name]

/-! ## What a command renders -/

/-- The files a command plans. -/
def Command.planned (host : Host) : Command → Except Exn (List (String × List Json))
  | .renderArgo plan options _ _ => plannedWorkflows host plan options
  | .renderKueue plan options _ _ => plannedJobs host plan options

theorem gateRendered_eq_ok {names : List String} {rendered : Rendered τ} (hnodup : names.Nodup)
    (h : gateRendered c format host plan prune names dir = (.ok rendered, dir')) :
    rendered.1 = names ∧ ∀ name, dir'.at? (.out, name) =
      if name ∈ names then dir.at? (.staging, name) else dir.at? (.out, name) := by
  unfold gateRendered at h
  split at h
  · next hempty =>
    rw [Bool.and_eq_true, List.isEmpty_iff] at hempty
    obtain ⟨_, t, hlock, hend⟩ := Session.bind_eq_ok.mp h
    obtain rfl := takeLockOrStop_eq_ok hlock
    obtain ⟨rfl, rfl⟩ := Session.pure_eq_ok.mp hend
    rw [hempty.1]
    exact ⟨rfl, fun name => (if_neg List.not_mem_nil).symm⟩
  · split at h
    · cases h
    · split at h
      · cases h
      · obtain ⟨_, _, _, _, _, rfl, hout⟩ := lintAndPublish_eq_ok hnodup h
        exact ⟨rfl, hout⟩

/-- A command that rendered has its files in the output directory, over what was there. -/
theorem Command.render_eq_ok {command : Command} {rendered : Rendered τ}
    (h : command.render c format host dir = (.ok rendered, dir')) :
    ∃ planned, command.planned host = .ok planned ∧ rendered.1 = planned.map Prod.fst ∧
      rendered.1.Nodup ∧ Overlaid format planned dir dir' := by
  cases command with
  | renderArgo plan options argoLint prune =>
    cases argoLint with
    | false =>
      obtain ⟨_, t₁, hlock, h₁⟩ := Session.bind_eq_ok.mp h
      obtain ⟨names, t₂, hwritten, hend⟩ := Session.bind_eq_ok.mp h₁
      obtain rfl := takeLock_eq_ok hlock
      obtain ⟨planned, hplanned, hnames, hnodup, hout⟩ := writeIndividualWorkflows_eq_ok hwritten
      obtain ⟨rfl, rfl⟩ := Session.pure_eq_ok.mp hend
      exact ⟨planned, hplanned, hnames, hnodup, hout⟩
    | true =>
      obtain ⟨_, t₁, hmake, h₁⟩ := Session.bind_eq_ok.mp h
      obtain ⟨names, t₂, hwritten, h₂⟩ := Session.bind_eq_ok.mp h₁
      obtain ⟨hempty, hsame⟩ := makeStaging_eq_ok hmake
      obtain ⟨planned, hplanned, rfl, hnodup, hstaged⟩ := writeIndividualWorkflows_eq_ok hwritten
      obtain ⟨hnames, hout⟩ := gateRendered_eq_ok hnodup h₂
      refine ⟨planned, hplanned, hnames, by rw [hnames]; exact hnodup,
        overlaid_of_published (fun name hname => ?_) ?_ hout⟩
      · rw [hstaged name, hempty name, Option.or_none]
      · have hkeeps : Session.Keeps (SameIn .out)
            (writeIndividualWorkflows c format host .staging plan options) :=
          keeps_writeIndividualWorkflows (by decide) options
        exact SameIn.trans _ _ _ hsame (hkeeps.of_eq hwritten)
  | renderKueue plan options prune pruneGlobal =>
    obtain ⟨_, t₁, hpolicy, h₁⟩ := Session.bind_eq_ok.mp h
    obtain ⟨planned, t₂, hplanned, h₂⟩ := Session.bind_eq_ok.mp h₁
    obtain ⟨_, t₃, hlock, h₃⟩ := Session.bind_eq_ok.mp h₂
    obtain ⟨_, t₄, hpaths, h₄⟩ := Session.bind_eq_ok.mp h₃
    obtain ⟨_, t₅, hpreflight, h₅⟩ := Session.bind_eq_ok.mp h₄
    obtain ⟨_, t₆, hmake, h₆⟩ := Session.bind_eq_ok.mp h₅
    obtain ⟨_, t₇, hwritten, h₇⟩ := Session.bind_eq_ok.mp h₆
    obtain ⟨_, t₈, hpublish, hend⟩ := Session.bind_eq_ok.mp h₇
    obtain ⟨_, rfl⟩ := Session.lift_eq_ok.mp hpolicy
    obtain ⟨hjobs, rfl⟩ := Session.lift_eq_ok.mp hplanned
    obtain rfl := takeLock_eq_ok hlock
    obtain ⟨hunique, rfl⟩ := Session.lift_eq_ok.mp hpaths
    obtain ⟨_, rfl⟩ := preflight_eq_ok hpreflight
    obtain ⟨hempty, hsame⟩ := makeStaging_eq_ok hmake
    have hnodup := nodup_of_preflightUnique hunique
    obtain ⟨rfl, rfl⟩ := Session.pure_eq_ok.mp hend
    refine ⟨planned, hjobs, rfl, hnodup,
      overlaid_of_published (fun name hname => ?_) ?_ (publishSet_eq_ok hnodup hpublish)⟩
    · rw [writeAll_eq_ok hnodup hwritten name, hempty name, Option.or_none]
    · have hkeeps : Session.Keeps (SameIn .out) (writeAll c format .staging planned) :=
        keeps_writeAll (by decide) planned
      exact SameIn.trans _ _ _ hsame (hkeeps.of_eq hwritten)

end

end MissionCompiler.Cli
