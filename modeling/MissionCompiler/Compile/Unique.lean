import MissionCompiler.Compile.Distinct

/-!
# One object for each workload

What distinct workflow names give the rest of the compiler: they are labels as they stand, the
files named after them are distinct, whichever of the files of a command are written, and so are
the claim templates, whose names can be cut and hashed once more.
-/

namespace MissionCompiler.Compile

open Lib Schema Names

/-! ## Labels -/

/-- A DNS label of RFC 1123: letters, digits and dashes, without a dash at either end. -/
structure Rfc1123Label (s : String) : Prop where
  length_le : s.length ≤ 63
  legal : ∀ c ∈ s.toList, isAlnum c = true ∨ c = '-'
  first : ∃ c, s.toList.head? = some c ∧ isAlnum c = true
  last : ∃ c, s.toList.getLast? = some c ∧ isAlnum c = true

/-- A name that fits is a label. -/
theorem rfc1123Label_nameOf {ws : List (List Char)} (h : NameWords ws)
    (hlen : (nameOf ws).length ≤ 63) : Rfc1123Label (nameOf ws) := by
  refine ⟨hlen, ?_, ?_, ?_⟩ <;> rw [nameOf, String.toList_ofList]
  · exact h.legal
  · exact h.first
  · exact h.last

variable (sha : Sha256) {plan : MissionPlan}

/-- The name of an intent, by its words. -/
theorem mem_workflowNames {name : String} (h : name ∈ workflowNames sha plan) :
    ∃ ws, NameWords ws ∧ name = nameOf ws ∧ (nameOf ws).length ≤ 63 := by
  rw [workflowNames, compiledFrom_names] at h
  obtain ⟨o, ho, rfl⟩ := List.mem_map.mp h
  obtain ⟨⟨p, _, hname⟩, _, _⟩ := mem_occurrences sha ho
  rw [hname]
  exact occurrenceName_name sha plan p o.2

theorem rfc1123Label_workflowName {name : String} (h : name ∈ workflowNames sha plan) :
    Rfc1123Label name := by
  obtain ⟨ws, hws, rfl, hlen⟩ := mem_workflowNames sha h
  exact rfc1123Label_nameOf hws hlen

theorem sanitizeK8sName_workflowName {name : String} (h : name ∈ workflowNames sha plan) :
    sanitizeK8sName name 63 = name := by
  obtain ⟨ws, hws, rfl, hlen⟩ := mem_workflowNames sha h
  exact sanitizeK8sName_nameOf hws (by decide) hlen

/-! ## Files -/

/-- The files `render-kueue` writes, in its order: the priority classes when they are asked for,
and for each intent its job, with a file of its own for a claim of the scheduler's route. -/
def kueueFileNames (emitPriorityClasses : Bool) (schedulerRoute : WorkflowIntent → Bool)
    (intents : List WorkflowIntent) : List String :=
  (if emitPriorityClasses then [priorityClassesFileName] else []) ++
    intents.flatMap fun intent =>
      kueueFileName intent ::
        if schedulerRoute intent then [schedulerFallbackFileName intent] else []

/-- Two texts with ends that do not fit into each other differ. -/
theorem append_ne_append {a b x y : String}
    (hxy : ¬ x.toList <:+ y.toList) (hyx : ¬ y.toList <:+ x.toList) : a ++ x ≠ b ++ y := by
  intro h
  have hx : x.toList <:+ (a ++ x).toList := by
    rw [String.toList_append]
    exact List.suffix_append _ _
  have hy : y.toList <:+ (a ++ x).toList := by
    rw [h, String.toList_append]
    exact List.suffix_append _ _
  rcases List.suffix_or_suffix_of_suffix hx hy with hsuffix | hsuffix
  · exact hxy hsuffix
  · exact hyx hsuffix

theorem append_right_injective (suffix : String) :
    Function.Injective fun s : String => s ++ suffix := by
  intro a b h
  have hlist := congrArg String.toList h
  simp only [String.toList_append] at hlist
  exact String.toList_inj.mp (List.append_cancel_right hlist)

theorem kueueFileName_ne_schedulerFallbackFileName (a b : WorkflowIntent) :
    kueueFileName a ≠ schedulerFallbackFileName b :=
  append_ne_append (by decide) (by decide)

theorem kueueFileName_ne_priorityClassesFileName (a : WorkflowIntent) :
    kueueFileName a ≠ priorityClassesFileName := by
  have h : sanitizeK8sName a.workflowName 63 ++ "-kueue.yaml" ≠
      "workload-priority" ++ "-classes.yaml" := append_ne_append (by decide) (by decide)
  exact h

theorem schedulerFallbackFileName_ne_priorityClassesFileName (a : WorkflowIntent) :
    schedulerFallbackFileName a ≠ priorityClassesFileName := by
  have h : sanitizeK8sName a.workflowName 63 ++ "-scheduler-fallback.yaml" ≠
      "workload-priority" ++ "-classes.yaml" := append_ne_append (by decide) (by decide)
  exact h

/-- Files of intents with distinct names are distinct. -/
theorem kueueFileNames_nodup (emitPriorityClasses : Bool) (schedulerRoute : WorkflowIntent → Bool)
    {intents : List WorkflowIntent}
    (h : (intents.map fun i => sanitizeK8sName i.workflowName 63).Nodup) :
    (kueueFileNames emitPriorityClasses schedulerRoute intents).Nodup := by
  have hnames := List.pairwise_map.mp h
  have hintents : (intents.flatMap fun intent => kueueFileName intent ::
      if schedulerRoute intent then [schedulerFallbackFileName intent] else []).Nodup := by
    refine List.nodup_flatMap.mpr ⟨fun i _ => ?_, hnames.imp fun {i j} hij => ?_⟩
    · split
      · exact List.nodup_cons.mpr ⟨fun hmem => kueueFileName_ne_schedulerFallbackFileName i i
          (List.mem_singleton.mp hmem), List.nodup_singleton _⟩
      · exact List.nodup_singleton _
    · have hkueue : kueueFileName i ≠ kueueFileName j := fun heq =>
        hij (append_right_injective _ heq)
      have hfallback : schedulerFallbackFileName i ≠ schedulerFallbackFileName j := fun heq =>
        hij (append_right_injective _ heq)
      intro name hi hj
      have hcross := kueueFileName_ne_schedulerFallbackFileName
      rcases List.mem_cons.mp hi with rfl | hi
      · rcases List.mem_cons.mp hj with hj | hj
        · exact hkueue hj
        · split at hj
          · exact hcross _ _ (List.mem_singleton.mp hj)
          · exact List.not_mem_nil hj
      · split at hi
        · rw [List.mem_singleton.mp hi] at hj
          rcases List.mem_cons.mp hj with hj | hj
          · exact hcross _ _ hj.symm
          · split at hj
            · exact hfallback (List.mem_singleton.mp hj)
            · exact List.not_mem_nil hj
        · exact List.not_mem_nil hi
  unfold kueueFileNames
  split
  · refine List.nodup_cons.mpr ⟨fun hmem => ?_, hintents⟩
    obtain ⟨i, _, hmem⟩ := List.mem_flatMap.mp hmem
    rcases List.mem_cons.mp hmem with hmem | hmem
    · exact kueueFileName_ne_priorityClassesFileName i hmem.symm
    · split at hmem
      · exact schedulerFallbackFileName_ne_priorityClassesFileName i
          (List.mem_singleton.mp hmem).symm
      · exact List.not_mem_nil hmem
  · exact hintents

/-- The preflight has nothing to say about distinct paths. -/
theorem preflightUnique_of_nodup {paths : List String} (h : paths.Nodup) :
    preflightUnique paths = .ok () := by
  have hnone : ∀ seen : List String, (∀ p ∈ paths, p ∉ seen) → duplicatePaths seen paths = [] := by
    induction paths with
    | nil => intro seen _; rfl
    | cons p paths ih =>
      intro seen hseen
      obtain ⟨hp, hrest⟩ := List.nodup_cons.mp h
      rw [duplicatePaths, if_neg (hseen p List.mem_cons_self)]
      refine ih hrest _ fun q hq hmem => ?_
      rcases List.mem_cons.mp hmem with rfl | hmem
      · exact hp hq
      · exact hseen q (List.mem_cons_of_mem p hq) hmem
  rw [preflightUnique, hnone [] fun p _ => List.not_mem_nil]
  rfl

/-- A preflight that passed saw distinct paths. -/
theorem nodup_of_preflightUnique {paths : List String} (h : preflightUnique paths = .ok ()) :
    paths.Nodup := by
  have hdistinct : ∀ seen, duplicatePaths seen paths = [] →
      paths.Nodup ∧ ∀ p ∈ paths, p ∉ seen := by
    clear h
    induction paths with
    | nil => exact fun _ _ => ⟨List.nodup_nil, fun p hp => absurd hp List.not_mem_nil⟩
    | cons p paths ih =>
      intro seen hnone
      unfold duplicatePaths at hnone
      split at hnone
      · cases hnone
      · next hp =>
        obtain ⟨hnodup, hfresh⟩ := ih _ hnone
        refine ⟨List.nodup_cons.mpr ⟨fun hmem => ?_, hnodup⟩, fun q hq => ?_⟩
        · exact hfresh p hmem List.mem_cons_self
        · rcases List.mem_cons.mp hq with rfl | hq
          · exact hp
          · exact fun hseen => hfresh q hq (List.mem_cons_of_mem p hseen)
  unfold preflightUnique at h
  split at h
  · next hnone => exact (hdistinct [] (List.isEmpty_iff.mp hnone)).1
  · cases h

/-! ## Claims -/

/-- The name of a claim template. -/
def claimName (name device : String) : String := cutName sha (claimText name device) 62 8

theorem rctNameForIntent_eq (intent : WorkflowIntent) (device : String) :
    rctNameForIntent sha intent device = .ok (claimName sha intent.workflowName device) :=
  collisionResistantK8sName_eq sha _ (by decide)

theorem wordsOf_claimText (name : String) {device : String} (hdevice : device ∈ devices) :
    wordsOf (claimText name device) = wordsOf name ++ [device.toList, "claim".toList] := by
  have hclaim : ∀ d ∈ devices, wordsOf (d ++ "-" ++ "claim") = [d.toList, "claim".toList] := by
    decide
  have htext : claimText name device = name ++ "-" ++ (device ++ "-" ++ "claim") := by
    rw [claimText]
    simp only [String.append_assoc]
    rfl
  rw [htext, wordsOf_append_dash, hclaim device hdevice]

/-- The last word of a claim's text is no digest. -/
theorem claim_ne_digest (s : String) : "claim".toList ≠ sha.digest 8 s := by
  intro hs
  have hlen := sha.length_digest s
  rw [← hs] at hlen
  exact absurd hlen (by decide)

/-- Two claims of one name are of one name's words and one device, unless the digest collides on
their texts. -/
theorem claimName_injective {name name' device device' : String}
    (hdevice : device ∈ devices) (hdevice' : device' ∈ devices)
    (hdigest : Hashed (claimText name device) 62 → Hashed (claimText name' device') 62 →
      sha.digest 8 (claimText name device) = sha.digest 8 (claimText name' device') →
        claimText name device = claimText name' device')
    (h : claimName sha name device = claimName sha name' device') :
    wordsOf name = wordsOf name' ∧ device = device' := by
  have hwords := wordsOf_claimText name hdevice
  have hwords' := wordsOf_claimText name' hdevice'
  have hsame : wordsOf (claimText name device) = wordsOf (claimText name' device') →
      wordsOf name = wordsOf name' ∧ device = device' := by
    intro heq
    rw [hwords, hwords'] at heq
    obtain ⟨hinit, hlast⟩ := List.append_inj' heq rfl
    rw [List.cons.injEq] at hlast
    exact ⟨hinit, String.toList_inj.mp hlast.1⟩
  have hne : wordsOf (claimText name device) ≠ [] := by
    rw [hwords]
    exact List.append_ne_nil_of_right_ne_nil _ (List.cons_ne_nil _ _)
  have hne' : wordsOf (claimText name' device') ≠ [] := by
    rw [hwords']
    exact List.append_ne_nil_of_right_ne_nil _ (List.cons_ne_nil _ _)
  obtain ⟨vs, hvs, hform, hcut, _⟩ := cutName_form sha hne (show 10 ≤ 62 by decide) (by decide)
  obtain ⟨vs', hvs', hform', hcut', _⟩ :=
    cutName_form sha hne' (show 10 ≤ 62 by decide) (by decide)
  rw [claimName, claimName, hcut, hcut'] at h
  have heq := nameOf_injective hvs hvs' h
  cases hform with
  | whole =>
    cases hform' with
    | whole => exact hsame heq
    | hashed _ _ =>
      rw [hwords, List.append_cons] at heq
      have hlast := (List.append_inj' heq rfl).2
      exact absurd (List.singleton_inj.mp hlast) (claim_ne_digest sha _)
  | hashed hhashed _ =>
    cases hform' with
    | whole =>
      rw [hwords', List.append_cons (wordsOf name')] at heq
      have hlast := (List.append_inj' heq rfl).2
      exact absurd (List.singleton_inj.mp hlast).symm (claim_ne_digest sha _)
    | hashed hhashed' _ =>
      have hlast := (List.append_inj' heq rfl).2
      apply hsame
      rw [hdigest hhashed hhashed' (List.singleton_inj.mp hlast)]

/-- The claim templates of all the intents, for every device. -/
theorem rctNames_nodup (hcoll : NoCollision sha plan) {intents : List WorkflowIntent}
    (hnames : intents.map WorkflowIntent.workflowName = workflowNames sha plan)
    (hnodup : (workflowNames sha plan).Nodup) :
    (intents.flatMap fun i => devices.map (rctNameForIntent sha i)).Nodup := by
  have hmem : ∀ i ∈ intents, i.workflowName ∈ workflowNames sha plan := fun i hi => by
    rw [← hnames]
    exact List.mem_map_of_mem hi
  have hinj : ∀ i ∈ intents, ∀ j ∈ intents, ∀ d ∈ devices, ∀ e ∈ devices,
      rctNameForIntent sha i d = rctNameForIntent sha j e →
        i.workflowName = j.workflowName ∧ d = e := by
    intro i hi j hj d hd e he h
    rw [rctNameForIntent_eq, rctNameForIntent_eq] at h
    obtain ⟨hwords, hdevice⟩ := claimName_injective sha hd he (fun hashed hashed' hdigest =>
      hcoll.eq sha (.claim (hmem i hi) hd hashed) (.claim (hmem j hj) he hashed') hdigest)
      (Except.ok.inj h)
    obtain ⟨ws, hws, hname, _⟩ := mem_workflowNames sha (hmem i hi)
    obtain ⟨ws', hws', hname', _⟩ := mem_workflowNames sha (hmem j hj)
    rw [hname, hname', wordsOf_nameOf hws, wordsOf_nameOf hws'] at hwords
    exact ⟨by rw [hname, hname', hwords], hdevice⟩
  rw [← hnames] at hnodup
  have hpair := List.pairwise_map.mp hnodup
  refine List.nodup_flatMap.mpr ⟨fun i hi => ?_, ?_⟩
  · have hdevices : devices.Nodup := by decide
    exact hdevices.map_on fun d hd e he h => (hinj i hi i hi d hd e he h).2
  · refine hpair.imp_of_mem fun {i j} hi hj hij name hin hjn => ?_
    obtain ⟨d, hd, hdn⟩ := List.mem_map.mp hin
    obtain ⟨e, he, hen⟩ := List.mem_map.mp hjn
    exact hij (hinj i hi j hj d hd e he (hdn.trans hen.symm)).1

/-! ## A compilation -/

/-- An intent for each pair, in order. -/
theorem compiledFrom_pairs (earlier : List String) (ps : List (MissionEvent × AIService)) :
    List.Forall₂ (fun p intent => intent = intentOf plan p intent.workflowName) ps
      (compiledFrom sha plan earlier ps) :=
  (compiledFrom_valid sha plan earlier ps).imp fun _ _ h => h.1

/-- No workload is lost to a collision of names: a compilation gives every pair of an acquisition
and a service an intent of its own name, which is a label as it stands, and no two of the files
or of the claim templates made from the intents share a name. -/
theorem compilePlanToIntents_keeps_workloads (hcount : (pairs plan).length < 10 ^ 7)
    (hcoll : NoCollision sha plan) :
    ∃ intents, compilePlanToIntents sha plan = .ok intents ∧
      List.Forall₂ (fun p intent => intent = intentOf plan p intent.workflowName) (pairs plan)
        intents ∧
      (intents.map WorkflowIntent.workflowName).Nodup ∧
      (∀ i ∈ intents, Rfc1123Label i.workflowName ∧
        sanitizeK8sName i.workflowName 63 = i.workflowName) ∧
      (intents.map argoFileName).Nodup ∧ preflightUnique (intents.map argoFileName) = .ok () ∧
      (∀ emitPriorityClasses schedulerRoute,
        (kueueFileNames emitPriorityClasses schedulerRoute intents).Nodup ∧
        preflightUnique (kueueFileNames emitPriorityClasses schedulerRoute intents) = .ok ()) ∧
      (∀ i ∈ intents, ∀ d ∈ devices, ∃ name, rctNameForIntent sha i d = .ok name) ∧
      (intents.flatMap fun i => devices.map (rctNameForIntent sha i)).Nodup := by
  have hnodup := workflowNames_nodup sha hcoll hcount
  have hmem : ∀ i ∈ compiledFrom sha plan [] (pairs plan),
      i.workflowName ∈ workflowNames sha plan := fun i hi => List.mem_map_of_mem hi
  have hsafe : ((compiledFrom sha plan [] (pairs plan)).map fun i =>
      sanitizeK8sName i.workflowName 63).Nodup := by
    have heq : ((compiledFrom sha plan [] (pairs plan)).map fun i =>
        sanitizeK8sName i.workflowName 63) = workflowNames sha plan :=
      List.map_congr_left fun i hi => sanitizeK8sName_workflowName sha (hmem i hi)
    rwa [heq]
  have hargo : ((compiledFrom sha plan [] (pairs plan)).map argoFileName).Nodup := by
    have hsuffix := hsafe.map (append_right_injective ".yaml")
    rwa [List.map_map] at hsuffix
  have hkueue := fun emit route => kueueFileNames_nodup emit route hsafe
  refine ⟨_, compilePlanToIntents_eq sha plan, compiledFrom_pairs sha [] _, hnodup,
    fun i hi => ⟨rfc1123Label_workflowName sha (hmem i hi),
      sanitizeK8sName_workflowName sha (hmem i hi)⟩,
    hargo, preflightUnique_of_nodup hargo,
    fun emit route => ⟨hkueue emit route, preflightUnique_of_nodup (hkueue emit route)⟩,
    fun i _ d _ => ⟨_, rctNameForIntent_eq sha i d⟩, rctNames_nodup sha hcoll rfl hnodup⟩

/-! A plan whose only service is asked for twice: none of its texts is long enough to be cut. -/

def inferStep : WorkflowStep :=
  ⟨"infer", "registry/infer", none, .gpu, some .cpu, true, [], [], [], [], by decide, by decide⟩

def detectService : AIService :=
  ⟨"detect", 50, none, .sequential, [inferStep], by decide, by decide, by decide⟩

def noon : Timestamp :=
  ⟨2026, 3, 1, 12, 0, 0, 0, 0, by decide, by decide, by decide, by decide, by decide, by decide,
    by decide, by decide, by decide, by decide, by decide, by decide⟩

def repeatedPlan : MissionPlan where
  missionId := "m1"
  clientId := none
  events := [⟨⟨noon, .acquisition, none, none, some "cam", none, false, none,
    [detectService, detectService], by simp⟩, by decide⟩]
  missionId_notBlank := by decide
  events_ne_nil := by decide

/-- The digest of `m1`, as hexadecimal digits. -/
def sampleDigest : List Char :=
  "ca0df2c95aa144c1d0ff2ff3c8f967fdc1de9ef0c4120b3726416701b519d619".toList

/-- A hash that is right about the identifier of the plan. -/
def sampleSha : Sha256 where
  hexdigest s := if s = "m1" then sampleDigest else List.replicate 64 '0'
  length_eq s := by split <;> decide
  hex s c hc := by
    split at hc
    · have hall : (sampleDigest.all fun c =>
          ('0' ≤ c && c ≤ '9') || ('a' ≤ c && c ≤ 'f')) = true := by decide
      simpa using List.all_eq_true.mp hall c hc
    · rw [List.eq_of_mem_replicate hc]
      decide

theorem not_digested_repeatedPlan {s : String} : ¬ Digested sampleSha repeatedPlan s := by
  have hpair : ∀ p ∈ pairs repeatedPlan,
      (sanitizeK8sName (pairText repeatedPlan p) 253).length ≤ 63 := by decide +kernel
  have hcounter : ∀ o ∈ occurrences sampleSha repeatedPlan [] (pairs repeatedPlan),
      (sanitizeK8sName (counterText o.1 o.2) 253).length ≤ 63 := by decide +kernel
  have hclaim : ∀ name ∈ workflowNames sampleSha repeatedPlan, ∀ d ∈ devices,
      (sanitizeK8sName (claimText name d) 253).length ≤ 62 := by decide +kernel
  intro h
  cases h with
  | pair mem hashed => exact absurd hashed (Nat.not_lt.mpr (hpair _ mem))
  | counter mem _ hashed => exact absurd hashed (Nat.not_lt.mpr (hcounter _ mem))
  | claim mem known hashed => exact absurd hashed (Nat.not_lt.mpr (hclaim _ mem _ known))

/-- The repeated service has a workflow of its own each time. -/
theorem compilePlanToIntents_repeatedPlan :
    ∃ intents, compilePlanToIntents sampleSha repeatedPlan = .ok intents ∧
      intents.length = 2 ∧ (intents.map WorkflowIntent.workflowName).Nodup := by
  have hcoll : NoCollision sampleSha repeatedPlan := fun s hs =>
    absurd hs not_digested_repeatedPlan
  obtain ⟨intents, hcompiled, hpairs, hnodup, _⟩ :=
    compilePlanToIntents_keeps_workloads sampleSha (by decide) hcoll
  exact ⟨intents, hcompiled, hpairs.length_eq.symm, hnodup⟩

end MissionCompiler.Compile
