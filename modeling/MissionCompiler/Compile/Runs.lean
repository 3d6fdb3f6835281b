import MissionCompiler.Compile.Intents

/-!
# A compilation, pair by pair

The two loops of `compile_plan_to_intents` visit the pairs of an acquisition and one of its
services in order, and nothing stops them: the intents are one for each pair (`compiledFrom`),
each named by its canonical name and the number of earlier pairs with the same one.
-/

namespace MissionCompiler.Compile

open Lib Schema Names

/-- The pairs the loops visit. -/
def pairs (plan : MissionPlan) : List (MissionEvent × AIService) :=
  (plan.events.filter fun e => e.eventType == .acquisition).flatMap fun e =>
    e.services.map fun s => (e, s)

/-- The text a pair is named by. -/
def pairText (plan : MissionPlan) (p : MissionEvent × AIService) : String :=
  plan.missionId ++ "-" ++ p.2.serviceId ++ "-" ++ toRfc3339Z p.1.timestamp

/-- The text an occurrence is named by, when the canonical name is taken. -/
def counterText (canonical : String) (seen : Nat) : String :=
  canonical ++ "-" ++ toString (seen + 1)

variable (sha : Sha256)

/-- The name of the occurrence of a canonical name after so many earlier ones. -/
def occurrenceName (canonical : String) (seen : Nat) : String :=
  if seen = 0 then canonical else cutName sha (counterText canonical seen) 63 8

/-- The canonical name of a pair. -/
def canonicalName (plan : MissionPlan) (p : MissionEvent × AIService) : String :=
  cutName sha (pairText plan p) 63 8

/-- The occurrences of canonical names, after some earlier ones. -/
def occurrences (plan : MissionPlan) (earlier : List String) :
    List (MissionEvent × AIService) → List (String × Nat)
  | [] => []
  | p :: ps =>
    let canonical := canonicalName sha plan p
    (canonical, earlier.count canonical) :: occurrences plan (canonical :: earlier) ps

def intentOf (plan : MissionPlan) (p : MissionEvent × AIService) (name : String) :
    WorkflowIntent :=
  ⟨plan.missionId, p.2.serviceId, p.2.priority, name, p.2.steps, intentHints p.1 p.2⟩

@[simp] theorem intentOf_workflowName (plan : MissionPlan) (p : MissionEvent × AIService)
    (name : String) : (intentOf plan p name).workflowName = name := rfl

/-- The intents of the pairs, after some earlier ones. -/
def compiledFrom (plan : MissionPlan) (earlier : List String) :
    List (MissionEvent × AIService) → List WorkflowIntent
  | [] => []
  | p :: ps =>
    let canonical := canonicalName sha plan p
    intentOf plan p (occurrenceName sha canonical (earlier.count canonical)) ::
      compiledFrom plan (canonical :: earlier) ps

/-- The dict of names in use counts the canonical names so far. -/
def Counts (used : Used) (earlier : List String) : Prop :=
  ∀ c, (used.lookup c).getD 0 = earlier.count c

/-! ## One pair -/

theorem Counts.cons {used : Used} {earlier : List String} (h : Counts used earlier)
    (c : String) : Counts ((c, earlier.count c + 1) :: used) (c :: earlier) := by
  intro d
  rw [List.count_cons, List.lookup_cons]
  by_cases hd : d = c
  · rw [hd, beq_self_eq_true]
    simp
  · rw [beq_false_of_ne hd, beq_false_of_ne (Ne.symm hd)]
    simpa using h d

theorem workflowName_eq (plan : MissionPlan) (p : MissionEvent × AIService) {used : Used}
    {earlier : List String} (h : Counts used earlier) :
    workflowName sha plan.missionId p.2.serviceId (toRfc3339Z p.1.timestamp) used =
      .ok (occurrenceName sha (canonicalName sha plan p)
          (earlier.count (canonicalName sha plan p)),
        (canonicalName sha plan p, earlier.count (canonicalName sha plan p) + 1) :: used) := by
  have hfirst : collisionResistantK8sName sha (plan.missionId ++ "-" ++ p.2.serviceId ++ "-" ++
      toRfc3339Z p.1.timestamp) 63 8 = .ok (canonicalName sha plan p) :=
    collisionResistantK8sName_eq sha _ (by decide)
  rw [workflowName, hfirst]
  show (if (used.lookup (canonicalName sha plan p)).getD 0 = 0 then _ else _) = _
  rw [h, occurrenceName]
  by_cases hseen : earlier.count (canonicalName sha plan p) = 0
  · rw [if_pos hseen, if_pos hseen]
    rfl
  · have hsecond : collisionResistantK8sName sha (canonicalName sha plan p ++ "-" ++
        toString (earlier.count (canonicalName sha plan p) + 1)) 63 8 =
        .ok (cutName sha (counterText (canonicalName sha plan p)
          (earlier.count (canonicalName sha plan p))) 63 8) :=
      collisionResistantK8sName_eq sha _ (by decide)
    rw [if_neg hseen, if_neg hseen, hsecond]
    rfl

/-- A name is not blank: it has a letter or a digit in it. -/
theorem pyBlank_nameOf {ws : List (List Char)} (h : NameWords ws) :
    pyBlank (nameOf ws) = false := by
  by_contra hblank
  rw [Bool.not_eq_false, pyBlank_iff] at hblank
  cases ws with
  | nil => exact h.ne_nil rfl
  | cons w ws =>
    obtain ⟨hne, halnum⟩ := h.word w List.mem_cons_self
    cases w with
    | nil => exact hne rfl
    | cons c w =>
      have hmem : c ∈ (nameOf ((c :: w) :: ws)).toList := by
        rw [nameOf, String.toList_ofList]
        by_cases hws : ws = []
        · rw [hws, dashed_singleton]
          exact List.mem_cons_self
        · rw [dashed_cons hws]
          exact List.mem_cons_self
      have hspace := hblank c hmem
      have hc := isAlnum_iff.mp (halnum c List.mem_cons_self)
      simp only [isPySpace, Bool.or_eq_true, Bool.and_eq_true, decide_eq_true_eq,
        beq_iff_eq] at hspace
      omega

theorem wordsOf_pairText_ne_nil (plan : MissionPlan) (p : MissionEvent × AIService) :
    wordsOf (pairText plan p) ≠ [] := by
  rw [pairText, wordsOf_append_dash]
  exact ((eventTail_timestamp p.1.timestamp).append_left _).ne_nil

/-- What `_workflow_name` gives is a name. -/
theorem occurrenceName_name (plan : MissionPlan) (p : MissionEvent × AIService) (seen : Nat) :
    ∃ ws, NameWords ws ∧ occurrenceName sha (canonicalName sha plan p) seen = nameOf ws ∧
      (nameOf ws).length ≤ 63 := by
  obtain ⟨ws, hws, _, hcut, hlen⟩ :=
    cutName_form sha (wordsOf_pairText_ne_nil plan p) (show 10 ≤ 63 by decide) (by decide)
  unfold occurrenceName
  split
  · exact ⟨ws, hws, hcut, hlen⟩
  · have hne : wordsOf (counterText (canonicalName sha plan p) seen) ≠ [] := by
      have hcanonical : canonicalName sha plan p = nameOf ws := hcut
      rw [counterText, wordsOf_append_dash, hcanonical, wordsOf_nameOf hws]
      exact List.append_ne_nil_of_left_ne_nil hws.ne_nil _
    obtain ⟨vs, hvs, _, hcut, hlen⟩ := cutName_form sha hne (show 10 ≤ 63 by decide) (by decide)
    exact ⟨vs, hvs, hcut, hlen⟩

/-- The hints of an intent are what its steps say. -/
theorem describeSteps_intentHints (event : MissionEvent) (svc : AIService) :
    describeSteps (intentHints event svc) (derivedHints svc.steps) =
      .ok (intentHints event svc) := by
  have hany : ∀ f : WorkflowStep → Bool, (!(svc.steps.filter f).isEmpty) = svc.steps.any f := by
    intro f
    rw [Bool.eq_iff_iff]
    simp [List.filter_eq_nil_iff]
  simp only [derivedHints, ← hany]
  simp [describeSteps, intentHints, List.lookup_cons]

/-- The constructor takes the fields of an intent, and has nothing to add to its hints. -/
def WorkflowIntent.Valid (intent : WorkflowIntent) : Prop :=
  WorkflowIntent.construct intent.missionId intent.serviceId intent.priority intent.workflowName
    intent.steps intent.resourceHints = .ok intent

theorem construct_intentOf (plan : MissionPlan) (p : MissionEvent × AIService) {name : String}
    (hname : pyBlank name = false) :
    WorkflowIntent.construct plan.missionId p.2.serviceId p.2.priority name p.2.steps
      (intentHints p.1 p.2) = .ok (intentOf plan p name) := by
  have hpriority : decide (p.2.priority > 100) = false :=
    decide_eq_false (Nat.not_lt.mpr p.2.priority_le)
  have hsteps : p.2.steps.isEmpty = false := by simpa using p.2.steps_ne_nil
  rw [WorkflowIntent.construct, plan.missionId_notBlank, p.2.serviceId_notBlank, hname,
    describeSteps_intentHints, hpriority, hsteps]
  rfl

theorem pyBlank_occurrenceName (plan : MissionPlan) (p : MissionEvent × AIService) (seen : Nat) :
    pyBlank (occurrenceName sha (canonicalName sha plan p) seen) = false := by
  obtain ⟨ws, hws, hname, _⟩ := occurrenceName_name sha plan p seen
  rw [hname]
  exact pyBlank_nameOf hws

theorem compileService_eq (plan : MissionPlan) (p : MissionEvent × AIService) {used : Used}
    {earlier : List String} (h : Counts used earlier) (out : List WorkflowIntent) :
    compileService sha plan p.1 (out, used) p.2 =
      .ok (out ++ [intentOf plan p (occurrenceName sha (canonicalName sha plan p)
          (earlier.count (canonicalName sha plan p)))],
        (canonicalName sha plan p, earlier.count (canonicalName sha plan p) + 1) :: used) := by
  rw [compileService, workflowName_eq sha plan p h]
  show (WorkflowIntent.construct _ _ _ _ _ _ >>= _) = _
  rw [construct_intentOf plan p (pyBlank_occurrenceName sha plan p _)]
  rfl

/-! ## The loops -/

theorem foldlM_events (plan : MissionPlan) (events : List MissionEvent)
    (state : List WorkflowIntent × Used) :
    events.foldlM (compileEvent sha plan) state =
      ((events.filter fun e => e.eventType == .acquisition).flatMap fun e =>
        e.services.map fun s => (e, s)).foldlM
          (fun state p => compileService sha plan p.1 state p.2) state := by
  induction events generalizing state with
  | nil => rfl
  | cons event events ih =>
    rw [List.foldlM_cons]
    by_cases h : event.eventType = .acquisition
    · rw [List.filter_cons_of_pos (by simp [h]), List.flatMap_cons, List.foldlM_append,
        List.foldlM_map, compileEvent, if_neg (not_not.mpr h)]
      exact congrArg _ (funext ih)
    · rw [List.filter_cons_of_neg (by simpa using h), compileEvent, if_pos h, ← ih]
      rfl

theorem foldlM_compileService (plan : MissionPlan) (ps : List (MissionEvent × AIService))
    (out : List WorkflowIntent) {used : Used} {earlier : List String} (h : Counts used earlier) :
    ∃ used', ps.foldlM (fun state p => compileService sha plan p.1 state p.2) (out, used) =
      .ok (out ++ compiledFrom sha plan earlier ps, used') := by
  induction ps generalizing out used earlier with
  | nil => exact ⟨used, by rw [compiledFrom, List.append_nil]; rfl⟩
  | cons p ps ih =>
    obtain ⟨used', hrest⟩ := ih (out ++ [_]) (h.cons (canonicalName sha plan p))
    refine ⟨used', ?_⟩
    rw [List.foldlM_cons, compileService_eq sha plan p h out]
    rw [List.append_assoc] at hrest
    exact hrest

/-- A compilation gives one intent for each pair, and raises nothing. -/
theorem compilePlanToIntents_eq (plan : MissionPlan) :
    compilePlanToIntents sha plan = .ok (compiledFrom sha plan [] (pairs plan)) := by
  have hempty : Counts [] [] := fun c => rfl
  obtain ⟨used, hrun⟩ := foldlM_compileService sha plan (pairs plan) [] hempty
  rw [compilePlanToIntents, foldlM_events]
  show (List.foldlM _ _ (pairs plan) >>= _) = _
  rw [hrun]
  rfl

/-- A valid intent for each pair, in order. -/
theorem compiledFrom_valid (plan : MissionPlan) (earlier : List String)
    (ps : List (MissionEvent × AIService)) :
    List.Forall₂ (fun p intent => intent = intentOf plan p intent.workflowName ∧ intent.Valid) ps
      (compiledFrom sha plan earlier ps) := by
  induction ps generalizing earlier with
  | nil => exact .nil
  | cons p ps ih =>
    refine .cons ⟨by rw [intentOf_workflowName], ?_⟩ (ih _)
    exact construct_intentOf plan p (pyBlank_occurrenceName sha plan p _)

theorem compiledFrom_names (plan : MissionPlan) (earlier : List String)
    (ps : List (MissionEvent × AIService)) :
    (compiledFrom sha plan earlier ps).map WorkflowIntent.workflowName =
      (occurrences sha plan earlier ps).map fun o => occurrenceName sha o.1 o.2 := by
  induction ps generalizing earlier with
  | nil => rfl
  | cons p ps ih =>
    simp only [compiledFrom, occurrences, List.map_cons, ih, intentOf_workflowName]

end MissionCompiler.Compile
