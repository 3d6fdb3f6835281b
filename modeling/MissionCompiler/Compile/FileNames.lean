import MissionCompiler.Compile.Unique

/-!
# Files of the two renderers

The file of an Argo workflow is named after the workflow, and those of a Kueue job after the
workflow and a word more. No workflow has a name that ends with such a word (`lastWord_workflow`),
so a file of one renderer is never a file of the other, whatever the plans are.
-/

namespace MissionCompiler.Compile

open Lib Schema Names

variable {sha : Sha256} {plan : MissionPlan}

/-! ## The last word of a workflow -/

/-- What the name of a workflow ends with: the last word of a timestamp, a digest, or a count. -/
inductive LastWord (sha : Sha256) : List Char → Prop where
  | timestamp {w : List Char} (length : w.length = 2 ∨ w.length = 3 ∨ w.length = 7) : LastWord sha w
  | digest (s : String) : LastWord sha (sha.digest 8 s)
  | count (n : Nat) : LastWord sha (Nat.toDigits 10 n)

/-- A word that is not as short as a timestamp's is made of hexadecimal digits. -/
theorem LastWord.hex {w : List Char} (h : LastWord sha w)
    (hlen : w.length ≠ 2 ∧ w.length ≠ 3 ∧ w.length ≠ 7) :
    ∀ c ∈ w, ('0' ≤ c ∧ c ≤ '9') ∨ ('a' ≤ c ∧ c ≤ 'f') := by
  intro c hc
  cases h with
  | timestamp length =>
    obtain ⟨h₂, h₃, h₇⟩ := hlen
    omega
  | digest s => exact sha.hex s c (List.mem_of_mem_take hc)
  | count n => exact .inl (isDigit_of_mem_toDigits hc)

/-- A list of words and the last of them. -/
def EndsIn (ws : List (List Char)) (last : List Char) : Prop := ∃ front, ws = front ++ [last]

theorem lastWord_eventTail {ws : List (List Char)} (h : EventTail ws) :
    ∃ last, EndsIn ws last ∧ LastWord sha last := by
  rcases List.eq_nil_or_concat' ws with hnil | ⟨front, last, rfl⟩
  · exact absurd hnil h.ne_nil
  · refine ⟨last, ⟨front, rfl⟩, .timestamp ?_⟩
    rcases eventTail_last h with ⟨_, hlen⟩ | ⟨hlen, _⟩
    · exact .inr hlen
    · exact .inl hlen

theorem lastWord_workflow {name : String} (h : name ∈ workflowNames sha plan) :
    ∃ last, EndsIn (wordsOf name) last ∧ LastWord sha last := by
  rw [workflowNames, compiledFrom_names] at h
  obtain ⟨o, ho, rfl⟩ := List.mem_map.mp h
  obtain ⟨p, _, ws, hws, hname, hform, _, _⟩ := plain_form sha ho
  by_cases hfirst : o.2 = 0
  · rw [occurrenceName, if_pos hfirst, hname, wordsOf_nameOf hws]
    cases hform with
    | whole =>
      rw [pairText, wordsOf_append_dash]
      exact lastWord_eventTail ((eventTail_timestamp p.1.timestamp).append_left _)
    | hashed _ _ => exact ⟨_, ⟨_, rfl⟩, .digest _⟩
  · obtain ⟨vs, hvs, hcounted, hform⟩ := counted_form sha hws hname hfirst
    rw [hcounted, wordsOf_nameOf hvs]
    rcases hform with rfl | ⟨_, head, rfl⟩
    · exact ⟨_, ⟨_, rfl⟩, .count _⟩
    · exact ⟨_, ⟨_, rfl⟩, .digest _⟩

/-! ## Files -/

/-- The intents of a plan have the names of its workflows. -/
theorem workflowName_of_compiled {intents : List WorkflowIntent}
    (h : compilePlanToIntents sha plan = .ok intents) {intent : WorkflowIntent}
    (hintent : intent ∈ intents) : intent.workflowName ∈ workflowNames sha plan := by
  rw [compilePlanToIntents_eq] at h
  rw [workflowNames, Except.ok.inj h]
  exact List.mem_map_of_mem hintent

/-- A file whose name has a word before its suffix that no workflow ends with is not the file of
a workflow. -/
theorem argoFileName_ne {intent : WorkflowIntent}
    (hintent : intent.workflowName ∈ workflowNames sha plan) (front : String) {word : String}
    (hword : wordsOf word = [word.toList]) (hlast : ¬ LastWord sha word.toList) :
    argoFileName intent ≠ front ++ "-" ++ word ++ ".yaml" := by
  intro h
  rw [argoFileName, sanitizeK8sName_workflowName sha hintent] at h
  have hname : intent.workflowName = front ++ "-" ++ word := append_right_injective _ h
  obtain ⟨last, ⟨rest, hends⟩, hofWorkflow⟩ := lastWord_workflow hintent
  rw [hname, wordsOf_append_dash, hword] at hends
  have hsame := List.singleton_inj.mp (List.append_inj' hends rfl).2
  rw [hsame] at hlast
  exact hlast hofWorkflow

theorem not_lastWord_kueue : ¬ LastWord sha "kueue".toList := fun h =>
  absurd (h.hex (by decide) 'k' (by decide)) (by decide)

theorem not_lastWord_fallback : ¬ LastWord sha "fallback".toList := fun h =>
  absurd (h.hex (by decide) 'k' (by decide)) (by decide)

/-- A file of `render-argo` is no file of `render-kueue`. -/
theorem argoFileName_ne_kueue {intent : WorkflowIntent}
    (hintent : intent.workflowName ∈ workflowNames sha plan) (other : WorkflowIntent) :
    argoFileName intent ≠ kueueFileName other ∧
      argoFileName intent ≠ schedulerFallbackFileName other := by
  have hkueue : kueueFileName other =
      sanitizeK8sName other.workflowName 63 ++ "-" ++ "kueue" ++ ".yaml" := by
    simp only [kueueFileName, String.append_assoc]
    rfl
  have hfallback : schedulerFallbackFileName other =
      (sanitizeK8sName other.workflowName 63 ++ "-scheduler") ++ "-" ++ "fallback" ++ ".yaml" := by
    simp only [schedulerFallbackFileName, String.append_assoc]
    rfl
  rw [hkueue, hfallback]
  exact ⟨argoFileName_ne hintent _ (by decide) not_lastWord_kueue,
    argoFileName_ne hintent _ (by decide) not_lastWord_fallback⟩

end MissionCompiler.Compile
