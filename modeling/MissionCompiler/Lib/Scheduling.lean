import Mathlib.Data.Fintype.Basic
import Mathlib.Data.List.FinRange
import Mathlib.Data.Set.Function
import Mathlib.Logic.Function.Basic

/-!
# Tasks that an engine runs

A system of tasks says what each task runs and when it may start. An engine starts tasks that may
start, and a task that runs succeeds or fails; what is seen of a run is what was run, not which
task ran it. Two systems with a correspondence of their tasks have the same runs. A chain runs one
task after another, a system without order any that is left.
-/

namespace Lib

/-- How far a task has come. -/
inductive TaskPhase where
  | waiting
  | running
  | succeeded
  | failed
deriving DecidableEq

/-- Something that a task runs comes to a phase. -/
structure Happening (κ : Type) where
  what : κ
  becomes : TaskPhase

structure TaskSystem (α κ : Type) where
  tasks : Set α
  runs : α → κ
  ready : (α → TaskPhase) → α → Prop

/-- What was started, in order. -/
def startsOf {κ : Type} (hs : List (Happening κ)) : List κ :=
  (hs.filter fun h => h.becomes == .running).map Happening.what

namespace TaskSystem

variable {α β κ : Type}

section

variable (T : TaskSystem α κ)

/-- A task may come to a phase. -/
def May (s : α → TaskPhase) (a : α) : TaskPhase → Prop
  | .waiting => False
  | .running => s a = .waiting ∧ T.ready s a
  | .succeeded => s a = .running
  | .failed => s a = .running

variable [DecidableEq α]

/-- The runs of an engine so far, each with the phases it has brought the tasks to. -/
inductive Run : List (Happening κ) → (α → TaskPhase) → Prop
  | start : Run [] fun _ => .waiting
  | step {hs : List (Happening κ)} {s : α → TaskPhase} {a : α} {phase : TaskPhase}
      (run : Run hs s) (task : a ∈ T.tasks) (may : T.May s a phase) :
      Run (hs ++ [⟨T.runs a, phase⟩]) (Function.update s a phase)

/-- What may be seen of a run. -/
def traces : Set (List (Happening κ)) := {hs | ∃ s, T.Run hs s}

/-- What may be seen of a run in which every task succeeds. -/
def completions : Set (List (Happening κ)) :=
  {hs | ∃ s, T.Run hs s ∧ ∀ a ∈ T.tasks, s a = .succeeded}

end

variable {f : α → β} {S : TaskSystem α κ} {T : TaskSystem β κ} {s : α → TaskPhase}
  {t : β → TaskPhase} {a : α} {phase : TaskPhase} {hs : List (Happening κ)}

/-- A task that may come to a later phase is running. -/
theorem May.running (h : S.May s a phase) (hphase : phase ≠ .running) : s a = .running := by
  cases phase with
  | waiting => exact h.elim
  | running => exact absurd rfl hphase
  | succeeded => exact h
  | failed => exact h

theorem May.ne_waiting (h : S.May s a phase) : phase ≠ .waiting := by
  rintro rfl
  exact h

/-- A task that is ready, if it waits, has failed or has succeeded or may go on. -/
theorem May.of_ready (hs : s a ≠ .succeeded) (hready : s a = .waiting → S.ready s a) :
    s a = .failed ∨ ∃ phase, S.May s a phase := by
  cases hphase : s a with
  | waiting => exact .inr ⟨.running, hphase, hready hphase⟩
  | running => exact .inr ⟨.succeeded, hphase⟩
  | succeeded => exact absurd hphase hs
  | failed => exact .inl rfl

/-! ## Correspondences -/

/-- Tasks are where their counterparts are. -/
def Matches (f : α → β) (S : TaskSystem α κ) (s : α → TaskPhase) (t : β → TaskPhase) : Prop :=
  ∀ a ∈ S.tasks, t (f a) = s a

structure Corresponds (f : α → β) (S : TaskSystem α κ) (T : TaskSystem β κ) : Prop where
  tasks : Set.BijOn f S.tasks T.tasks
  runs : ∀ a ∈ S.tasks, T.runs (f a) = S.runs a
  ready : ∀ s t, Matches f S s t → ∀ a ∈ S.tasks, (T.ready t (f a) ↔ S.ready s a)

theorem Matches.may (h : Corresponds f S T) (hst : Matches f S s t) (ha : a ∈ S.tasks) :
    T.May t (f a) phase ↔ S.May s a phase := by
  cases phase with
  | waiting => exact Iff.rfl
  | running => exact and_congr (by rw [hst a ha]) (h.ready s t hst a ha)
  | succeeded => exact iff_of_eq (congrArg (· = _) (hst a ha))
  | failed => exact iff_of_eq (congrArg (· = _) (hst a ha))

variable [DecidableEq α] [DecidableEq β]

theorem Matches.update (h : Corresponds f S T) (hst : Matches f S s t) (ha : a ∈ S.tasks) :
    Matches f S (Function.update s a phase) (Function.update t (f a) phase) := by
  intro b hb
  by_cases hba : b = a
  · rw [hba, Function.update_self, Function.update_self]
  · have hne : f b ≠ f a := fun heq => hba (h.tasks.injOn hb ha heq)
    rw [Function.update_of_ne hba, Function.update_of_ne hne]
    exact hst b hb

/-- A run of the one is a run of the other. -/
theorem Corresponds.run (h : Corresponds f S T) (hrun : S.Run hs s) :
    ∃ t, T.Run hs t ∧ Matches f S s t := by
  induction hrun with
  | start => exact ⟨_, .start, fun _ _ => rfl⟩
  | step hrun ha hmay ih =>
    obtain ⟨t, hrun', hst⟩ := ih
    refine ⟨_, ?_, hst.update h ha⟩
    rw [← h.runs _ ha]
    exact .step hrun' (h.tasks.mapsTo ha) ((hst.may h ha).mpr hmay)

theorem Corresponds.run_back (h : Corresponds f S T) (hrun : T.Run hs t) :
    ∃ s, S.Run hs s ∧ Matches f S s t := by
  induction hrun with
  | start => exact ⟨_, .start, fun _ _ => rfl⟩
  | @step hs t b phase hrun hb hmay ih =>
    obtain ⟨s, hrun', hst⟩ := ih
    obtain ⟨a, ha, rfl⟩ := h.tasks.surjOn hb
    refine ⟨_, ?_, hst.update h ha⟩
    rw [h.runs a ha]
    exact .step hrun' ha ((hst.may h ha).mp hmay)

theorem Corresponds.traces_eq (h : Corresponds f S T) : T.traces = S.traces := by
  ext hs
  constructor
  · intro htrace
    obtain ⟨t, hrun⟩ := htrace
    obtain ⟨s, hrun', _⟩ := h.run_back hrun
    exact ⟨s, hrun'⟩
  · intro htrace
    obtain ⟨s, hrun⟩ := htrace
    obtain ⟨t, hrun', _⟩ := h.run hrun
    exact ⟨t, hrun'⟩

theorem Corresponds.completions_eq (h : Corresponds f S T) : T.completions = S.completions := by
  ext hs
  constructor
  · intro hcomplete
    obtain ⟨t, hrun, hall⟩ := hcomplete
    obtain ⟨s, hrun', hst⟩ := h.run_back hrun
    refine ⟨s, hrun', fun a ha => ?_⟩
    rw [← hst a ha]
    exact hall (f a) (h.tasks.mapsTo ha)
  · intro hcomplete
    obtain ⟨s, hrun, hall⟩ := hcomplete
    obtain ⟨t, hrun', hst⟩ := h.run hrun
    refine ⟨t, hrun', fun b hb => ?_⟩
    obtain ⟨a, ha, rfl⟩ := h.tasks.surjOn hb
    rw [hst a ha]
    exact hall a ha

/-! ## Runs of any system -/

theorem startsOf_append (hs : List (Happening κ)) (h : Happening κ) :
    startsOf (hs ++ [h]) = startsOf hs ++ if h.becomes = .running then [h.what] else [] := by
  rw [startsOf, List.filter_append, List.map_append, startsOf]
  congr 1
  by_cases hrunning : h.becomes = .running
  · rw [if_pos hrunning, List.filter_cons_of_pos (by simp [hrunning])]
    rfl
  · rw [if_neg hrunning, List.filter_cons_of_neg (by simp [hrunning])]
    rfl

/-- A failure is seen. -/
theorem Run.failed (hrun : S.Run hs s) (hfailed : s a = .failed) :
    ∃ h ∈ hs, h.becomes = .failed := by
  induction hrun with
  | start => cases hfailed
  | @step hs s b phase hrun hb hmay ih =>
    by_cases hphase : phase = .failed
    · exact ⟨_, List.mem_append_right _ List.mem_cons_self, hphase⟩
    · by_cases hab : a = b
      · rw [hab, Function.update_self] at hfailed
        exact absurd hfailed hphase
      · rw [Function.update_of_ne hab] at hfailed
        obtain ⟨h, hmem, hbecomes⟩ := ih hfailed
        exact ⟨h, List.mem_append_left _ hmem, hbecomes⟩

/-- Each task is started once, and those that wait are not. -/
theorem Run.startsOf_perm {tasks : List α} (hnodup : tasks.Nodup)
    (htasks : ∀ a ∈ S.tasks, a ∈ tasks) (hrun : S.Run hs s) :
    (startsOf hs).Perm ((tasks.filter fun a => s a != .waiting).map S.runs) := by
  induction hrun with
  | start => simp [startsOf]
  | @step hs s a phase hrun ha hmay ih =>
    rw [startsOf_append]
    by_cases hphase : phase = .running
    · -- the task leaves those that wait
      subst hphase
      have hwaiting : s a = .waiting := hmay.1
      obtain ⟨before, after, rfl⟩ := List.append_of_mem (htasks a ha)
      have hnot : a ∉ before ∧ a ∉ after := by
        have hmiddle := List.nodup_middle.mp hnodup
        simpa [not_or] using (List.nodup_cons.mp hmiddle).1
      have hsame : ∀ part : List α, a ∉ part → (part.filter fun b =>
          Function.update s a TaskPhase.running b != .waiting) =
            part.filter fun b => s b != .waiting := by
        intro part hpart
        apply List.filter_congr
        intro b hb
        have hne : b ≠ a := fun heq => hpart (heq ▸ hb)
        rw [Function.update_of_ne hne]
      rw [List.filter_append, List.filter_cons_of_neg (by simp [hwaiting])] at ih
      rw [List.filter_append, List.filter_cons_of_pos (by simp), hsame _ hnot.1, hsame _ hnot.2,
        if_pos rfl, List.map_append, List.map_cons]
      refine ((ih.append_right _).trans ?_)
      rw [List.map_append]
      exact (List.perm_append_singleton _ _).trans List.perm_middle.symm
    · -- no other task starts, and this one has started
      have hrunning := hmay.running hphase
      have hsame : (tasks.filter fun b => Function.update s a phase b != .waiting) =
          tasks.filter fun b => s b != .waiting := by
        apply List.filter_congr
        intro b _
        by_cases hba : b = a
        · rw [hba, Function.update_self, hrunning, bne_iff_ne.mpr hmay.ne_waiting]
          rfl
        · rw [Function.update_of_ne hba]
      rw [hsame, if_neg hphase, List.append_nil]
      exact ih

/-! ## Going on -/

/-- While some task has not succeeded, one of those does not wait for another. -/
def Live (T : TaskSystem α κ) : Prop :=
  ∀ s, (∀ a ∈ T.tasks, s a = .succeeded) ∨
    ∃ a ∈ T.tasks, s a ≠ .succeeded ∧ (s a = .waiting → T.ready s a)

/-- A run of a live system is never stuck: it is complete, something has failed, or it can go
on. -/
theorem Live.goes_on (hlive : S.Live) (h : hs ∈ S.traces) :
    hs ∈ S.completions ∨ (∃ h ∈ hs, h.becomes = .failed) ∨ ∃ h, hs ++ [h] ∈ S.traces := by
  obtain ⟨s, hrun⟩ := h
  rcases hlive s with hall | ⟨a, ha, hne, hready⟩
  · exact .inl ⟨s, hrun, hall⟩
  · rcases May.of_ready hne hready with hfailed | ⟨phase, hmay⟩
    · exact .inr (.inl (hrun.failed hfailed))
    · exact .inr (.inr ⟨_, _, hrun.step ha hmay⟩)

/-! ## Chains -/

/-- One task after another. -/
def chain (xs : List κ) : TaskSystem (Fin xs.length) κ where
  tasks := Set.univ
  runs i := xs[i]
  ready s i := ∀ j : Fin xs.length, j.val + 1 = i.val → s j = .succeeded

/-- Tasks in any order. -/
def unordered (xs : List κ) : TaskSystem (Fin xs.length) κ where
  tasks := Set.univ
  runs i := xs[i]
  ready _ _ := True

variable {xs : List κ}

theorem live_chain : (chain xs).Live := by
  intro s
  by_cases hall : ∀ i, s i = .succeeded
  · exact .inl fun i _ => hall i
  · have hex : ∃ n, ∃ h : n < xs.length, s ⟨n, h⟩ ≠ .succeeded := by
      obtain ⟨i, hi⟩ := not_forall.mp hall
      exact ⟨i.val, i.isLt, hi⟩
    obtain ⟨hn, hne⟩ := Nat.find_spec hex
    refine .inr ⟨⟨Nat.find hex, hn⟩, trivial, hne, fun _ j hj => ?_⟩
    have hlt : j.val < Nat.find hex := by
      simp only at hj
      omega
    by_contra hj'
    exact Nat.find_min hex hlt ⟨j.isLt, hj'⟩

theorem live_unordered : (unordered xs).Live := by
  intro s
  by_cases hall : ∀ i, s i = .succeeded
  · exact .inl fun i _ => hall i
  · obtain ⟨i, hi⟩ := not_forall.mp hall
    exact .inr ⟨i, trivial, hi, fun _ => trivial⟩

/-- What a chain has started is what comes first in it, and all of that but the last has
succeeded. -/
theorem chain_run {s : Fin xs.length → TaskPhase} (hrun : (chain xs).Run hs s) :
    ∃ k ≤ xs.length, startsOf hs = xs.take k ∧ (∀ i, s i = .waiting ↔ k ≤ i.val) ∧
      ∀ i, i.val + 1 < k → s i = .succeeded := by
  induction hrun with
  | start => exact ⟨0, Nat.zero_le _, rfl, fun i => by simp, fun i hi => by omega⟩
  | @step hs s a phase hrun ha hmay ih =>
    obtain ⟨k, hk, hstarts, hwaiting, hsucceeded⟩ := ih
    rw [startsOf_append, hstarts]
    by_cases hphase : phase = .running
    · -- only the next one is ready
      subst hphase
      obtain ⟨hwait, hready⟩ := hmay
      have hka : k ≤ a.val := (hwaiting a).mp hwait
      have hak : a.val = k := by
        by_contra hne
        have hlt : a.val - 1 < xs.length := by omega
        have hbefore := hready ⟨a.val - 1, hlt⟩ (by simp only; omega)
        have hwait' := (hwaiting ⟨a.val - 1, hlt⟩).mpr (by simp only; omega)
        rw [hbefore] at hwait'
        cases hwait'
      have hlt : k < xs.length := hak ▸ a.isLt
      refine ⟨k + 1, hlt, ?_, fun i => ?_, fun i hi => ?_⟩
      · rw [if_pos rfl, List.take_succ_eq_append_getElem hlt]
        simp [chain, hak]
      · by_cases hia : i = a
        · rw [hia, Function.update_self]
          exact iff_of_false (by simp) (by omega)
        · have hne : i.val ≠ a.val := fun heq => hia (Fin.ext heq)
          rw [Function.update_of_ne hia, hwaiting i]
          omega
      · have hia : i ≠ a := by
          rintro rfl
          omega
        rw [Function.update_of_ne hia]
        by_cases hlast : i.val + 1 = a.val
        · exact hready i hlast
        · exact hsucceeded i (by omega)
    · -- the one that runs ends
      have hrunning := hmay.running hphase
      refine ⟨k, hk, ?_, fun i => ?_, fun i hi => ?_⟩
      · rw [if_neg hphase, List.append_nil]
      · by_cases hia : i = a
        · rw [hia, Function.update_self, ← hwaiting a, hrunning]
          exact iff_of_false hmay.ne_waiting (by simp)
        · rw [Function.update_of_ne hia, hwaiting i]
      · have hia : i ≠ a := by
          rintro rfl
          rw [hsucceeded i hi] at hrunning
          cases hrunning
        rw [Function.update_of_ne hia]
        exact hsucceeded i hi

/-- A chain starts its tasks in their order. -/
theorem chain_in_order (h : hs ∈ (chain xs).traces) : startsOf hs <+: xs := by
  obtain ⟨s, hrun⟩ := h
  obtain ⟨k, _, hstarts, _⟩ := chain_run hrun
  rw [hstarts]
  exact List.take_prefix k xs

/-- When all of the tasks of a list have succeeded, each was started once. -/
theorem startsOf_completion {T : TaskSystem (Fin xs.length) κ} (htasks : T.tasks = Set.univ)
    (hruns : ∀ i, T.runs i = xs[i]) (h : hs ∈ T.completions) : (startsOf hs).Perm xs := by
  obtain ⟨s, hrun, hall⟩ := h
  have hperm := hrun.startsOf_perm (List.nodup_finRange _) fun i _ => List.mem_finRange i
  have hstarted : ((List.finRange xs.length).filter fun i => s i != .waiting) =
      List.finRange xs.length := by
    apply List.filter_eq_self.mpr
    intro i _
    rw [hall i (htasks ▸ Set.mem_univ i)]
    rfl
  have hmap : (List.finRange xs.length).map T.runs = xs := by
    rw [funext hruns]
    exact List.map_getElem_finRange xs
  rwa [hstarted, hmap] at hperm

end TaskSystem

end Lib
