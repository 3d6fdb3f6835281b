import MissionCompiler.Cli.Concurrent
import MissionCompiler.Cli.LockProtocol

/-!
# Renders over a lock file

The lock that concurrent renders take is the lock file of `_publish_lock`, among users who may be
hostile. As long as nobody hostile can come to remove that file, every interleaving of the renders,
of the steps in which they take the lock and of what the others do is an interleaving of the renders
over a lock that is simply held or free, and so comes to what they do one after another.
-/

namespace MissionCompiler.Cli

open Lib Schema Names Compile Render Artifact Publish

/-! ## Clients with a lock file -/

section

variable {ι υ σ π κ ρ : Type} [DecidableEq ι] [DecidableEq υ] (site : LockSite ι υ)
  (clients : ι → Client σ π κ ρ) (lockable : Bool)

/-- A step of the lock file, or of a client with the step of the lock file that it waited for. A
client that finds that nothing can lock goes on as one that has no lock. -/
inductive LockedStep (s : Locking ι υ) (t : System ι σ π κ ρ) :
    Option ι → Locking ι υ → System ι σ π κ ρ → Prop
  | aside {s' : Locking ι υ} (step : LockStep site lockable s .aside s') :
      LockedStep s t none s' t
  | moved {i : ι} {k : κ} {s' : Locking ι υ} (here : t.phase i = .before (.done (.ok k)))
      (step : LockStep site lockable s (.moved i) s') : LockedStep s t none s' t
  | work {i : ι} {act : π → π} {next : π → Proc π (Except ρ κ)}
      (here : t.phase i = .before (.step act next)) :
      LockedStep s t (some i) s { t with
        phase := Function.update t.phase i (.before (next (t.own i)))
        own := Function.update t.own i (act (t.own i)) }
  | stop {i : ι} {r : ρ} (here : t.phase i = .before (.done (.error r))) :
      LockedStep s t (some i) s { t with phase := Function.update t.phase i (.after r) }
  | took {i : ι} {k : κ} {s' : Locking ι υ} (here : t.phase i = .before (.done (.ok k)))
      (step : LockStep site lockable s (.took i) s') :
      LockedStep s t (some i) s' { t with
        holder := some i
        phase := Function.update t.phase i (.inside ((clients i).inside k))
        seen := Function.update t.seen i t.shared
        order := t.order ++ [i] }
  | refused {i : ι} {k : κ} {refusal : LockError} {s' : Locking ι υ}
      (here : t.phase i = .before (.done (.ok k)))
      (step : LockStep site lockable s (.refused i refusal) s')
      (grave : refusal.isUnsupported = false) :
      LockedStep s t (some i) s'
        { t with phase := Function.update t.phase i (.after (clients i).refused) }
  | without {i : ι} {k : κ} {refusal : LockError} {s' : Locking ι υ}
      (here : t.phase i = .before (.done (.ok k)))
      (step : LockStep site lockable s (.refused i refusal) s')
      (light : refusal.isUnsupported = true) :
      LockedStep s t (some i) s' { t with
        phase := Function.update t.phase i (.inside ((clients i).unlocked k))
        seen := Function.update t.seen i t.shared
        order := t.order ++ [i] }
  | act {i : ι} {act : σ × π → σ × π} {next : σ × π → Proc (σ × π) ρ}
      (here : t.phase i = .inside (.step act next)) :
      LockedStep s t (some i) s { t with
        shared := (act (t.shared, t.own i)).1
        phase := Function.update t.phase i (.inside (next (t.shared, t.own i)))
        own := Function.update t.own i (act (t.shared, t.own i)).2
        seen := Function.update t.seen i (act (t.shared, t.own i)).1 }
  | left {i : ι} {r : ρ} {s' : Locking ι υ} (here : t.phase i = .inside (.done r))
      (step : LockStep site lockable s (.left i) s') :
      LockedStep s t (some i) s' { t with
        holder := if t.holder = some i then none else t.holder
        phase := Function.update t.phase i (.after r) }
  | ended {i : ι} {r : ρ} (here : t.phase i = .inside (.done r))
      (unlocked : s.phase i = .finished) :
      LockedStep s t (some i) s { t with
        holder := if t.holder = some i then none else t.holder
        phase := Function.update t.phase i (.after r) }

/-- An interleaving of clients over a lock file, with what each step of a client did to the shared
state. -/
inductive LockedRun (s₀ : Locking ι υ) (t₀ : System ι σ π κ ρ) :
    List (Change ι σ) → Locking ι υ → System ι σ π κ ρ → Prop
  | nil : LockedRun s₀ t₀ [] s₀ t₀
  | aside {changes : List (Change ι σ)} {s s' : Locking ι υ} {t t' : System ι σ π κ ρ}
      (steps : LockedRun s₀ t₀ changes s t)
      (step : LockedStep site clients lockable s t none s' t') : LockedRun s₀ t₀ changes s' t'
  | snoc {changes : List (Change ι σ)} {s s' : Locking ι υ} {t t' : System ι σ π κ ρ} {i : ι}
      (steps : LockedRun s₀ t₀ changes s t)
      (step : LockedStep site clients lockable s t (some i) s' t') :
      LockedRun s₀ t₀ (changes ++ [⟨i, t.seen i, t.shared, t'.shared⟩]) s' t'

end

section

variable {ι υ σ π κ ρ : Type} [DecidableEq ι] [DecidableEq υ] {site : LockSite ι υ}
  {clients : ι → Client σ π κ ρ} {lockable : Bool} {s s' : Locking ι υ}
  {t t' : System ι σ π κ ρ} {i j : ι} {n : Nat} {event : LockEvent ι}

/-- A writer under the lock stays there until it leaves. -/
theorem LockStep.inside (step : LockStep site lockable s event s') (hj : s.phase j = .inside n) :
    event = .left j ∨ s'.phase j = .inside n := by
  have hother : ∀ {i phase} {f : LockFile ι υ}, s.phase i ≠ .inside n →
      ((s.onFile f).go i phase).phase j = .inside n := by
    intro i phase f hi
    have hji : j ≠ i := by
      rintro rfl
      exact hi hj
    exact (Function.update_of_ne hji ..).trans hj
  cases step with
  | intrude intrusion => exact .inr hj
  | tick onward => exact .inr hj
  | retries here failed => exact .inr hj
  | @leaves i m here =>
    by_cases hji : j = i
    · exact .inl (congrArg LockEvent.left hji.symm)
    · exact .inr ((Function.update_of_ne hji ..).trans hj)
  | noFcntl here cannot => exact .inr (hother (f := s.file) (by rw [here]; rintro ⟨⟩))
  | rejects here rejected => exact .inr (hother (f := s.file) (by rw [here]; rintro ⟨⟩))
  | cannotOpen here => exact .inr (hother (f := s.file) (by rw [here]; rintro ⟨⟩))
  | opens here safe present => exact .inr (hother (f := s.file) (by rw [here]; rintro ⟨⟩))
  | creates here safe absent may => exact .inr (hother (by rw [here]; rintro ⟨⟩))
  | irregular here found odd => exact .inr (hother (f := s.file) (by rw [here]; rintro ⟨⟩))
  | waits here found regular chmods own => exact .inr (hother (by rw [here]; rintro ⟨⟩))
  | fails here failed cannot => exact .inr (hother (f := s.file) (by rw [here]; rintro ⟨⟩))
  | locks here can there free => exact .inr (hother (by rw [here]; rintro ⟨⟩))

/-- Only where nothing can lock does a writer hear that. -/
theorem LockStep.cannot {refusal : LockError}
    (step : LockStep site lockable s (.refused i refusal) s')
    (h : refusal.isUnsupported = true) : lockable = false := by
  generalize hevent : LockEvent.refused i refusal = event at step
  cases step with
  | noFcntl here cannot => exact cannot
  | fails here failed cannot =>
    injection hevent with _ hrefusal
    exact cannot (hrefusal ▸ h)
  | @rejects _ refusal' here rejected =>
    injection hevent with _ hrefusal
    rw [hrefusal] at h
    rw [requireSafeLockDir] at rejected
    split at rejected
    · cases rejected
    · rw [← Except.error.inj rejected] at h
      cases h
  | cannotOpen here =>
    injection hevent with _ hrefusal
    rw [hrefusal] at h
    cases h
  | irregular here found odd =>
    injection hevent with _ hrefusal
    rw [hrefusal] at h
    cases h
  | _ => cases hevent

/-- A writer that takes the lock is under it, and nobody else was. -/
theorem LockStep.took (step : LockStep site lockable s (.took i) s') (h : Orderly site s) :
    lockable = true ∧ (∃ n, s'.phase i = .inside n) ∧ ∀ j n, s.phase j ≠ .inside n := by
  generalize hevent : LockEvent.took i = event at step
  cases step with
  | @locks i' n started here can there free =>
    injection hevent with hi
    subst hi
    refine ⟨can, ⟨n, Function.update_self ..⟩, fun j m hj => ?_⟩
    have hm : m = n := h.same (i := j) (j := i) (by rw [hj]; rfl) (by rw [here]; rfl)
    have hheld := h.holds j m hj
    rw [hm, free] at hheld
    cases hheld
  | _ => cases hevent

/-! ## The lock that is held or free -/

/-- The lock is held by a client that is under it. -/
def Linked (s : Locking ι υ) (t : System ι σ π κ ρ) : Prop :=
  ∀ j, t.holder = some j → ∃ n, s.phase j = .inside n

omit [DecidableEq ι] [DecidableEq υ] in
theorem Linked.start {file : LockFile ι υ} {clock : Rat} {own : ι → π} {shared : σ} :
    Linked (.start file clock) (System.start clients own shared) := by
  intro j hj
  cases hj

/-- A step of the lock file after which its holder is still under it. -/
theorem Linked.step (h : Linked s t) (step : LockStep site lockable s event s')
    (hstays : ∀ j, event = .left j → t'.holder ≠ some j)
    (hholder : ∀ j, t'.holder = some j → t.holder = some j) : Linked s' t' := by
  intro j hj
  obtain ⟨n, hn⟩ := h j (hholder j hj)
  rcases step.inside hn with hleft | hin
  · exact absurd hj (hstays j hleft)
  · exact ⟨n, hin⟩

/-- A step over a lock file that stays where it is is a step over a lock that is held or free. -/
theorem LockedStep.simulates {actor : Option ι}
    (step : LockedStep site clients lockable s t actor s' t')
    (h : Orderly site s) (hlinked : Linked s t) : Orderly site s' ∧ Linked s' t' ∧
      match actor with
      | none => t' = t
      | some i => Step clients lockable i t t' := by
  cases step with
  | aside step =>
    exact ⟨h.step step, hlinked.step step (fun _ heq => by cases heq) fun _ => id, rfl⟩
  | moved here step =>
    exact ⟨h.step step, hlinked.step step (fun _ heq => by cases heq) fun _ => id, rfl⟩
  | work here => exact ⟨h, hlinked, .work here⟩
  | stop here => exact ⟨h, hlinked, .stop here⟩
  | @took i k _ here step =>
    obtain ⟨can, hin, hnobody⟩ := step.took h
    have hfree : t.holder = none := by
      cases hholder : t.holder with
      | none => rfl
      | some j =>
        obtain ⟨n, hn⟩ := hlinked j hholder
        exact absurd hn (hnobody j n)
    refine ⟨h.step step, fun j hj => ?_, .take here can hfree⟩
    rw [← Option.some.inj hj]
    exact hin
  | refused here step grave =>
    exact ⟨h.step step, hlinked.step step (fun _ heq => by cases heq) fun _ => id, .refuse here⟩
  | without here step light =>
    exact ⟨h.step step, hlinked.step step (fun _ heq => by cases heq) fun _ => id,
      .skip here (step.cannot light)⟩
  | act here => exact ⟨h, hlinked, .act here⟩
  | @left i r _ here step =>
    refine ⟨h.step step, hlinked.step step (fun j heq => ?_) fun j hj => ?_, .leave here⟩
    · obtain rfl : i = j := by injection heq
      show (if t.holder = some i then none else t.holder) ≠ some i
      split
      case isTrue => rintro ⟨⟩
      case isFalse hne => exact hne
    · by_cases hi : t.holder = some i
      · rw [if_pos hi] at hj
        cases hj
      · rwa [if_neg hi] at hj
  | @ended i r here unlocked =>
    refine ⟨h, fun j hj => hlinked j ?_, .leave here⟩
    by_cases hi : t.holder = some i
    · rw [if_pos hi] at hj
      cases hj
    · rwa [if_neg hi] at hj

/-- An interleaving over a lock file that stays where it is, over a lock that is held or free. -/
theorem LockedRun.interleaving {file : LockFile ι υ} {clock : Rat} {own : ι → π} {shared : σ}
    {changes : List (Change ι σ)} (hunexposed : ¬ Exposed site.dir site.hostile file)
    (run : LockedRun site clients lockable (.start file clock) (System.start clients own shared)
      changes s t) :
    Interleaving clients lockable (System.start clients own shared) changes t ∧
      Orderly site s ∧ Linked s t := by
  induction run with
  | nil => exact ⟨.nil, .start hunexposed, .start⟩
  | @aside _ _ _ t t' _ step ih =>
    obtain ⟨steps, horderly, hlinked⟩ := ih
    obtain ⟨horderly', hlinked', hsame⟩ := step.simulates horderly hlinked
    have hsame : t' = t := hsame
    rw [hsame] at hlinked' ⊢
    exact ⟨steps, horderly', hlinked'⟩
  | snoc _ step ih =>
    obtain ⟨steps, horderly, hlinked⟩ := ih
    obtain ⟨horderly', hlinked', hstep⟩ := step.simulates horderly hlinked
    exact ⟨steps.snoc hstep, horderly', hlinked'⟩

/-- Where the lock file and the clients are when the lock is held, or free. -/
structure Realizes (site : LockSite ι υ) (n : Nat) (s : Locking ι υ) (t : System ι σ π κ ρ) :
    Prop where
  orderly : Orderly site s
  there : s.file.entry = some n
  regular : ∃ node, s.file.inodes[n]? = some node ∧ node.regular = true
  waiting : ∀ i p, t.phase i = .before p → s.phase i = .outside
  gone : ∀ i p, t.phase i = .inside p → s.phase i = .inside n ∨ s.phase i = .finished
  held : ∀ i, t.holder = some i ↔ s.phase i = .inside n
  free : t.holder = none → s.file.holder n = none

section

variable {n : Nat}

/-- A step of one client, and what the lock file comes to. -/
theorem Realizes.move (h : Realizes site n s t) {i : ι} (orderly : Orderly site s')
    (there : s'.file.entry = some n)
    (regular : ∃ node, s'.file.inodes[n]? = some node ∧ node.regular = true)
    (hs : ∀ j, j ≠ i → s'.phase j = s.phase j) (ht : ∀ j, j ≠ i → t'.phase j = t.phase j)
    (waiting : ∀ p, t'.phase i = .before p → s'.phase i = .outside)
    (gone : ∀ p, t'.phase i = .inside p → s'.phase i = .inside n ∨ s'.phase i = .finished)
    (held : ∀ j, t'.holder = some j ↔ s'.phase j = .inside n)
    (free : t'.holder = none → s'.file.holder n = none) : Realizes site n s' t' where
  orderly := orderly
  there := there
  regular := regular
  waiting j p hj := by
    by_cases hji : j = i
    · subst hji
      exact waiting p hj
    · rw [hs j hji]
      exact h.waiting j p ((ht j hji).symm.trans hj)
  gone j p hj := by
    by_cases hji : j = i
    · subst hji
      exact gone p hj
    · rw [hs j hji]
      exact h.gone j p ((ht j hji).symm.trans hj)
  held := held
  free := free

/-- A step of a client that the lock file does not see. -/
theorem Realizes.aside (h : Realizes site n s t) {i : ι}
    (ht : ∀ j, j ≠ i → t'.phase j = t.phase j) (hholder : t'.holder = t.holder)
    (waiting : ∀ p, t'.phase i = .before p → s.phase i = .outside)
    (gone : ∀ p, t'.phase i = .inside p → s.phase i = .inside n ∨ s.phase i = .finished) :
    Realizes site n s t' :=
  h.move h.orderly h.there h.regular (fun _ _ => rfl) ht waiting gone
    (fun j => by rw [hholder, h.held j]) fun hfree => h.free (hholder.symm.trans hfree)

/-- A writer that is not under the lock gives up. -/
theorem Realizes.finish (h : Realizes site n s t) {i : ι} (hi : s.phase i = .outside)
    (ht : ∀ j, j ≠ i → t'.phase j = t.phase j) (hholder : t'.holder = t.holder)
    (waiting : ∀ p, t'.phase i ≠ .before p) : Realizes site n (s.go i .finished) t' := by
  have hphase : (s.go i .finished).phase i = .finished := Function.update_self ..
  refine h.move h.orderly.finish h.there h.regular (fun j hj => Function.update_of_ne hj ..) ht
    (fun p hp => absurd hp (waiting p)) (fun _ _ => .inr hphase) (fun j => ?_)
      fun hfree => h.free (hholder.symm.trans hfree)
  rw [hholder, h.held j]
  by_cases hji : j = i
  · subst hji
    rw [hi, hphase]
    simp
  · rw [show (s.go i .finished).phase j = s.phase j from Function.update_of_ne hji ..]

omit [DecidableEq ι] in
/-- The lock file when a writer takes the lock, or lets it go. -/
theorem Realizes.setHolder (h : Realizes site n s t) {x : Option (LockHolder ι)} :
    (s.file.setHolder n x).holder n = x ∧ ∃ node,
      (s.file.setHolder n x).inodes[n]? = some node ∧ node.regular = true := by
  obtain ⟨node, hnode, hregular⟩ := h.regular
  have hlt := s.file.entry_lt n h.there
  refine ⟨by rw [LockFile.holder_setHolder hlt, if_pos rfl], { node with holder := x }, ?_,
    hregular⟩
  show (s.file.inodes.modify n fun node => { node with holder := x })[n]? = _
  rw [List.getElem?_modify, hnode]
  simp

/-- Every step over a lock that is held or free can be taken over the lock file. -/
theorem Realizes.step (hsafe : site.isSafe = true) (h : Realizes site n s t)
    (step : Step clients lockable i t t') {s₀ : Locking ι υ} {t₀ : System ι σ π κ ρ}
    {changes : List (Change ι σ)} (run : LockedRun site clients lockable s₀ t₀ changes s t) :
    ∃ s', LockedRun site clients lockable s₀ t₀
      (changes ++ [⟨i, t.seen i, t.shared, t'.shared⟩]) s' t' ∧ Realizes site n s' t' := by
  have hself : ∀ phase : Phase σ π κ ρ, Function.update t.phase i phase i = phase :=
    fun _ => Function.update_self ..
  have hother : ∀ (phase : Phase σ π κ ρ) j, j ≠ i →
      Function.update t.phase i phase j = t.phase j := fun _ _ hj => Function.update_of_ne hj ..
  cases step with
  | work here =>
    exact ⟨s, run.snoc (.work here), h.aside (hother _) rfl (fun _ _ => h.waiting i _ here)
      fun p hp => by cases (hself _).symm.trans hp⟩
  | stop here =>
    exact ⟨s, run.snoc (.stop here), h.aside (hother _) rfl (fun _ _ => h.waiting i _ here)
      fun p hp => by cases (hself _).symm.trans hp⟩
  | act here =>
    exact ⟨s, run.snoc (.act here), h.aside (hother _) rfl
      (fun p hp => by cases (hself _).symm.trans hp) fun _ _ => h.gone i _ here⟩
  | refuse here =>
    have hi := h.waiting i _ here
    have refused : LockStep site lockable s (.refused i (.unavailable "")) _ := .cannotOpen hi
    exact ⟨_, run.snoc (.refused here refused rfl),
      h.finish hi (hother _) rfl fun p hp => by cases (hself _).symm.trans hp⟩
  | skip here unlockable =>
    have hi := h.waiting i _ here
    have refused : LockStep site lockable s (.refused i (.unsupported "")) _ :=
      .noFcntl hi unlockable
    exact ⟨_, run.snoc (.without here refused rfl),
      h.finish hi (hother _) rfl fun p hp => by cases (hself _).symm.trans hp⟩
  | take here locks free =>
    have hi := h.waiting i _ here
    obtain ⟨node, hnode, hregular⟩ := h.regular
    obtain ⟨hholder, hregular'⟩ := h.setHolder (x := some (.client i))
    have hnobody : ∀ j, s.phase j ≠ .inside n := fun j hj => by
      have hheld := (h.held j).mpr hj
      rw [free] at hheld
      cases hheld
    let opened := s.go i (.opened n)
    let trying := (opened.onFile opened.file).go i (.trying n s.clock)
    let inside := (trying.onFile (trying.file.setHolder n (some (.client i)))).go i (.inside n)
    have opens : LockStep site lockable s (.moved i) opened := .opens hi hsafe h.there
    have waits : LockStep site lockable opened (.moved i) trying :=
      .waits (s := opened) (Function.update_self ..) hnode hregular false
        fun hchmods => by cases hchmods
    have takes : LockStep site lockable trying (.took i) inside :=
      .locks (Function.update_self ..) locks (s.file.entry_lt n h.there) (h.free free)
    have hphase : ∀ j, j ≠ i → inside.phase j = s.phase j := fun j hj => by
      simp [inside, trying, opened, Locking.go, Locking.onFile, Function.update_of_ne hj]
    have hinside : inside.phase i = .inside n := Function.update_self ..
    refine ⟨inside, ((run.aside (.moved here opens)).aside (.moved here waits)).snoc
      (.took here takes), h.move (((h.orderly.step opens).step waits).step takes) h.there hregular'
        hphase (hother _) (fun p hp => by cases (hself _).symm.trans hp)
          (fun _ _ => .inl hinside) (fun j => ?_) fun hfree => by cases hfree⟩
    by_cases hji : j = i
    · subst hji
      exact ⟨fun _ => hinside, fun _ => rfl⟩
    · rw [hphase j hji]
      exact ⟨fun hj => absurd (Option.some.inj hj).symm hji, fun hj => absurd hj (hnobody j)⟩
  | leave here =>
    rcases h.gone i _ here with hin | hout
    · obtain ⟨hholder, hregular'⟩ := h.setHolder (x := none)
      have leaves : LockStep site lockable s (.left i) _ := .leaves hin
      have hphase : ((s.onFile (s.file.setHolder n none)).go i .finished).phase i = .finished :=
        Function.update_self ..
      refine ⟨_, run.snoc (.left here leaves), h.move (h.orderly.step leaves) h.there hregular'
        (fun j hj => Function.update_of_ne hj ..) (hother _)
          (fun p hp => by cases (hself _).symm.trans hp)
            (fun p hp => by cases (hself _).symm.trans hp) (fun j => ?_) fun _ => hholder⟩
      rw [show (if t.holder = some i then none else t.holder) = none from
        if_pos ((h.held i).mpr hin)]
      simp only [reduceCtorEq, false_iff]
      intro hj
      by_cases hji : j = i
      · subst hji
        rw [hphase] at hj
        cases hj
      · exact hji (h.orderly.exclusive ((Function.update_of_ne hji ..).symm.trans hj) hin)
    · have hnot : t.holder ≠ some i := fun hi => by
        have hin := (h.held i).mp hi
        rw [hout] at hin
        cases hin
      exact ⟨s, run.snoc (.ended here hout), h.aside (hother _) (if_neg hnot)
        (fun p hp => by cases (hself _).symm.trans hp)
          fun p hp => by cases (hself _).symm.trans hp⟩

theorem exists_lockedRun {file : LockFile ι υ} (clock : Rat) {own : ι → π} {shared : σ}
    {changes : List (Change ι σ)} (hunexposed : ¬ Exposed site.dir site.hostile file)
    (hsafe : site.isSafe = true) {node : Inode ι υ} (hentry : file.entry = some n)
    (hnode : file.inodes[n]? = some node) (hregular : node.regular = true)
    (hfree : node.holder = none)
    (steps : Interleaving clients lockable (System.start clients own shared) changes t) :
    ∃ s, LockedRun site clients lockable (.start file clock) (System.start clients own shared)
      changes s t ∧ Realizes site n s t := by
  induction steps with
  | nil =>
    refine ⟨_, .nil, .start hunexposed, hentry, ⟨node, hnode, hregular⟩, fun _ _ _ => rfl,
      fun i p hp => ?_, fun i => ⟨fun hi => ?_, fun hi => ?_⟩, fun _ => ?_⟩
    · cases hp
    · cases hi
    · cases hi
    · show file.holder n = none
      rw [LockFile.holder, hnode]
      exact hfree
  | snoc _ step ih =>
    obtain ⟨s, run, hrealizes⟩ := ih
    exact hrealizes.step hsafe step run

/-- Over a lock file that is there and that nobody hostile can remove, clients come to exactly what
they come to over a lock that is held or free, step by step. -/
theorem lockedRun_iff {file : LockFile ι υ} (clock : Rat) {own : ι → π} {shared : σ}
    {changes : List (Change ι σ)} (hunexposed : ¬ Exposed site.dir site.hostile file)
    (hsafe : site.isSafe = true) {node : Inode ι υ} (hentry : file.entry = some n)
    (hnode : file.inodes[n]? = some node) (hregular : node.regular = true)
    (hfree : node.holder = none) :
    (∃ s, LockedRun site clients lockable (.start file clock) (System.start clients own shared)
      changes s t) ↔ Interleaving clients lockable (System.start clients own shared) changes t := by
  constructor
  · rintro ⟨s, run⟩
    exact (run.interleaving hunexposed).1
  · intro steps
    obtain ⟨s, run, -⟩ :=
      exists_lockedRun clock hunexposed hsafe hentry hnode hregular hfree steps
    exact ⟨s, run⟩

end

end

/-! ## Renders with a lock file -/

section

variable {ι υ τ σ : Type} [DecidableEq ι] [DecidableEq υ] [Scalars σ] {site : LockSite ι υ}
  {format : Format τ σ} {host : Host} {invocations : ι → Invocation τ}
  {divisions : ∀ i, Division format host (invocations i)} {dir : Directory τ}
  {changes : List (Change ι (Out τ))} {s : Locking ι υ}
  {t : System ι (Out τ) (Own τ) (Run τ (Rendered τ)) (Ending τ)}

/-- Renders that take the publish lock by its file, which nobody hostile can come to remove, come to
what they do one after another, in the order in which they took it. A render that is refused the
lock changes nothing, and where nothing can lock the gates refuse. -/
theorem locked_renders {file : LockFile ι υ} {clock : Rat} {lockable : Bool}
    (hunexposed : ¬ Exposed site.dir site.hostile file)
    (run : LockedRun site (fun i => (divisions i).client) lockable (.start file clock)
      (begun divisions dir) changes s t) :
    (∀ change ∈ changes, change.actor ∉ t.order → change.old = change.new) ∧
      (lockable = true → OneAfterAnother format host invocations dir changes t) ∧
      (lockable = false → GatesRefused invocations changes t) := by
  obtain ⟨steps, -, -⟩ := run.interleaving hunexposed
  have steps : Interleaved divisions lockable dir changes t := steps
  refine ⟨steps.outside, fun hlocks => ?_, fun hunlockable => ?_⟩
  · subst hlocks
    exact steps.oneAfterAnother
  · subst hunlockable
    exact steps.gatesRefused

end

/-! The gate and the render without one, over the lock file of the sample. -/

theorem sampleDivisions_steps : ∃ changes t,
    Interleaved sampleDivisions true (sampleDirectory nullOwner) changes t ∧
      t.order = [true, false] ∧ ∀ gate, ∃ ending, t.phase gate = .after ending := by
  have hasks : ∀ gate ∈ [true, false], ∃ rendering,
      ((sampleDivisions gate).client.before.runAlone Own.new).1 = .ok rendering := by
    intro gate _
    obtain ⟨rendering, hasked⟩ := exists_of_isOk (sampleInvocations_ask gate)
    exact ⟨rendering, (sampleDivisions gate).client_asks hasked⟩
  obtain ⟨changes, t, hsteps, _, horder, hafter, _⟩ :=
    exists_interleaving (show [true, false].Nodup by decide) hasks
  exact ⟨changes, t, hsteps, horder, fun gate => hafter gate (by cases gate <;> decide)⟩

theorem lockedRun_sample : ∃ changes s t, LockedRun sampleSite
    (fun gate => (sampleDivisions gate).client) true (.start sampleLockFile 0)
      (begun sampleDivisions (sampleDirectory nullOwner)) changes s t ∧
    t.order = [true, false] := by
  obtain ⟨changes, t, hsteps, horder, -⟩ := sampleDivisions_steps
  obtain ⟨s, run⟩ := (lockedRun_iff 0 sampleLockFile_not_exposed
    sampleSite_isSafe sampleLockFile_entry sampleLockFile_inode rfl rfl).mpr hsteps
  exact ⟨changes, s, t, run, horder⟩

theorem locked_gate_then_render : ∃ changes s t, LockedRun sampleSite
    (fun gate => (sampleDivisions gate).client) true (.start sampleLockFile 0)
      (begun sampleDivisions (sampleDirectory nullOwner)) changes s t ∧
    (∀ gate, ∃ ending, t.phase gate = .after ending) ∧
    OneAfterAnother sampleFormat sampleHost sampleInvocations (sampleDirectory nullOwner)
      changes t := by
  obtain ⟨changes, t, hsteps, -, hended⟩ := sampleDivisions_steps
  obtain ⟨s, run, -⟩ := exists_lockedRun 0 sampleLockFile_not_exposed
    sampleSite_isSafe sampleLockFile_entry sampleLockFile_inode rfl rfl
      hsteps
  exact ⟨changes, s, t, run, hended, (locked_renders sampleLockFile_not_exposed run).2.1 rfl⟩

end MissionCompiler.Cli
