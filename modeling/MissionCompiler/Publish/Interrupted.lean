import Mathlib.Logic.Function.Iterate
import MissionCompiler.Publish.AllOrNothing

/-!
# A publication that is killed

`_publish` as a machine that makes at most one call in a step, so that a run may end between any
two of them. The machine comes to what `publish` says (`machine_publishes`), and wherever it is
stopped nothing of the previous generation is lost: what a name showed is still there or in the
backup until the whole new set is out.
-/

namespace MissionCompiler.Publish

open Lib

variable {α : Type}

/-- Where `_publish` is between two of its calls, with what it has still to go through. -/
inductive Stage where
  | publishing (names : List String)
  | landing (name : String) (names : List String)
  | unpublishing (names unremoved : List String)
  | restoring (names unrestored unremoved : List String)
  | discarding (outcome : Outcome)
  | ended (outcome : Outcome)

/-- A file of the backup that its removal comes to next. -/
def nextDiscarded (survives : String → Bool) (fs : FileSystem Path α) : Option Path :=
  fs.files.keys.find? fun p => p.1 == .backup && !survives p.2

variable (faults : Nat → Bool) (survives : String → Bool)

/-- One call at most, and what is decided by its result. -/
def step : Stage × Publishing α → Stage × Publishing α
  | (.publishing [], s) => (.discarding (.returned s.published), s)
  | (.publishing (name :: names), s) =>
    match displace faults name s with
    | (true, s) => (.landing name names, s)
    | (false, s) => (.unpublishing s.published [], s)
  | (.landing name names, s) =>
    match land faults name s with
    | (true, s) => (.publishing names, s)
    | (false, s) => (.unpublishing s.published [], s)
  | (.unpublishing [] unremoved, s) => (.restoring s.displaced [] unremoved, s)
  | (.unpublishing (name :: names) unremoved, s) =>
    match s.fs.unlink faults (.out, name) with
    | (true, fs) => (.unpublishing names unremoved, { s with fs := fs })
    | (false, fs) => (.unpublishing names (unremoved ++ [name]), { s with fs := fs })
  | (.restoring [] unrestored unremoved, s) =>
    if unrestored.isEmpty && unremoved.isEmpty then (.discarding .raised, s)
    else (.ended (.rolledBackPartially unrestored unremoved), s)
  | (.restoring (name :: names) unrestored unremoved, s) =>
    match s.fs.replace faults (.backup, name) (.out, name) with
    | (true, fs) =>
      (.restoring names unrestored (unremoved.filter (· != name)), { s with fs := fs })
    | (false, fs) => (.restoring names (unrestored ++ [name]) unremoved, { s with fs := fs })
  | (.discarding outcome, s) =>
    match nextDiscarded survives s.fs with
    | some p => (.discarding outcome, { s with fs := { s.fs with files := s.fs.files.erase p } })
    | none => (.ended outcome, s)
  | (.ended outcome, s) => (.ended outcome, s)

/-- The machine before its first call. -/
def start (staged : List String) (initial : FileSystem Path α) : Stage × Publishing α :=
  (.publishing staged, ⟨initial, [], []⟩)

/-- What a killed run leaves. A name shows what it showed, or what was staged for it, or for the
moment nothing; and what it showed is kept until the whole set is out. -/
structure Interrupted (staged : List String) (initial fs : FileSystem Path α) : Prop where
  shows : ∀ n, fs.at? (.out, n) = initial.at? (.out, n) ∨ n ∈ staged ∧
    (fs.at? (.out, n) = initial.at? (.staging, n) ∨ fs.at? (.out, n) = none)
  kept : ∀ n a, initial.at? (.out, n) = some a → fs.at? (.out, n) = some a ∨
    fs.at? (.backup, n) = some a ∨ ∀ m ∈ staged, fs.at? (.out, m) = initial.at? (.staging, m)

/-! ## The machine and the function -/

/-- What is left of a backup that is discarded after some outcomes. -/
def conclude : Outcome × FileSystem Path α → Outcome × FileSystem Path α
  | (.rolledBackPartially unrestored unremoved, fs) =>
    (.rolledBackPartially unrestored unremoved, fs)
  | (outcome, fs) => (outcome, discardBackup survives fs)

theorem publish_eq_conclude (staged : List String) (initial : FileSystem Path α) :
    publish faults survives staged initial =
      conclude survives (publishKeeping faults staged initial) := by
  unfold publish conclude
  rfl

/-- The end of a rollback. -/
def restored : FileSystem Path α × List String × List String → Outcome × FileSystem Path α
  | (fs, unrestored, unremoved) =>
    if unrestored.isEmpty && unremoved.isEmpty then (.raised, fs)
    else (.rolledBackPartially unrestored unremoved, fs)

/-- The rest of a loop over the staged files. -/
def looped : Bool × Publishing α → Outcome × FileSystem Path α
  | (true, s) => (.returned s.published, s.fs)
  | (false, s) => rollBack faults s

/-- The rest of a publication, all at once. -/
def finish : Stage × Publishing α → Outcome × FileSystem Path α
  | (.publishing names, s) => conclude survives (looped faults (publishLoop faults names s))
  | (.landing name names, s) => conclude survives (looped faults
      (match land faults name s with
      | (true, s) => publishLoop faults names s
      | (false, s) => (false, s)))
  | (.unpublishing names unremoved, s) => conclude survives (restored
      (restore faults s.displaced (unpublish faults names s.fs unremoved).1 []
        (unpublish faults names s.fs unremoved).2))
  | (.restoring names unrestored unremoved, s) =>
    conclude survives (restored (restore faults names s.fs unrestored unremoved))
  | (.discarding outcome, s) => (outcome, discardBackup survives s.fs)
  | (.ended outcome, s) => (outcome, s.fs)

/-- The files of the backup that are removed. -/
def discarded (fs : FileSystem Path α) : List Path :=
  fs.files.keys.filter fun p => p.1 == .backup && !survives p.2

theorem discarded_erase {fs : FileSystem Path α} {p : Path}
    (h : nextDiscarded survives fs = some p) :
    discarded survives fs = p :: discarded survives { fs with files := fs.files.erase p } := by
  have hhead : (discarded survives fs).head? = some p := by
    rw [discarded, List.head?_filter]
    exact h
  obtain ⟨rest, hrest⟩ := List.head?_eq_some_iff.mp hhead
  have hnodup : (p :: rest).Nodup := by
    rw [← hrest]
    exact fs.files.keys_nodup.filter _
  rw [hrest, discarded, FileSystem.filter_keys_erase]
  show _ = p :: (discarded survives fs).filter _
  rw [hrest, List.filter_cons_of_neg (by simp), List.filter_eq_self.mpr]
  intro q hq
  have hne : q ≠ p := fun heq => (List.nodup_cons.mp hnodup).1 (heq ▸ hq)
  rw [decide_eq_false hne]
  rfl

theorem discardBackup_erase {fs : FileSystem Path α} {p : Path}
    (h : nextDiscarded survives fs = some p) :
    discardBackup survives { fs with files := fs.files.erase p } = discardBackup survives fs := by
  show _ = FileSystem.mk ((discarded survives fs).foldl (fun files p => files.erase p) fs.files)
    fs.calls
  rw [discarded_erase survives h]
  rfl

theorem discardBackup_none {fs : FileSystem Path α} (h : nextDiscarded survives fs = none) :
    discardBackup survives fs = fs := by
  have hnil : discarded survives fs = [] := by
    apply List.filter_eq_nil_iff.mpr
    exact List.find?_eq_none.mp h
  show FileSystem.mk ((discarded survives fs).foldl (fun files p => files.erase p) fs.files)
    fs.calls = _
  rw [hnil]
  rfl

/-- A call takes nothing from what is to come. -/
theorem finish_step (x : Stage × Publishing α) :
    finish faults survives (step faults survives x) = finish faults survives x := by
  obtain ⟨stage, s⟩ := x
  cases stage with
  | publishing names =>
    cases names with
    | nil => rfl
    | cons name names =>
      rw [step, finish, publishLoop]
      rcases displace faults name s with ⟨ok, s'⟩
      cases ok with
      | false => rfl
      | true =>
        show finish faults survives (.landing name names, s') = _
        rw [finish]
        dsimp only
        rcases land faults name s' with ⟨ok, s''⟩
        cases ok <;> rfl
  | landing name names =>
    rw [step, finish]
    rcases land faults name s with ⟨ok, s'⟩
    cases ok <;> rfl
  | unpublishing names unremoved =>
    cases names with
    | nil => rfl
    | cons name names =>
      rw [step, finish, unpublish]
      rcases s.fs.unlink faults (Place.out, name) with ⟨ok, fs⟩
      cases ok <;> rfl
  | restoring names unrestored unremoved =>
    cases names with
    | nil =>
      rw [step, finish, restore, restored]
      split <;> rfl
    | cons name names =>
      rw [step, finish, restore]
      rcases s.fs.replace faults (Place.backup, name) (.out, name) with ⟨ok, fs⟩
      cases ok <;> rfl
  | discarding outcome =>
    rw [step]
    cases h : nextDiscarded survives s.fs with
    | some p => exact congrArg (Prod.mk outcome) (discardBackup_erase survives h)
    | none => exact congrArg (Prod.mk outcome) (discardBackup_none survives h).symm
  | ended outcome => rfl

theorem finish_start (staged : List String) (initial : FileSystem Path α) :
    finish faults survives (start staged initial) = publish faults survives staged initial := by
  rw [publish_eq_conclude, start, finish, publishKeeping]
  rcases publishLoop faults staged ⟨initial, [], []⟩ with ⟨ok, s⟩
  cases ok <;> rfl

theorem finish_iterate (k : Nat) (x : Stage × Publishing α) :
    finish faults survives ((step faults survives)^[k] x) = finish faults survives x := by
  induction k generalizing x with
  | zero => rfl
  | succ k ih => rw [Function.iterate_succ_apply, ih, finish_step]

/-! ## Every run ends -/

/-- A run that is left alone ends. -/
def Ends (x : Stage × Publishing α) : Prop :=
  ∃ k outcome, ((step faults survives)^[k] x).1 = .ended outcome

variable {faults survives}

theorem Ends.of_step {x : Stage × Publishing α}
    (h : Ends faults survives (step faults survives x)) : Ends faults survives x := by
  obtain ⟨k, outcome, hk⟩ := h
  exact ⟨k + 1, outcome, hk⟩

theorem ends_discarding {s : Publishing α} {outcome : Outcome} :
    Ends faults survives (.discarding outcome, s) := by
  induction hcount : (discarded survives s.fs).length generalizing s with
  | zero =>
    refine Ends.of_step ⟨0, outcome, ?_⟩
    cases hnext : nextDiscarded survives s.fs with
    | some p =>
      rw [discarded_erase survives hnext] at hcount
      cases hcount
    | none => simp only [step, hnext, Function.iterate_zero_apply]
  | succ count ih =>
    apply Ends.of_step
    cases hnext : nextDiscarded survives s.fs with
    | some p =>
      simp only [step, hnext]
      apply ih
      rw [discarded_erase survives hnext, List.length_cons] at hcount
      exact Nat.succ.inj hcount
    | none => exact ⟨0, outcome, by simp only [step, hnext, Function.iterate_zero_apply]⟩

theorem ends_restoring {names unrestored unremoved : List String} {s : Publishing α} :
    Ends faults survives (.restoring names unrestored unremoved, s) := by
  induction names generalizing unrestored unremoved s with
  | nil =>
    apply Ends.of_step
    rw [step]
    split
    · exact ends_discarding
    · exact ⟨0, _, rfl⟩
  | cons name names ih =>
    apply Ends.of_step
    rw [step]
    rcases s.fs.replace faults (Place.backup, name) (.out, name) with ⟨ok, fs⟩
    cases ok <;> exact ih

theorem ends_unpublishing {names unremoved : List String} {s : Publishing α} :
    Ends faults survives (.unpublishing names unremoved, s) := by
  induction names generalizing unremoved s with
  | nil =>
    apply Ends.of_step
    exact ends_restoring
  | cons name names ih =>
    apply Ends.of_step
    rw [step]
    rcases s.fs.unlink faults (Place.out, name) with ⟨ok, fs⟩
    cases ok <;> exact ih

theorem ends_publishing {names : List String} {s : Publishing α} :
    Ends faults survives (.publishing names, s) := by
  induction names generalizing s with
  | nil =>
    apply Ends.of_step
    exact ends_discarding
  | cons name names ih =>
    apply Ends.of_step
    rw [step]
    rcases displace faults name s with ⟨ok, s'⟩
    cases ok with
    | false => exact ends_unpublishing
    | true =>
      apply Ends.of_step
      show Ends faults survives (step faults survives (.landing name names, s'))
      rw [step]
      rcases land faults name s' with ⟨ok, s''⟩
      cases ok with
      | false => exact ends_unpublishing
      | true => exact ih

/-- The machine does what `_publish` does. -/
theorem machine_publishes (staged : List String) (initial : FileSystem Path α) :
    ∃ k s, (step faults survives)^[k] (start staged initial) =
        (.ended (publish faults survives staged initial).1, s) ∧
      s.fs = (publish faults survives staged initial).2 := by
  obtain ⟨k, outcome, hk⟩ := @ends_publishing α faults survives staged ⟨initial, [], []⟩
  have hfinish := finish_iterate faults survives k (start staged initial)
  rw [finish_start] at hfinish
  have hstage : (step faults survives)^[k] (start staged initial) =
      (.ended outcome, ((step faults survives)^[k] (start staged initial)).2) :=
    Prod.ext hk rfl
  rw [hstage] at hfinish
  rw [← hfinish]
  exact ⟨k, _, hstage, rfl⟩

/-! ## What holds between two calls -/

/-- A publication that is being undone, with the displaced names that are still to be restored. -/
structure Undoing (staged : List String) (initial : FileSystem Path α) (rest : List String)
    (fs : FileSystem Path α) : Prop where
  displaced : ∀ n ∈ rest, fs.at? (.backup, n) = initial.at? (.out, n)
  settled : ∀ n a, n ∉ rest → initial.at? (.out, n) = some a →
    fs.at? (.out, n) = some a ∨ fs.at? (.backup, n) = some a
  shows : ∀ n, fs.at? (.out, n) = initial.at? (.out, n) ∨ n ∈ staged ∧
    (fs.at? (.out, n) = initial.at? (.staging, n) ∨ fs.at? (.out, n) = none)
  owned : ∀ n ∈ rest, n ∈ staged

/-- The output directory shows one generation, the old one or the new one. -/
def Settled (staged : List String) (initial fs : FileSystem Path α) : Prop :=
  (∀ n, fs.at? (.out, n) = initial.at? (.out, n)) ∨
    ∀ n, fs.at? (.out, n) =
      if n ∈ staged then initial.at? (.staging, n) else initial.at? (.out, n)

/-- What holds at each stage. -/
def Between (staged : List String) (initial : FileSystem Path α) :
    Stage × Publishing α → Prop
  | (.publishing names, s) => Progress initial s ∧ s.published ++ names = staged ∧
      ∀ n ∈ s.displaced, n ∈ s.published
  | (.landing name names, s) => Progress initial s ∧ s.published ++ name :: names = staged ∧
      (name ∈ s.displaced ∨ initial.at? (.out, name) = none) ∧
      ∀ n ∈ s.displaced, n = name ∨ n ∈ s.published
  | (.unpublishing names _, s) => Undoing staged initial s.displaced s.fs ∧ s.displaced.Nodup ∧
      ∀ n ∈ names, n ∈ staged ∧ (n ∈ s.displaced ∨ initial.at? (.out, n) = none)
  | (.restoring names _ _, s) => Undoing staged initial names s.fs ∧ names.Nodup
  | (.discarding _, s) => Settled staged initial s.fs
  | (.ended _, s) => Interrupted staged initial s.fs

variable {staged : List String} {initial : FileSystem Path α} {s : Publishing α}

theorem Undoing.interrupted {rest : List String} {fs : FileSystem Path α}
    (h : Undoing staged initial rest fs) : Interrupted staged initial fs := by
  refine ⟨h.shows, fun n a hn => ?_⟩
  by_cases hrest : n ∈ rest
  · exact .inr (.inl ((h.displaced n hrest).trans hn))
  · exact (h.settled n a hrest hn).imp_right .inl

theorem Settled.interrupted {fs : FileSystem Path α} (h : Settled staged initial fs) :
    Interrupted staged initial fs := by
  rcases h with h | h
  · exact ⟨fun n => .inl (h n), fun n a hn => .inl ((h n).trans hn)⟩
  · refine ⟨fun n => ?_, fun n a hn => ?_⟩
    · rw [h n]
      split
      · next hmem => exact .inr ⟨hmem, .inl rfl⟩
      · exact .inl rfl
    · refine .inr (.inr fun m hm => ?_)
      rw [h m, if_pos hm]

/-- Part-way through the publication. -/
theorem Progress.undoing (h : Progress initial s) (hpublished : ∀ n ∈ s.published, n ∈ staged)
    (hdisplaced : ∀ n ∈ s.displaced, n ∈ staged) :
    Undoing staged initial s.displaced s.fs := by
  refine ⟨h.kept, fun n a hn ha => .inl ?_, fun n => ?_, hdisplaced⟩
  · have hnot : n ∉ s.published := by
      intro hmem
      rw [h.fresh n hmem hn] at ha
      cases ha
    rw [h.same n hnot hn, ha]
  · by_cases hmem : n ∈ s.published
    · exact .inr ⟨hpublished n hmem, .inl (h.landed n hmem)⟩
    · by_cases hgone : n ∈ s.displaced
      · exact .inr ⟨hdisplaced n hgone, .inr (h.gone n hgone hmem)⟩
      · exact .inl (h.same n hmem hgone)

theorem Progress.fails (h : Progress initial s) (hpublished : ∀ n ∈ s.published, n ∈ staged)
    (hdisplaced : ∀ n ∈ s.displaced, n ∈ staged) (unremoved : List String) :
    Between staged initial (.unpublishing s.published unremoved, s) := by
  refine ⟨h.undoing hpublished hdisplaced, h.displaced_nodup, fun n hn => ⟨hpublished n hn, ?_⟩⟩
  by_cases hmem : n ∈ s.displaced
  · exact .inl hmem
  · exact .inr (h.fresh n hn hmem)

theorem Between.interrupted {x : Stage × Publishing α} (h : Between staged initial x) :
    Interrupted staged initial x.2.fs := by
  obtain ⟨stage, s⟩ := x
  cases stage with
  | publishing names =>
    obtain ⟨hprogress, rfl, hdisplaced⟩ := h
    exact (hprogress.undoing (fun n hn => List.mem_append_left _ hn)
      fun n hn => List.mem_append_left _ (hdisplaced n hn)).interrupted
  | landing name names =>
    obtain ⟨hprogress, rfl, _, hdisplaced⟩ := h
    refine (hprogress.undoing (fun n hn => List.mem_append_left _ hn) fun n hn => ?_).interrupted
    rcases hdisplaced n hn with rfl | hn
    · simp
    · exact List.mem_append_left _ hn
  | unpublishing names unremoved => exact h.1.interrupted
  | restoring names unrestored unremoved => exact h.1.interrupted
  | discarding outcome => exact Settled.interrupted h
  | ended outcome => exact h

/-! ## One call -/

/-- A file is removed again, which was not there before or has its old text in the backup. -/
theorem Undoing.unlink {rest : List String} {fs fs' : FileSystem Path α}
    (h : Undoing staged initial rest fs) {name : String} (hname : name ∈ staged)
    (hfree : name ∈ rest ∨ initial.at? (.out, name) = none)
    (hgone : fs'.at? (.out, name) = none)
    (hother : ∀ p, p ≠ (.out, name) → fs'.at? p = fs.at? p) :
    Undoing staged initial rest fs' := by
  refine ⟨fun n hn => ?_, fun n a hn ha => ?_, fun n => ?_, h.owned⟩
  · rw [hother _ (by simp)]
    exact h.displaced n hn
  · have hne : n ≠ name := by
      rintro rfl
      rw [hfree.resolve_left hn] at ha
      cases ha
    rw [hother _ (by simpa using hne), hother _ (by simp)]
    exact h.settled n a hn ha
  · by_cases hne : n = name
    · exact .inr ⟨hne ▸ hname, .inr (hne ▸ hgone)⟩
    · rw [hother _ (by simpa using hne)]
      exact h.shows n

/-- A displaced file is put back. -/
theorem Undoing.restore {rest : List String} {fs fs' : FileSystem Path α} {name : String} {a : α}
    (h : Undoing staged initial (name :: rest) fs)
    (hsrc : fs.at? (.backup, name) = some a) (hdst : fs'.at? (.out, name) = some a)
    (hother : ∀ p, p ≠ (.backup, name) → p ≠ (.out, name) → fs'.at? p = fs.at? p)
    (hnot : name ∉ rest) : Undoing staged initial rest fs' := by
  have hback : initial.at? (.out, name) = some a :=
    (h.displaced name List.mem_cons_self).symm.trans hsrc
  have hmem : ∀ n, n ≠ name → n ∉ rest → n ∉ name :: rest := fun n hne hn => by
    simp [hne, hn]
  refine ⟨fun n hn => ?_, fun n b hn hb => ?_, fun n => ?_,
    fun n hn => h.owned n (List.mem_cons_of_mem _ hn)⟩
  · have hne : n ≠ name := fun heq => hnot (heq ▸ hn)
    rw [hother _ (by simpa using hne) (by simp)]
    exact h.displaced n (List.mem_cons_of_mem _ hn)
  · by_cases hne : n = name
    · subst hne
      left
      rw [hdst, ← hback, hb]
    · rw [hother _ (by simp) (by simpa using hne), hother _ (by simpa using hne) (by simp)]
      exact h.settled n b (hmem n hne hn) hb
  · by_cases hne : n = name
    · subst hne
      left
      rw [hdst, hback]
    · rw [hother _ (by simp) (by simpa using hne)]
      exact h.shows n

/-- A displaced file that cannot be put back stays in the backup. -/
theorem Undoing.leave {rest : List String} {fs : FileSystem Path α} {name : String}
    (h : Undoing staged initial (name :: rest) fs) :
    Undoing staged initial rest fs.failed := by
  refine ⟨fun n hn => h.displaced n (List.mem_cons_of_mem _ hn), fun n a hn ha => ?_, h.shows,
    fun n hn => h.owned n (List.mem_cons_of_mem _ hn)⟩
  by_cases hne : n = name
  · exact .inr ((h.displaced n (hne ▸ List.mem_cons_self)).trans ha)
  · exact h.settled n a (by simp [hne, hn]) ha

theorem settled_erase {fs : FileSystem Path α} (h : Settled staged initial fs) {p : Path}
    (hp : p.1 = .backup) : Settled staged initial { fs with files := fs.files.erase p } := by
  have hout : ∀ n, FileSystem.at? { fs with files := fs.files.erase p } (Place.out, n) =
      fs.at? (.out, n) := by
    intro n
    apply AList.lookup_erase_ne
    rintro rfl
    cases hp
  rcases h with h | h
  · exact .inl fun n => (hout n).trans (h n)
  · exact .inr fun n => (hout n).trans (h n)

/-- A rollback that lists nothing has put everything back. -/
theorem settled_of_raised (hstaged : staged.Nodup) {fs : FileSystem Path α}
    (h : (Outcome.raised, discardBackup survives fs) = publish faults survives staged initial) :
    Settled staged initial fs := by
  have hout : ∀ (fs : FileSystem Path α) (n : String),
      (discardBackup survives fs).at? (.out, n) = fs.at? (.out, n) := fun fs n =>
    at?_discardBackup_of_ne survives fs (show Place.out ≠ .backup by decide)
  rw [publish_eq_conclude] at h
  cases hkeeping : publishKeeping faults staged initial with
  | mk outcome fs' =>
    have hspec := (publishKeeping_spec hstaged initial hkeeping).1
    rw [hkeeping] at h
    cases outcome with
    | returned published => cases congrArg Prod.fst h
    | raised =>
      refine .inl fun n => ?_
      have hfs : discardBackup survives fs = discardBackup survives fs' := congrArg Prod.snd h
      rw [← hout fs n, hfs, hout fs' n]
      exact hspec n
    | rolledBackPartially unrestored unremoved => cases congrArg Prod.fst h

theorem land_false {name : String} {s' : Publishing α} (h : land faults name s = (false, s')) :
    s'.published = s.published := by
  unfold land at h
  split at h
  · cases congrArg Prod.fst h
  · obtain rfl := congrArg Prod.snd h
    rfl

/-- A call keeps what holds between calls. -/
theorem Between.step (hstaged : staged.Nodup) {x : Stage × Publishing α}
    (h : Between staged initial x)
    (hfinish : finish faults survives x = publish faults survives staged initial) :
    Between staged initial (step faults survives x) := by
  obtain ⟨stage, s⟩ := x
  cases stage with
  | publishing names =>
    obtain ⟨hprogress, hnames, hdisplaced⟩ := h
    cases names with
    | nil =>
      rw [List.append_nil] at hnames
      refine .inr fun n => ?_
      rw [← hnames]
      split
      · next hn => exact hprogress.landed n hn
      · next hn => exact hprogress.same n hn fun hmem => hn (hdisplaced n hmem)
    | cons name names =>
      have hname : name ∉ s.published := by
        rw [← hnames] at hstaged
        exact fun hn => (List.nodup_append.mp hstaged).2.2 name hn name List.mem_cons_self rfl
      rw [Publish.step]
      cases hdisplace : displace faults name s with
      | mk ok s' =>
        obtain ⟨hprogress', hpublished, hmem, hfree⟩ :=
          hprogress.displace hname (fun hn => hname (hdisplaced name hn)) hdisplace
        have hdisplaced' : ∀ n ∈ s'.displaced, n = name ∨ n ∈ s'.published := by
          intro n hn
          by_cases heq : n = name
          · exact .inl heq
          · right
            rw [hpublished]
            exact hdisplaced n ((hmem n heq).mp hn)
        rw [← hpublished] at hnames
        cases ok with
        | true => exact ⟨hprogress', hnames, hfree rfl, hdisplaced'⟩
        | false =>
          apply hprogress'.fails
          · exact fun n hn => hnames ▸ List.mem_append_left _ hn
          · intro n hn
            rw [← hnames]
            rcases hdisplaced' n hn with rfl | hn
            · simp
            · exact List.mem_append_left _ hn
  | landing name names =>
    obtain ⟨hprogress, hnames, hfree, hdisplaced⟩ := h
    have hname : name ∉ s.published := by
      rw [← hnames] at hstaged
      exact fun hn => (List.nodup_append.mp hstaged).2.2 name hn name List.mem_cons_self rfl
    rw [Publish.step]
    cases hland : land faults name s with
    | mk ok s' =>
      obtain ⟨hprogress', hsame, hpublished⟩ := hprogress.land hname hfree hland
      cases ok with
      | true =>
        have hpublished := hpublished rfl
        refine ⟨hprogress', ?_, fun n hn => ?_⟩
        · rw [hpublished, List.append_assoc]
          exact hnames
        · rw [hsame] at hn
          rw [hpublished]
          rcases hdisplaced n hn with rfl | hn
          · simp
          · exact List.mem_append_left _ hn
      | false =>
        rw [← land_false hland] at hnames hdisplaced
        rw [← hsame] at hdisplaced
        apply hprogress'.fails
        · exact fun n hn => hnames ▸ List.mem_append_left _ hn
        · intro n hn
          rw [← hnames]
          rcases hdisplaced n hn with rfl | hn
          · simp
          · exact List.mem_append_left _ hn
  | unpublishing names unremoved =>
    obtain ⟨hundoing, hnodup, hnames⟩ := h
    cases names with
    | nil => exact ⟨hundoing, hnodup⟩
    | cons name names =>
      obtain ⟨hname, hnames⟩ := List.forall_mem_cons.mp hnames
      rw [Publish.step]
      rcases s.fs.unlink_cases faults (Place.out, name) with ⟨hcall, _⟩ |
        ⟨fs', hcall, _, hgone, hother⟩
      · rw [hcall]
        exact ⟨⟨hundoing.displaced, hundoing.settled, hundoing.shows, hundoing.owned⟩, hnodup,
          hnames⟩
      · rw [hcall]
        exact ⟨hundoing.unlink hname.1 hname.2 hgone hother, hnodup, hnames⟩
  | restoring names unrestored unremoved =>
    obtain ⟨hundoing, hnodup⟩ := h
    cases names with
    | nil =>
      rw [Publish.step]
      split
      · next hnone =>
        apply settled_of_raised hstaged
        rw [← hfinish, finish, Publish.restore, restored, if_pos hnone]
        rfl
      · exact hundoing.interrupted
    | cons name names =>
      obtain ⟨hname, hnodup⟩ := List.nodup_cons.mp hnodup
      rw [Publish.step]
      rcases s.fs.replace_cases faults (Place.backup, name) (.out, name) with ⟨hcall, _⟩ |
        ⟨a, fs', hcall, hsrc, _, hdst, _, hother⟩
      · rw [hcall]
        exact ⟨hundoing.leave, hnodup⟩
      · rw [hcall]
        exact ⟨hundoing.restore hsrc hdst hother hname, hnodup⟩
  | discarding outcome =>
    rw [Publish.step]
    cases hnext : nextDiscarded survives s.fs with
    | some p =>
      have hp := List.find?_some hnext
      simp only [Bool.and_eq_true, beq_iff_eq] at hp
      exact settled_erase h hp.1
    | none => exact Settled.interrupted h
  | ended outcome => exact h

/-! ## Runs -/

theorem between_start (staged : List String) (initial : FileSystem Path α) :
    Between staged initial (start staged initial) :=
  ⟨Progress.start initial, rfl, fun _ hn => absurd hn List.not_mem_nil⟩

theorem between_iterate (hstaged : staged.Nodup) (k : Nat) :
    Between staged initial ((step faults survives)^[k] (start staged initial)) := by
  induction k with
  | zero => exact between_start staged initial
  | succ k ih =>
    rw [Function.iterate_succ_apply']
    apply ih.step hstaged
    rw [finish_iterate, finish_start]

/-- A publication may be killed between any two of its calls, whichever of them fail: each name of
the output then shows what it showed, what was staged for it, or nothing, and what it showed is in
the output or in the backup unless the whole new set is out. A run that is not killed ends as
`_publish` says. Whoever publishes the same names next, from whatever was staged then, leaves what
there would be had the killed run never begun. -/
theorem killed_publish (faults : Nat → Bool) (survives : String → Bool) {staged : List String}
    (hstaged : staged.Nodup) (initial : FileSystem Path α) :
    (∀ k, Interrupted staged initial
      ((step faults survives)^[k] (start staged initial)).2.fs) ∧
    (∃ k s, (step faults survives)^[k] (start staged initial) =
        (.ended (publish faults survives staged initial).1, s) ∧
      s.fs = (publish faults survives staged initial).2) ∧
    ∀ k (again : FileSystem Path α) faults' survives',
      (∀ n, again.at? (.out, n) =
        ((step faults survives)^[k] (start staged initial)).2.fs.at? (.out, n)) →
      (publish faults' survives' staged again).1 = .returned staged →
      ∀ n, (publish faults' survives' staged again).2.at? (.out, n) =
        if n ∈ staged then again.at? (.staging, n) else initial.at? (.out, n) := by
  have hkilled := fun k => (@between_iterate α faults survives staged initial hstaged k).interrupted
  refine ⟨hkilled, machine_publishes staged initial, fun k again faults' survives' hagain hreturned
    n => ?_⟩
  cases hkeeping : publishKeeping faults' staged again with
  | mk outcome fs =>
    have hspec := (publishKeeping_spec hstaged again hkeeping).1
    rw [publish_eq_conclude, hkeeping] at hreturned ⊢
    cases outcome with
    | returned published =>
      show (discardBackup survives' fs).at? (.out, n) = _
      rw [at?_discardBackup_of_ne survives' fs (show Place.out ≠ .backup by decide), hspec.2 n,
        hagain n]
      split
      · rfl
      · next hn => exact ((hkilled k).shows n).resolve_right fun h => hn h.1
    | raised => cases hreturned
    | rolledBackPartially unrestored unremoved => cases hreturned

/-- After three steps one file of the sample is replaced and the other not yet there. -/
theorem sampleFiles_killed :
    Interrupted ["a", "b"] sampleFiles
      ((step (fun _ => false) (fun _ => false))^[3] (start ["a", "b"] sampleFiles)).2.fs :=
  (killed_publish (fun _ => false) (fun _ => false) (show ["a", "b"].Nodup by decide)
    sampleFiles).1 3

end MissionCompiler.Publish
