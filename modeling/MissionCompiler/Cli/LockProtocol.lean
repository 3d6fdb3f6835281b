import Mathlib.Logic.Function.Basic
import Mathlib.Logic.Relation
import MissionCompiler.Cli.PublishLock
import MissionCompiler.Lib.LockFile

/-!
# Writers and their lock file

Any number of writers take the publish lock of one output directory, in steps that interleave with
each other and with what other users do to the lock file. Two of them are under the lock at once in
some run exactly where the directory passes the check and the file is exposed: a hostile user can
remove it, or make it first and remove it then.
-/

namespace MissionCompiler.Cli

open Lib Names

/-! ## Steps -/

/-- Where a writer is in `_publish_lock`, and the inode it has open. -/
inductive LockPhase where
  | outside
  | opened (node : Nat)
  | trying (node : Nat) (started : Rat)
  | inside (node : Nat)
  | finished

def LockPhase.node? : LockPhase → Option Nat
  | .opened n => some n
  | .trying n _ => some n
  | .inside n => some n
  | _ => none

/-- The lock file, the writers, and the time. -/
structure Locking (ι υ : Type) where
  file : LockFile ι υ
  phase : ι → LockPhase
  clock : Rat

inductive LockEvent (ι : Type) where
  | aside
  | moved (i : ι)
  | took (i : ι)
  | refused (i : ι) (refusal : LockError)
  | left (i : ι)

/-- What the writers of one output directory have in common: the lock directory, who may be
hostile there, and who the writers are. -/
structure LockSite (ι υ : Type) where
  host : LockHost
  directory : String
  name : String
  dir : LockDir υ
  hostile : υ → Prop
  uid : ι → υ
  canonical : String
  lockTimeout : ι → Rat

namespace LockSite

variable {ι υ : Type} (site : LockSite ι υ)

/-- The wait of a writer. -/
def wait (i : ι) (started : Rat) : Wait :=
  ⟨inDirectory site.directory site.name, site.canonical, started, site.lockTimeout i⟩

/-- The directory passes the check of `_require_safe_lock_dir`. -/
def isSafe : Bool := isSafeLockMode site.dir.mode

end LockSite

section

variable {ι υ : Type} [DecidableEq ι]

/-- A writer goes on to another phase. -/
def Locking.go (s : Locking ι υ) (i : ι) (phase : LockPhase) : Locking ι υ :=
  { s with phase := Function.update s.phase i phase }

def Locking.onFile (s : Locking ι υ) (file : LockFile ι υ) : Locking ι υ := { s with file := file }

variable [DecidableEq υ]

/-- A step of a writer in `_publish_lock`, or of its surroundings. Looking at the directory and
opening the file may fail for any reason, and so may a `flock`; that nothing can lock is said only
where nothing can. -/
inductive LockStep (site : LockSite ι υ) (lockable : Bool) (s : Locking ι υ) :
    LockEvent ι → Locking ι υ → Prop
  | intrude {file : LockFile ι υ} (intrusion : Intrusion site.dir site.hostile s.file file) :
      LockStep site lockable s .aside (s.onFile file)
  | tick {now : Rat} (onward : s.clock ≤ now) :
      LockStep site lockable s .aside { s with clock := now }
  | noFcntl {i : ι} {message : String} (here : s.phase i = .outside) (cannot : lockable = false) :
      LockStep site lockable s (.refused i (.unsupported message)) (s.go i .finished)
  | rejects {i : ι} {refusal : LockError} (here : s.phase i = .outside)
      (rejected : requireSafeLockDir site.directory (.ok site.dir.mode) = .error refusal) :
      LockStep site lockable s (.refused i refusal) (s.go i .finished)
  | cannotOpen {i : ι} {message : String} (here : s.phase i = .outside) :
      LockStep site lockable s (.refused i (.unavailable message)) (s.go i .finished)
  | opens {i : ι} {n : Nat} (here : s.phase i = .outside) (safe : site.isSafe = true)
      (present : s.file.entry = some n) :
      LockStep site lockable s (.moved i) (s.go i (.opened n))
  | creates {i : ι} {mode : Nat} (here : s.phase i = .outside) (safe : site.isSafe = true)
      (absent : s.file.entry = none) (may : site.dir.mayChange (site.uid i) = true) :
      LockStep site lockable s (.moved i)
        ((s.onFile (s.file.create ⟨site.uid i, true, mode, none⟩)).go i
          (.opened s.file.inodes.length))
  | irregular {i : ι} {n : Nat} {node : Inode ι υ} {message : String}
      (here : s.phase i = .opened n) (found : s.file.inodes[n]? = some node)
      (odd : node.regular = false) :
      LockStep site lockable s (.refused i (.unavailable message)) (s.go i .finished)
  | waits {i : ι} {n : Nat} {node : Inode ι υ} (here : s.phase i = .opened n)
      (found : s.file.inodes[n]? = some node) (regular : node.regular = true)
      (chmods : Bool) (own : chmods = true → node.owner = site.uid i) :
      LockStep site lockable s (.moved i)
        ((s.onFile (if chmods then s.file.chmod n 0o666 else s.file)).go i (.trying n s.clock))
  | retries {i : ι} {n : Nat} {started later : Rat} {e : Errno}
      (here : s.phase i = .trying n started)
      (failed : flockFailed site.host (site.wait i started) e s.clock later = none) :
      LockStep site lockable s (.moved i) s
  | fails {i : ι} {n : Nat} {started later : Rat} {e : Errno} {refusal : LockError}
      (here : s.phase i = .trying n started)
      (failed : flockFailed site.host (site.wait i started) e s.clock later = some refusal)
      (cannot : refusal.isUnsupported = true → lockable = false) :
      LockStep site lockable s (.refused i refusal) (s.go i .finished)
  | locks {i : ι} {n : Nat} {started : Rat} (here : s.phase i = .trying n started)
      (can : lockable = true) (there : n < s.file.inodes.length)
      (free : s.file.holder n = none) :
      LockStep site lockable s (.took i)
        ((s.onFile (s.file.setHolder n (some (.client i)))).go i (.inside n))
  | leaves {i : ι} {n : Nat} (here : s.phase i = .inside n) :
      LockStep site lockable s (.left i)
        ((s.onFile (s.file.setHolder n none)).go i .finished)

/-- What the steps of writers and others can come to. -/
def LockReaches (site : LockSite ι υ) (lockable : Bool) : Locking ι υ → Locking ι υ → Prop :=
  Relation.ReflTransGen fun s t => ∃ event, LockStep site lockable s event t

/-- The writers before any step. -/
def Locking.start (file : LockFile ι υ) (clock : Rat) : Locking ι υ :=
  ⟨file, fun _ => .outside, clock⟩

/-- No two writers are under the lock at once, in any run. -/
def Excludes (site : LockSite ι υ) (start : Locking ι υ) : Prop :=
  ∀ s, LockReaches site true start s → ∀ i j n m,
    s.phase i = .inside n → s.phase j = .inside m → i = j

end

/-! ## The invariant -/

section

variable {ι υ : Type} [DecidableEq υ] {site : LockSite ι υ} {lockable : Bool}
  {s t : Locking ι υ} {i j : ι} {n m : Nat}

/-- Nobody hostile can remove the lock file, so the inode that a writer has open is the one at the
path, and a writer under the lock holds it. -/
structure Orderly (site : LockSite ι υ) (s : Locking ι υ) : Prop where
  unexposed : ¬ Exposed site.dir site.hostile s.file
  named : ∀ i n, (s.phase i).node? = some n → s.file.entry = some n
  holds : ∀ i n, s.phase i = .inside n → s.file.holder n = some (.client i)

theorem Orderly.same (h : Orderly site s) (hi : (s.phase i).node? = some n)
    (hj : (s.phase j).node? = some m) : n = m :=
  Option.some.inj ((h.named i n hi).symm.trans (h.named j m hj))

theorem Orderly.exclusive (h : Orderly site s) (hi : s.phase i = .inside n)
    (hj : s.phase j = .inside m) : i = j := by
  have hn : n = m := h.same (by rw [hi]; rfl) (by rw [hj]; rfl)
  have hheld := h.holds i n hi
  rw [hn, h.holds j m hj] at hheld
  injection hheld with hclient
  injection hclient with hji
  exact hji.symm

variable [DecidableEq ι]

/-- A writer that goes on, over a file that stays at the path and in the hands of the others. -/
theorem Orderly.go (h : Orderly site s) {f : LockFile ι υ} {phase : LockPhase}
    (hexposed : ¬ Exposed site.dir site.hostile f)
    (hentry : ∀ n, s.file.entry = some n → f.entry = some n)
    (hnode : ∀ n, phase.node? = some n → f.entry = some n)
    (hothers : ∀ j n, j ≠ i → s.phase j = .inside n → f.holder n = some (.client j))
    (hmine : ∀ n, phase = .inside n → f.holder n = some (.client i)) :
    Orderly site ((s.onFile f).go i phase) where
  unexposed := hexposed
  named j n hj := by
    by_cases hji : j = i
    · subst hji
      rw [show ((s.onFile f).go j phase).phase j = phase from Function.update_self ..] at hj
      exact hnode n hj
    · rw [show ((s.onFile f).go i phase).phase j = s.phase j from
        Function.update_of_ne hji ..] at hj
      exact hentry n (h.named j n hj)
  holds j n hj := by
    by_cases hji : j = i
    · subst hji
      rw [show ((s.onFile f).go j phase).phase j = phase from Function.update_self ..] at hj
      exact hmine n hj
    · rw [show ((s.onFile f).go i phase).phase j = s.phase j from
        Function.update_of_ne hji ..] at hj
      exact hothers j n hji hj

/-- A writer that closes the file, or has not opened it. -/
theorem Orderly.finish (h : Orderly site s) : Orderly site (s.go i .finished) :=
  h.go (f := s.file) h.unexposed (fun _ hn => hn) (fun _ hn => by cases hn)
    (fun j n _ hj => h.holds j n hj) fun _ hn => by cases hn

/-- What one step keeps. -/
theorem Orderly.step {event : LockEvent ι} (h : Orderly site s)
    (step : LockStep site lockable s event t) : Orderly site t := by
  cases step with
  | intrude intrusion =>
    obtain ⟨hexposed, hentry, hholder⟩ := intrusion.keeps h.unexposed
    exact ⟨hexposed, fun j n hj => hentry n (h.named j n hj),
      fun j n hj => (hholder n j).mp (h.holds j n hj)⟩
  | tick onward => exact ⟨h.unexposed, h.named, h.holds⟩
  | noFcntl here cannot => exact h.finish
  | rejects here rejected => exact h.finish
  | cannotOpen here => exact h.finish
  | irregular here found odd => exact h.finish
  | fails here failed cannot => exact h.finish
  | retries here failed => exact h
  | @opens i n here safe present =>
    refine h.go (f := s.file) h.unexposed (fun _ hn => hn) (fun m hm => ?_)
      (fun j m _ hj => h.holds j m hj) fun _ hm => by cases hm
    rw [← Option.some.inj hm]
    exact present
  | @creates i mode here safe absent may =>
    refine h.go (not_exposed_create h.unexposed absent) (fun m hm => ?_) (fun m hm => hm)
      (fun j m _ hj => ?_) fun _ hm => by cases hm
    · rw [absent] at hm
      cases hm
    · rw [LockFile.holder_create rfl]
      exact h.holds j m hj
  | @waits i n node here found regular chmods own =>
    have hnamed : s.file.entry = some n := h.named i n (by rw [here]; rfl)
    cases chmods with
    | false =>
      refine h.go h.unexposed (fun _ hm => hm) (fun m hm => ?_)
        (fun j m _ hj => h.holds j m hj) fun _ hm => by cases hm
      rw [← Option.some.inj hm]
      exact hnamed
    | true =>
      refine h.go (not_exposed_chmod h.unexposed) (fun _ hm => hm) (fun m hm => ?_)
        (fun j m _ hj => ?_) fun _ hm => by cases hm
      · rw [← Option.some.inj hm]
        exact hnamed
      · rw [if_pos rfl, LockFile.holder_chmod]
        exact h.holds j m hj
  | @locks i n started here can there free =>
    have hnamed : s.file.entry = some n := h.named i n (by rw [here]; rfl)
    refine h.go (not_exposed_setHolder h.unexposed) (fun _ hm => hm) (fun m hm => ?_)
      (fun j m _ hj => ?_) fun m hm => ?_
    · rw [← Option.some.inj hm]
      exact hnamed
    · -- nobody else is under the lock, which is free
      have hm : m = n := h.same (i := j) (j := i) (by rw [hj]; rfl) (by rw [here]; rfl)
      have hheld := h.holds j m hj
      rw [hm, free] at hheld
      cases hheld
    · injection hm with hnm
      rw [← hnm, LockFile.holder_setHolder there, if_pos rfl]
  | @leaves i n here =>
    refine h.go (not_exposed_setHolder h.unexposed) (fun _ hm => hm) (fun _ hm => by cases hm)
      (fun j m hji hj => absurd (h.exclusive hj here) hji) fun _ hm => by cases hm

theorem Orderly.reaches (h : Orderly site s) (hst : LockReaches site lockable s t) :
    Orderly site t := by
  induction hst with
  | refl => exact h
  | tail _ hstep ih =>
    obtain ⟨event, step⟩ := hstep
    exact ih.step step

omit [DecidableEq ι] in
theorem Orderly.start {file : LockFile ι υ} {clock : Rat}
    (h : ¬ Exposed site.dir site.hostile file) : Orderly site (.start file clock) where
  unexposed := h
  named _ _ hn := by cases hn
  holds _ _ hn := by cases hn

/-! ## Directories that are refused -/

/-- Nobody comes to the lock by way of a directory that does not pass the check. -/
theorem reaches_of_refused (hrefused : site.isSafe = false) {file : LockFile ι υ} {clock : Rat}
    (h : LockReaches site lockable (.start file clock) s) (i : ι) :
    s.phase i = .outside ∨ s.phase i = .finished := by
  have hfinish : ∀ (s : Locking ι υ) i, (∀ j, s.phase j = .outside ∨ s.phase j = .finished) →
      ∀ j, (s.go i .finished).phase j = .outside ∨ (s.go i .finished).phase j = .finished := by
    intro s i hs j
    by_cases hji : j = i
    · subst hji
      exact .inr (Function.update_self ..)
    · rw [show (s.go i .finished).phase j = s.phase j from Function.update_of_ne hji ..]
      exact hs j
  suffices hall : ∀ j, s.phase j = .outside ∨ s.phase j = .finished from hall i
  induction h with
  | refl => exact fun _ => .inl rfl
  | @tail t u _ hstep ih =>
    obtain ⟨event, step⟩ := hstep
    have hnode : ∀ j n, (t.phase j).node? ≠ some n := by
      intro j n hn
      rcases ih j with hj | hj <;> rw [hj] at hn <;> cases hn
    cases step with
    | intrude intrusion => exact ih
    | tick onward => exact ih
    | noFcntl here cannot => exact hfinish t _ ih
    | rejects here rejected => exact hfinish t _ ih
    | cannotOpen here => exact hfinish t _ ih
    | irregular here found odd => exact hfinish t _ ih
    | fails here failed cannot => exact hfinish t _ ih
    | retries here failed => exact ih
    | opens here safe present =>
      rw [hrefused] at safe
      cases safe
    | creates here safe absent may =>
      rw [hrefused] at safe
      cases safe
    | waits here found regular chmods own => exact absurd (by rw [here]; rfl) (hnode _ _)
    | locks here can there free => exact absurd (by rw [here]; rfl) (hnode _ _)
    | leaves here => exact absurd (by rw [here]; rfl) (hnode _ _)

/-! ## Files that are exposed -/

theorem LockReaches.intrude {file : LockFile ι υ}
    (h : Relation.ReflTransGen (Intrusion site.dir site.hostile) s.file file) :
    LockReaches site lockable s (s.onFile file) := by
  induction h with
  | refl => exact .refl
  | tail _ hintrusion ih => exact ih.tail ⟨.aside, .intrude hintrusion⟩

/-- While the file is exposed, a writer can come under the lock whoever else is there: a hostile
user gives it a file of its own. The file is exposed again. -/
theorem exists_turn (hsafe : site.isSafe = true)
    (h : Exposed site.dir site.hostile s.file) (here : s.phase i = .outside) :
    ∃ t n, LockReaches site true s t ∧ t.phase i = .inside n ∧
      (∀ j, j ≠ i → t.phase j = s.phase j) ∧ Exposed site.dir site.hostile t.file := by
  obtain ⟨u, file, hu, hchange, hreach, -, hplant⟩ := h.plant
  have hnode : (file.create (planted u)).inodes[file.inodes.length]? = some (planted u) := by
    simp [LockFile.create]
  have hthere : file.inodes.length < (file.create (planted u)).inodes.length := by
    simp [LockFile.create]
  have hfree : (file.create (planted u)).holder file.inodes.length = none := by
    rw [LockFile.holder, hnode]
    rfl
  have hopens : LockReaches site true s ((s.onFile (file.create (planted u))).go i
      (.opened file.inodes.length)) :=
    (LockReaches.intrude (hreach.tail hplant)).tail
      ⟨.moved i, .opens here hsafe LockFile.entry_create⟩
  have hwaits := hopens.tail ⟨.moved i, .waits (Function.update_self ..) hnode rfl false
    (fun hchmods => by cases hchmods)⟩
  have hlocks := hwaits.tail ⟨.took i, .locks (Function.update_self ..) rfl hthere hfree⟩
  refine ⟨_, _, hlocks, Function.update_self .., fun j hj => ?_,
    exposed_of_ownedBy hu hchange (LockFile.ownedBy_setHolder.mpr LockFile.ownedBy_create)⟩
  simp [Locking.go, Locking.onFile, Function.update_of_ne hj]

theorem excludes_iff_exposed (file : LockFile ι υ) (clock : Rat) {i j : ι} (hij : i ≠ j) :
    Excludes site (.start file clock) ↔
      site.isSafe = false ∨ ¬ Exposed site.dir site.hostile file := by
  constructor
  · intro hexcludes
    by_contra hnot
    rw [not_or, Bool.not_eq_false, not_not] at hnot
    obtain ⟨hsafe, hexposed⟩ := hnot
    obtain ⟨s, n, hs, hin, hothers, hexposed⟩ := exists_turn
      (s := Locking.start file clock) (i := i) hsafe hexposed rfl
    obtain ⟨t, m, ht, hjm, hothers', -⟩ := exists_turn (i := j) hsafe hexposed
      (hothers j hij.symm)
    exact hij (hexcludes t (hs.trans ht) i j n m ((hothers' i hij).trans hin) hjm)
  · rintro (hrefused | hunexposed) s hs i j n m hi hj
    · rcases reaches_of_refused hrefused hs i with h | h <;> rw [h] at hi <;> cases hi
    · exact ((Orderly.start hunexposed).reaches hs).exclusive hi hj

omit [DecidableEq ι] in
/-- What the check of the directory leaves of the exposure: its owner, and where it is sticky
whoever made the file or can make it first. -/
theorem exposed_iff_of_isSafe (hsafe : site.isSafe = true) (file : LockFile ι υ) :
    Exposed site.dir site.hostile file ↔ site.hostile site.dir.owner ∨
      site.dir.isSticky = true ∧ ∃ u, site.hostile u ∧ site.dir.mayChange u = true ∧
        (file.entry = none ∨ file.OwnedBy u) := by
  have hbits := isSafeLockMode_eq_true.mp hsafe
  constructor
  · rintro ⟨u, hu, hchange, hwho⟩
    by_cases howner : u = site.dir.owner
    · exact .inl (howner ▸ hu)
    · have hsticky : site.dir.isSticky = true := hbits.resolve_right fun hprivate =>
        howner (site.dir.eq_owner_of_mayChange u hprivate.1 hprivate.2 hchange)
      rw [hsticky] at hwho
      simp only [Bool.true_eq_false, howner, false_or] at hwho
      exact .inr ⟨hsticky, u, hu, hchange, hwho⟩
  · rintro (howner | ⟨-, u, hu, hchange, hwho⟩)
    · exact ⟨_, howner, site.dir.mayChange_owner, .inr (.inl rfl)⟩
    · exact ⟨u, hu, hchange, .inr (.inr hwho)⟩

/-- Two writers are never under the lock at once exactly where the directory does not pass the
check, or its owner is not hostile and, if it is sticky, the file is there and was made by nobody
hostile who may write it. -/
theorem excludes_iff (file : LockFile ι υ) (clock : Rat) {i j : ι} (hij : i ≠ j) :
    Excludes site (.start file clock) ↔ (site.isSafe = true → ¬ site.hostile site.dir.owner ∧
      (site.dir.isSticky = true → ∀ u, site.hostile u → site.dir.mayChange u = true →
        file.entry ≠ none ∧ ¬ file.OwnedBy u)) := by
  rw [excludes_iff_exposed file clock hij, ← Bool.not_eq_true, ← imp_iff_not_or]
  refine imp_congr_right fun hsafe => ?_
  rw [exposed_iff_of_isSafe hsafe]
  simp only [not_or, not_and, not_exists]

end

/-! Two users of one host, and a third who means harm, with the lock where it is by default. -/

def sampleSite : LockSite Bool Nat where
  host := sampleLockHost
  directory := fixedLockDir
  name := lockFileName Compile.sampleSha "/data/out"
  dir := ⟨0, 0o1777, fun u => u == 0⟩
  hostile u := u = 66
  uid gate := if gate then 1000 else 1001
  canonical := "/data/out"
  lockTimeout _ := 30

/-- The lock file, as one of the two users left it. -/
def sampleLockFile : LockFile Bool Nat := LockFile.absent.create ⟨1000, true, 0o666, none⟩

theorem sampleSite_isSafe : sampleSite.isSafe = true := by decide

theorem sampleLockFile_entry : sampleLockFile.entry = some 0 := rfl

theorem sampleLockFile_inode : sampleLockFile.inodes[0]? = some ⟨1000, true, 0o666, none⟩ := rfl

theorem sampleLockFile_not_hostile {u : Nat} (howned : sampleLockFile.OwnedBy u) :
    ¬ sampleSite.hostile u := by
  have hmine : sampleLockFile.OwnedBy 1000 := LockFile.ownedBy_create
  rw [howned.unique hmine]
  show ¬ (1000 : Nat) = 66
  decide

theorem excludes_sample : Excludes sampleSite (.start sampleLockFile 0) := by
  refine (excludes_iff sampleLockFile 0 (show true ≠ false by decide)).mpr fun _ =>
    ⟨?_, fun _ u hu _ => ⟨?_, fun howned => sampleLockFile_not_hostile howned hu⟩⟩
  · show ¬ (0 : Nat) = 66
    decide
  · rw [sampleLockFile_entry]
    simp

theorem sampleLockFile_not_exposed :
    ¬ Exposed sampleSite.dir sampleSite.hostile sampleLockFile := by
  rintro ⟨u, hu, -, hsticky | howner | habsent | howned⟩
  · exact absurd hsticky (by decide)
  · have hroot : u = 0 := howner
    have hfoe : u = 66 := hu
    omega
  · rw [sampleLockFile_entry] at habsent
    cases habsent
  · exact sampleLockFile_not_hostile howned hu

end MissionCompiler.Cli
