import Mathlib.Data.Nat.Bitwise
import MissionCompiler.Cli.Steps
import MissionCompiler.Compile.Unique
import MissionCompiler.Lib.Outcome
import MissionCompiler.Lib.Polling

/-!
# Taking the publish lock

`publish_lock_path` and `_publish_lock` up to its `yield`. The lock file is named after what is
published into; its directory must not be one another user can swap the file out of; and `flock` is
tried until it succeeds, fails for a reason that is not contention, or the deadline is past. Of the
two refusals, the one that says that nothing can lock here lets a writer without a gate go on.
-/

namespace MissionCompiler.Cli

open Lib Names

/-! ## Refusals -/

/-- `PublishLockUnavailable` and `PublishLockUnsupported`, with their texts. -/
inductive LockError where
  | unavailable (message : String)
  | unsupported (message : String)

def LockError.isUnsupported : LockError → Bool
  | .unavailable _ => false
  | .unsupported _ => true

inductive Errno where
  | EWOULDBLOCK
  | EAGAIN
  | EINTR
  | ENOLCK
  | EOPNOTSUPP
  | EINVAL
  | ENOSYS
  | other (code : Nat)
deriving DecidableEq

/-- `_LOCK_UNSUPPORTED_ERRNOS`. -/
def lockUnsupportedErrnos : List Errno := [.ENOLCK, .EOPNOTSUPP, .EINVAL, .ENOSYS]

def contentionErrnos : List Errno := [.EWOULDBLOCK, .EAGAIN, .EINTR]

/-- What the texts of the refusals take from their surroundings. -/
structure LockHost where
  sha : Sha256
  strerror : Errno → String
  /-- A float in the format `.0f`. -/
  seconds : Rat → String

/-! ## The file -/

/-- The options of the command line that concern the lock. `--lock-key` is not blank where it is
given, and `--lock-timeout` is finite, not negative, and at most a day. -/
structure LockOptions where
  lockTimeout : Rat
  lockDir : Option String
  lockKey : Option String
  timeout_nonneg : 0 ≤ lockTimeout
  timeout_le : lockTimeout ≤ 86400
  key_notBlank : ∀ key ∈ lockKey, pyBlank key = false

/-- `_FIXED_LOCK_DIR`. -/
def fixedLockDir : String := "/tmp"

/-- `_default_lock_dir`. `usable` is `is_dir()` and `os.access(…, os.W_OK)`. -/
def defaultLockDir (usable : Bool) : Except LockError String :=
  if usable then .ok fixedLockDir
  else .error (.unavailable (fixedLockDir ++
    " is not a writable directory, so there is no shared " ++
    "default for the publish lock; give --lock-dir a directory every writer " ++
    "of this output can reach"))

/-- `lock_key if lock_key else os.path.realpath(out_dir)`. -/
def lockIdentity (realpath : String) : Option String → String
  | none => realpath
  | some key => if key == "" then realpath else key

/-- The name of a lock file. -/
def lockFileName (sha : Sha256) (identity : String) : String :=
  "orbital-publish-" ++ String.ofList (sha.digest 16 identity) ++ ".lock"

/-- `lock_dir or _default_lock_dir()`. -/
def lockDirectory (usable : Bool) : Option String → Except LockError String
  | none => defaultLockDir usable
  | some dir => if dir == "" then defaultLockDir usable else .ok dir

/-- `publish_lock_path`, as the directory and the name in it. -/
def publishLockPath (sha : Sha256) (usable : Bool) (realpath : String)
    (lockDir lockKey : Option String) : Except LockError (String × String) := do
  let directory ← lockDirectory usable lockDir
  return (directory, lockFileName sha (lockIdentity realpath lockKey))

/-- The path of a file in a directory. -/
def inDirectory (directory name : String) : String :=
  if directory.toList.getLast? = some '/' then directory ++ name else directory ++ "/" ++ name

/-- What `_require_safe_lock_dir` accepts of a mode: not writable by others, or sticky. -/
def isSafeLockMode (mode : Nat) : Bool :=
  !(mode &&& 0o022 != 0 && mode &&& 0o1000 == 0)

/-- `_require_safe_lock_dir`, on what `directory.stat()` gives. -/
def requireSafeLockDir (directory : String) : Except String Nat → Except LockError Unit
  | .error reason => .error (.unavailable ("the lock directory " ++ directory ++
      " could not be read: " ++ reason))
  | .ok mode =>
    if isSafeLockMode mode then .ok ()
    else .error (.unavailable ("the lock directory " ++ directory ++
      " is writable by other users and has no " ++
      "sticky bit, so another user can replace the lock file between two " ++
      "writers and neither would exclude the other; set the sticky bit " ++
      "(chmod +t) or point --lock-dir at a directory only this user writes"))

/-! ## The wait -/

variable (host : LockHost)

/-- What a wait is about: the lock file, the directory it is for, and the clock when it began. -/
structure Wait where
  lockPath : String
  canonical : String
  started : Rat
  lockTimeout : Rat

def Wait.deadline (wait : Wait) : Rat := wait.started + wait.lockTimeout

/-- The handler of an `OSError` of `flock`, by the readings of the clock there and for the text;
nothing is another turn of the loop. -/
def flockFailed (wait : Wait) (e : Errno) (now later : Rat) : Option LockError :=
  if e ∈ lockUnsupportedErrnos then
    some (.unsupported ("the publish lock at " ++ wait.lockPath ++ " cannot be taken on this " ++
      "filesystem (" ++ host.strerror e ++ "), so publishing cannot be " ++ "serialised here"))
  else if e ∉ contentionErrnos then
    some (.unavailable ("the publish lock at " ++ wait.lockPath ++ " could not be taken " ++
      "(" ++ host.strerror e ++ "); publishing was not attempted"))
  else if wait.deadline ≤ now then
    some (.unavailable ("the publish lock at " ++ wait.lockPath ++
      " is held by another render; " ++ "waited " ++ host.seconds (later - wait.started) ++
      "s of " ++ host.seconds wait.lockTimeout ++ "s for the output directory " ++
      wait.canonical ++ ". Nothing was linted or " ++ "published."))
  else none

/-- A turn of the loop: the `flock`, and where it fails the readings of the clock after it. -/
def lockTurn (wait : Wait) (flock : Nat → Option Errno) (clock : Nat → Rat) (n : Nat) :
    Option (Except LockError Unit) :=
  match flock n with
  | none => some (.ok ())
  | some e => (flockFailed host wait e (clock (2 * n + 1)) (clock (2 * n + 2))).map .error

/-! ## The lock -/

/-- What the attempt to take the lock meets. -/
structure LockSurroundings where
  /-- `fcntl` can be imported. -/
  hasFcntl : Bool
  /-- `os.path.realpath(out_dir)`. -/
  realpath : String
  fixedDirUsable : Bool
  /-- `directory.stat()`, by the path of the directory. -/
  stat : String → Except String Nat
  /-- `os.open` of the lock file, and whether what it opened is a regular file. -/
  opened : String → Except String Bool
  /-- The attempts at `flock`, in order; nothing is a success. -/
  flock : Nat → Option Errno
  /-- The readings of `time.monotonic()`, in order. -/
  clock : Nat → Rat

variable (s : LockSurroundings) (options : LockOptions)

/-- The `os.open` of the lock file and the look at what was opened. -/
def openLockFile (opened : String → Except String Bool) (lockPath : String) :
    Except LockError Unit :=
  match opened lockPath with
  | .error reason => .error (.unavailable ("the publish lock at " ++ lockPath ++
      " could not be opened, so publishing " ++ "cannot be serialised here: " ++ reason))
  | .ok false =>
    .error (.unavailable ("the publish lock at " ++ lockPath ++ " is not a regular file"))
  | .ok true => .ok ()

/-- `_publish_lock` up to its loop: the file is open, and the wait begins. -/
def openLock : Except LockError Wait :=
  if !s.hasFcntl then
    .error (.unsupported ("the publish lock needs fcntl, which this platform does not provide, " ++
      "so --argo-lint cannot serialise publishing here"))
  else do
    let path ← publishLockPath host.sha s.fixedDirUsable s.realpath options.lockDir
      options.lockKey
    requireSafeLockDir path.1 (s.stat path.1)
    openLockFile s.opened (inDirectory path.1 path.2)
    return ⟨inDirectory path.1 path.2, s.realpath, s.clock 0, options.lockTimeout⟩

/-- `_publish_lock` up to its `yield`, with the attempt that took the lock. Nothing is what is not
decided within the fuel. -/
def publishLock (fuel : Nat) : Option (Except LockError Nat) :=
  match openLock host s options with
  | .error e => some (.error e)
  | .ok wait =>
    (poll (lockTurn host wait s.flock s.clock) fuel 0).map fun decided =>
      decided.2.map fun _ => decided.1

/-- What the commands are told of the lock. -/
def lockOf : Except LockError Nat → Lock
  | .ok _ => .acquired
  | .error e => if e.isUnsupported then .unsupported else .unavailable

/-! ## What it comes to -/

/-- The attempts so far met contention, before the deadline. -/
def Contended (wait : Wait) (flock : Nat → Option Errno) (clock : Nat → Rat) (n : Nat) : Prop :=
  ∀ k < n, ∃ e ∈ contentionErrnos, flock k = some e ∧ clock (2 * k + 1) < wait.deadline

/-- The attempts that are made before one takes the lock or decides otherwise. -/
def attemptsWithin (options : LockOptions) : Nat := ⌈options.lockTimeout / (1 / 5)⌉₊ + 1

variable {host s options} {wait : Wait} {flock : Nat → Option Errno} {clock : Nat → Rat} {n : Nat}

theorem and_two_pow_eq_zero {mode bit : Nat} : mode &&& 2 ^ bit = 0 ↔ mode.testBit bit = false := by
  rw [Nat.and_two_pow]
  cases mode.testBit bit <;> simp

/-- The modes that are accepted: sticky, or with no write permission but the owner's. -/
theorem isSafeLockMode_eq_true {mode : Nat} : isSafeLockMode mode = true ↔
    mode.testBit 9 = true ∨ mode.testBit 4 = false ∧ mode.testBit 1 = false := by
  have hsticky : mode &&& 0o1000 = 0 ↔ mode.testBit 9 = false := @and_two_pow_eq_zero mode 9
  have hshared : mode &&& 0o022 = 0 ↔ mode.testBit 4 = false ∧ mode.testBit 1 = false := by
    rw [show (0o022 : Nat) = 2 ^ 4 ||| 2 ^ 1 from rfl, Nat.and_or_distrib_left,
      Nat.or_eq_zero_iff, and_two_pow_eq_zero, and_two_pow_eq_zero]
  simp only [isSafeLockMode, Bool.not_eq_true', Bool.and_eq_false_iff, bne_eq_false_iff_eq,
    beq_eq_false_iff_ne, ne_eq, hsticky, hshared, Bool.not_eq_false]
  exact or_comm

theorem contention_not_unsupported {e : Errno} (h : e ∈ contentionErrnos) :
    e ∉ lockUnsupportedErrnos := by
  intro hun
  simp only [contentionErrnos, lockUnsupportedErrnos, List.mem_cons, List.not_mem_nil,
    or_false] at h hun
  rcases h with rfl | rfl | rfl <;> simp at hun

theorem flockFailed_eq_none {e : Errno} {now later : Rat} :
    flockFailed host wait e now later = none ↔ e ∈ contentionErrnos ∧ now < wait.deadline := by
  unfold flockFailed
  split
  case isTrue hun =>
    simp only [reduceCtorEq, false_iff, not_and]
    exact fun hcontention => absurd hun (contention_not_unsupported hcontention)
  case isFalse =>
    split
    case isTrue hother => simp [hother]
    case isFalse hcontention =>
      split
      case isTrue hlate => simp [hlate]
      case isFalse hearly => simp [not_not.mp hcontention, not_le.mp hearly]

theorem flockFailed_unsupported {e : Errno} {now later : Rat} {refusal : LockError}
    (h : flockFailed host wait e now later = some refusal) :
    refusal.isUnsupported = true ↔ e ∈ lockUnsupportedErrnos := by
  unfold flockFailed at h
  split at h
  case isTrue hun =>
    rw [← Option.some.inj h]
    simp [hun, LockError.isUnsupported]
  case isFalse hun =>
    split at h
    case isTrue =>
      rw [← Option.some.inj h]
      simp [hun, LockError.isUnsupported]
    case isFalse =>
      split at h
      case isTrue =>
        rw [← Option.some.inj h]
        simp [hun, LockError.isUnsupported]
      case isFalse => cases h

theorem lockTurn_eq_none : lockTurn host wait flock clock n = none ↔
    ∃ e ∈ contentionErrnos, flock n = some e ∧ clock (2 * n + 1) < wait.deadline := by
  unfold lockTurn
  cases hn : flock n with
  | none => simp
  | some e =>
    rw [Option.map_eq_none_iff, flockFailed_eq_none]
    simp

theorem contended_iff (host : LockHost) :
    Contended wait flock clock n ↔ ∀ k < n, lockTurn host wait flock clock k = none := by
  simp only [Contended, lockTurn_eq_none]

theorem lockTurn_eq_ok :
    lockTurn host wait flock clock n = some (.ok ()) ↔ flock n = none := by
  unfold lockTurn
  cases flock n with
  | none => simp
  | some e => simp

theorem lockTurn_unsupported : (∃ refusal, lockTurn host wait flock clock n =
      some (.error refusal) ∧ refusal.isUnsupported = true) ↔
    ∃ e ∈ lockUnsupportedErrnos, flock n = some e := by
  unfold lockTurn
  cases hn : flock n with
  | none => simp
  | some e =>
    simp only [Option.map_eq_some_iff, Except.error.injEq, Option.some.injEq,
      exists_eq_right', exists_eq_right]
    constructor
    · rintro ⟨refusal, hfailed, hun⟩
      exact (flockFailed_unsupported hfailed).mp hun
    · intro hun
      refine ⟨_, if_pos hun, rfl⟩

/-- The file is open, and a wait for the lock on it begins. -/
structure Opened (host : LockHost) (s : LockSurroundings) (options : LockOptions) (wait : Wait)
    (directory name : String) (mode : Nat) : Prop where
  hasFcntl : s.hasFcntl = true
  path : publishLockPath host.sha s.fixedDirUsable s.realpath options.lockDir options.lockKey =
    .ok (directory, name)
  stat : s.stat directory = .ok mode
  safe : isSafeLockMode mode = true
  regular : s.opened (inDirectory directory name) = .ok true
  wait_eq : wait = ⟨inDirectory directory name, s.realpath, s.clock 0, options.lockTimeout⟩

theorem requireSafeLockDir_eq_ok {directory : String} {stat : Except String Nat} {u : Unit} :
    requireSafeLockDir directory stat = .ok u ↔
      ∃ mode, stat = .ok mode ∧ isSafeLockMode mode = true := by
  cases stat with
  | error reason => simp [requireSafeLockDir]
  | ok mode =>
    rw [requireSafeLockDir]
    split
    case isTrue h => simp [h]
    case isFalse h => simp [h]

theorem openLockFile_eq_ok {opened : String → Except String Bool} {lockPath : String} {u : Unit} :
    openLockFile opened lockPath = .ok u ↔ opened lockPath = .ok true := by
  unfold openLockFile
  split
  case h_1 heq => simp [heq]
  case h_2 heq => simp [heq]
  case h_3 heq => simp [heq]

theorem openLock_eq_ok : openLock host s options = .ok wait ↔
    ∃ directory name mode, Opened host s options wait directory name mode := by
  unfold openLock
  split
  case isTrue hfcntl =>
    simp only [reduceCtorEq, false_iff, not_exists]
    intro directory name mode hopened
    simp [hopened.hasFcntl] at hfcntl
  case isFalse hfcntl =>
    have hfcntl : s.hasFcntl = true := by simpa using hfcntl
    simp only [bind_eq_ok, requireSafeLockDir_eq_ok, openLockFile_eq_ok]
    constructor
    · rintro ⟨⟨directory, name⟩, hpath, _, ⟨mode, hstat, hmode⟩, _, hregular, hwait⟩
      exact ⟨directory, name, mode, hfcntl, hpath, hstat, hmode, hregular,
        (Except.ok.inj hwait).symm⟩
    · rintro ⟨directory, name, mode, -, hpath, hstat, hmode, hregular, rfl⟩
      exact ⟨_, hpath, (), ⟨mode, hstat, hmode⟩, (), hregular, rfl⟩

/-- What is refused before the wait is refused for good, without `fcntl` apart. -/
theorem openLock_unsupported (host : LockHost) (s : LockSurroundings) (options : LockOptions) :
    Ends (fun _ => s.hasFcntl = true)
    (fun refusal => refusal.isUnsupported = true ↔ s.hasFcntl = false)
      (openLock host s options) := by
  unfold openLock
  split
  case isTrue hfcntl => simpa [LockError.isUnsupported] using hfcntl
  case isFalse hfcntl =>
    have hfcntl : s.hasFcntl = true := by simpa using hfcntl
    have hunavailable : ∀ message, (LockError.unavailable message).isUnsupported = true ↔
        s.hasFcntl = false := by simp [LockError.isUnsupported, hfcntl]
    have hdefault : Ends (fun _ => True) (fun refusal : LockError =>
        refusal.isUnsupported = true ↔ s.hasFcntl = false) (defaultLockDir s.fixedDirUsable) := by
      unfold defaultLockDir
      split
      · trivial
      · exact hunavailable _
    refine Ends.bind (P := fun _ => True) ?_ fun path _ =>
      Ends.bind (P := fun _ => True) ?_ fun _ _ => Ends.bind (P := fun _ => True) ?_
        fun _ _ => hfcntl
    · refine Ends.bind (P := fun _ => True) ?_ fun _ _ => trivial
      unfold lockDirectory
      split
      · exact hdefault
      · split
        · exact hdefault
        · trivial
    · unfold requireSafeLockDir
      split
      · exact hunavailable _
      · split
        · trivial
        · exact hunavailable _
    · unfold openLockFile
      split
      · exact hunavailable _
      · exact hunavailable _
      · trivial

/-! ## Deciding -/

theorem publishLock_of_error {refusal : LockError} {fuel : Nat}
    (h : openLock host s options = .error refusal) :
    publishLock host s options fuel = some (.error refusal) := by
  rw [publishLock, h]

theorem publishLock_of_ok {fuel : Nat} (h : openLock host s options = .ok wait) :
    publishLock host s options fuel =
      (poll (lockTurn host wait s.flock s.clock) fuel 0).map fun decided =>
        decided.2.map fun _ => decided.1 := by
  rw [publishLock, h]

/-- The pauses of the loop, against the clock. -/
abbrev LockTicks (s : LockSurroundings) (options : LockOptions) : Prop :=
  Ticks (1 / 5) (s.clock 0 + options.lockTimeout) s.clock

/-- The wait is over by the turn that the deadline allows last. -/
theorem exists_lockTurn (hticks : LockTicks s options) (h : openLock host s options = .ok wait)
    {fuel : Nat} (hfuel : attemptsWithin options ≤ fuel) :
    ∃ n result, poll (lockTurn host wait s.flock s.clock) fuel 0 = some (n, result) := by
  obtain ⟨_, _, _, hopened⟩ := openLock_eq_ok.mp h
  have hdeadline : wait.deadline = s.clock 0 + options.lockTimeout := by
    rw [hopened.wait_eq]
    rfl
  have hpast := hticks.deadline_past (by norm_num)
  have hdecided : (lockTurn host wait s.flock s.clock
      ⌈options.lockTimeout / (1 / 5)⌉₊).isSome = true := by
    rw [Option.isSome_iff_ne_none, Ne, lockTurn_eq_none]
    rintro ⟨e, -, -, hearly⟩
    rw [hdeadline] at hearly
    exact absurd hpast (not_le.mpr hearly)
  obtain ⟨n, -, result, hpoll⟩ := exists_poll hdecided hfuel
  exact ⟨n, result, hpoll⟩

/-- The file is open, and the attempts before one met contention before the deadline. -/
def Attempted (host : LockHost) (s : LockSurroundings) (options : LockOptions) (n : Nat) : Prop :=
  ∃ wait directory name mode, Opened host s options wait directory name mode ∧
    Contended wait s.flock s.clock n

/-- What a wait that is over came to. -/
theorem decided_iff {result : Except LockError Unit} {fuel : Nat}
    (hopen : openLock host s options = .ok wait)
    (h : poll (lockTurn host wait s.flock s.clock) fuel 0 = some (n, result)) (m : Nat)
    (p : Option Errno → Prop) (hp : ∀ e ∈ contentionErrnos, ¬ p (some e)) :
    (Attempted host s options m ∧ p (s.flock m)) ↔ m = n ∧ p (s.flock n) := by
  obtain ⟨-, -, hn, hbefore⟩ := poll_eq_some.mp h
  have hcontended : Contended wait s.flock s.clock n :=
    (contended_iff host).mpr fun k hk => hbefore k (Nat.zero_le k) hk
  constructor
  · rintro ⟨⟨wait', directory, name, mode, hopened, hcontended'⟩, hpm⟩
    have hwait : wait' = wait :=
      Except.ok.inj ((openLock_eq_ok.mpr ⟨_, _, _, hopened⟩).symm.trans hopen)
    rw [hwait] at hcontended'
    have hle : m = n := by
      rcases Nat.lt_trichotomy m n with hlt | heq | hlt
      · obtain ⟨e, he, hfailed, -⟩ := hcontended m hlt
        rw [hfailed] at hpm
        exact absurd hpm (hp e he)
      · exact heq
      · have hnone := (contended_iff host).mp hcontended' n hlt
        rw [hnone] at hn
        cases hn
    rw [hle] at hpm
    exact ⟨hle, hpm⟩
  · rintro ⟨rfl, hpm⟩
    obtain ⟨directory, name, mode, hopened⟩ := openLock_eq_ok.mp hopen
    exact ⟨⟨wait, directory, name, mode, hopened, hcontended⟩, hpm⟩

/-- The attempt to take the publish lock is over when the deadline is, with no more sleep than the
timeout. It takes the lock exactly where the file is open in a safe directory and a `flock` succeeds
after nothing but contention; it says that nothing can lock exactly where there is no `fcntl`, or a
`flock` says so after nothing but contention. Everything else refuses every writer. -/
theorem publishLock_decides (host : LockHost) (hticks : LockTicks s options) :
    ∃ outcome, (∀ fuel, attemptsWithin options ≤ fuel →
        publishLock host s options fuel = some outcome) ∧
      (∀ n, outcome = .ok n ↔ Attempted host s options n ∧ s.flock n = none) ∧
      (lockOf outcome = .unsupported ↔ s.hasFcntl = false ∨ ∃ n, Attempted host s options n ∧
        ∃ e ∈ lockUnsupportedErrnos, s.flock n = some e) ∧
      ∀ n, pauses (1 / 5) (s.clock 0 + options.lockTimeout) s.clock n ≤ options.lockTimeout := by
  have hslept := hticks.pauses_le_timeout options.timeout_nonneg
  have hends := openLock_unsupported host s options
  cases hopen : openLock host s options with
  | error refusal =>
    have hnever : ∀ n, ¬ Attempted host s options n := by
      rintro n ⟨wait, directory, name, mode, hopened, -⟩
      rw [openLock_eq_ok.mpr ⟨_, _, _, hopened⟩] at hopen
      cases hopen
    refine ⟨.error refusal, fun fuel _ => publishLock_of_error hopen, fun n => ?_, ?_, hslept⟩
    · simp [hnever n]
    · have hun := hends.of_eq_error hopen
      simp only [hnever, false_and, exists_false, or_false, ← hun]
      cases refusal <;> simp [lockOf, LockError.isUnsupported]
  | ok wait =>
    have hfcntl := hends.of_eq_ok hopen
    obtain ⟨n, result, hpoll⟩ := exists_lockTurn hticks hopen le_rfl
    obtain ⟨-, hlt, hturn, hbefore⟩ := poll_eq_some.mp hpoll
    refine ⟨result.map fun _ => n, fun fuel hfuel => ?_, fun m => ?_, ?_, hslept⟩
    · rw [publishLock_of_ok hopen, poll_eq_some.mpr ⟨Nat.zero_le n, by omega, hturn, hbefore⟩]
      rfl
    · rw [decided_iff hopen hpoll m (· = none) (by simp)]
      have hok := @lockTurn_eq_ok host wait s.flock s.clock n
      rw [hturn, Option.some.injEq] at hok
      rw [← hok]
      cases result <;> simp [Except.map, eq_comm]
    · have hsame : ∀ m, (Attempted host s options m ∧
          ∃ e ∈ lockUnsupportedErrnos, s.flock m = some e) ↔
            m = n ∧ ∃ e ∈ lockUnsupportedErrnos, s.flock n = some e := by
        refine fun m => decided_iff hopen hpoll m
          (fun failed => ∃ e ∈ lockUnsupportedErrnos, failed = some e) ?_
        rintro e he ⟨e', he', heq⟩
        rw [Option.some.inj heq] at he
        exact contention_not_unsupported he he'
      have hun := @lockTurn_unsupported host wait s.flock s.clock n
      rw [hturn] at hun
      simp only [hfcntl, Bool.true_eq_false, false_or, hsame, exists_eq_left, ← hun]
      cases result with
      | ok u => simp [Except.map, lockOf]
      | error refusal => cases refusal <;> simp [Except.map, lockOf, LockError.isUnsupported]

def sampleLockOptions : LockOptions where
  lockTimeout := 30
  lockDir := none
  lockKey := none
  timeout_nonneg := by norm_num
  timeout_le := by norm_num
  key_notBlank _ h := by cases h

def sampleLockHost : LockHost := ⟨Compile.sampleSha, fun _ => "error", fun _ => "0"⟩

/-- Another render holds the lock once, and has let it go by the next attempt. -/
def sampleSurroundings : LockSurroundings where
  hasFcntl := true
  realpath := "/data/out"
  fixedDirUsable := true
  stat _ := .ok 0o1777
  opened _ := .ok true
  flock n := if n = 0 then some .EAGAIN else none
  clock n := n

theorem sampleSurroundings_ticks : LockTicks sampleSurroundings sampleLockOptions where
  onward n := by
    show (n : Rat) ≤ ((n + 1 : Nat) : Rat)
    push_cast
    linarith
  slept n := by
    have hstep : pause (1 / 5) (sampleSurroundings.clock (2 * n + 2))
        (sampleSurroundings.clock 0 + sampleLockOptions.lockTimeout) ≤ 1 / 5 := min_le_left _ _
    show ((2 * n + 2 : Nat) : Rat) + _ ≤ ((2 * n + 3 : Nat) : Rat)
    push_cast
    linarith

theorem publishLock_waits_once : publishLock sampleLockHost sampleSurroundings sampleLockOptions
    (attemptsWithin sampleLockOptions) = some (.ok 1) := by
  obtain ⟨outcome, hfuel, hok, -, -⟩ := publishLock_decides sampleLockHost
    sampleSurroundings_ticks
  rw [hfuel _ le_rfl, Option.some.injEq, hok]
  refine ⟨⟨_, _, _, _, ⟨rfl, rfl, rfl, rfl, rfl, rfl⟩, fun k hk => ?_⟩, rfl⟩
  obtain rfl : k = 0 := by omega
  refine ⟨.EAGAIN, by decide, rfl, ?_⟩
  show ((2 * 0 + 1 : Nat) : Rat) < ((0 : Nat) : Rat) + 30
  norm_num

end MissionCompiler.Cli
