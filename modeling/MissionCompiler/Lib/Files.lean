import Mathlib.Data.List.AList

/-!
# Files that can fail to move

A file system as far as renaming and removing goes: what is at a path, for paths of any kind.
Each call can fail, for a reason of its own or because there is nothing at its path, and a call
that fails changes nothing. Which calls fail is an oracle over the number of the call, so that a
statement for every oracle is a statement for every pattern of failures.
-/

namespace Lib

/-- What is at each path. -/
abbrev Files (κ α : Type) := AList (fun _ : κ => α)

/-- A file system in use: how many calls were made, and what is where. -/
structure FileSystem (κ α : Type) where
  files : Files κ α
  calls : Nat

namespace FileSystem

variable {κ α : Type} [DecidableEq κ]

/-- What is at a path. -/
def at? (fs : FileSystem κ α) (p : κ) : Option α := fs.files.lookup p

/-- A call was made, and failed. -/
def failed (fs : FileSystem κ α) : FileSystem κ α := { fs with calls := fs.calls + 1 }

/-- `os.replace(src, dst)`: whether it succeeded, and the file system after it. -/
def replace (faults : Nat → Bool) (src dst : κ) (fs : FileSystem κ α) :
    Bool × FileSystem κ α :=
  match faults fs.calls, fs.files.lookup src with
  | false, some a => (true, ⟨(fs.files.erase src).insert dst a, fs.calls + 1⟩)
  | _, _ => (false, fs.failed)

/-- `path.unlink()`. -/
def unlink (faults : Nat → Bool) (p : κ) (fs : FileSystem κ α) : Bool × FileSystem κ α :=
  match faults fs.calls, fs.files.lookup p with
  | false, some _ => (true, ⟨fs.files.erase p, fs.calls + 1⟩)
  | _, _ => (false, fs.failed)

/-- Writing a file as a whole, whether or not there is one at its path. -/
def write (faults : Nat → Bool) (p : κ) (a : α) (fs : FileSystem κ α) :
    Bool × FileSystem κ α :=
  match faults fs.calls with
  | false => (true, ⟨fs.files.insert p a, fs.calls + 1⟩)
  | true => (false, fs.failed)

/-- A call that only looks, such as listing a directory. -/
def look (faults : Nat → Bool) (fs : FileSystem κ α) : Bool × FileSystem κ α :=
  (!faults fs.calls, fs.failed)

/-- Without the files at some paths, as after the removal of a directory nobody else uses. -/
def without (gone : κ → Bool) (fs : FileSystem κ α) : FileSystem κ α where
  files := ⟨fs.files.entries.filter fun e => !gone e.1,
    fs.files.nodupKeys.sublist List.filter_sublist⟩
  calls := fs.calls

/-- A call that failed changes nothing. -/
@[simp] theorem at?_failed (fs : FileSystem κ α) (p : κ) : fs.failed.at? p = fs.at? p := rfl

/-- What is removed is gone, and the rest is as it was. -/
theorem at?_without (gone : κ → Bool) (fs : FileSystem κ α) (p : κ) :
    (fs.without gone).at? p = if gone p then none else fs.at? p := by
  apply Option.ext
  intro a
  have hentry : (fs.without gone).at? p = some a ↔
      ⟨p, a⟩ ∈ fs.files.entries.filter fun e => !gone e.1 := by
    rw [at?, ← Option.mem_def, AList.mem_lookup_iff]
    rfl
  rw [hentry, List.mem_filter]
  cases hgone : gone p with
  | true => simp
  | false =>
    rw [← AList.mem_lookup_iff]
    simp [at?]

/-- After some paths were erased one by one there is nothing at them. -/
theorem lookup_foldl_erase (gone : List κ) (files : Files κ α) (p : κ) :
    (gone.foldl (fun files q => files.erase q) files).lookup p =
      if p ∈ gone then none else files.lookup p := by
  induction gone generalizing files with
  | nil => simp
  | cons q gone ih =>
    rw [List.foldl_cons, ih]
    by_cases hp : p = q
    · subst hp
      simp
    · simp [hp, AList.lookup_erase_ne hp]

/-- An erased path is the only one missing of those that are filtered. -/
theorem filter_keys_erase (files : Files κ α) (keep : κ → Bool) (p : κ) :
    (files.erase p).keys.filter keep =
      (files.keys.filter keep).filter fun q => !decide (q = p) := by
  rw [AList.keys_erase, files.keys_nodup.erase_eq_filter, List.filter_comm]
  rfl

/-- What a call did. -/
theorem replace_cases (faults : Nat → Bool) (src dst : κ) (fs : FileSystem κ α) :
    (fs.replace faults src dst = (false, fs.failed) ∧
        (faults fs.calls = true ∨ fs.at? src = none)) ∨
      ∃ a fs', fs.replace faults src dst = (true, fs') ∧ fs.at? src = some a ∧
        faults fs.calls = false ∧ fs'.at? dst = some a ∧ (src ≠ dst → fs'.at? src = none) ∧
        ∀ p, p ≠ src → p ≠ dst → fs'.at? p = fs.at? p := by
  unfold replace at?
  cases hfault : faults fs.calls with
  | true => exact .inl ⟨rfl, .inl rfl⟩
  | false =>
    cases hsrc : fs.files.lookup src with
    | none => exact .inl ⟨rfl, .inr rfl⟩
    | some a =>
      refine .inr ⟨a, _, rfl, rfl, rfl, AList.lookup_insert _, fun hne => ?_, fun p hp hq => ?_⟩
      · rw [AList.lookup_insert_ne hne, AList.lookup_erase]
      · rw [AList.lookup_insert_ne hq, AList.lookup_erase_ne hp]

/-- A file is removed, or the call fails: of itself, or because nothing is there. -/
theorem unlink_cases (faults : Nat → Bool) (p : κ) (fs : FileSystem κ α) :
    (fs.unlink faults p = (false, fs.failed) ∧ (faults fs.calls = true ∨ fs.at? p = none)) ∨
      ∃ fs', fs.unlink faults p = (true, fs') ∧ faults fs.calls = false ∧ fs'.at? p = none ∧
        ∀ q, q ≠ p → fs'.at? q = fs.at? q := by
  unfold unlink at?
  cases hfault : faults fs.calls with
  | true => exact .inl ⟨rfl, .inl rfl⟩
  | false =>
    cases hp : fs.files.lookup p with
    | none => exact .inl ⟨rfl, .inr rfl⟩
    | some a =>
      exact .inr ⟨_, rfl, rfl, AList.lookup_erase p _, fun q hq => AList.lookup_erase_ne hq⟩

/-- A file is written, or the call fails and changes nothing. -/
theorem write_cases (faults : Nat → Bool) (p : κ) (a : α) (fs : FileSystem κ α) :
    (fs.write faults p a = (false, fs.failed) ∧ faults fs.calls = true) ∨
      ∃ fs', fs.write faults p a = (true, fs') ∧ faults fs.calls = false ∧
        fs'.at? p = some a ∧ ∀ q, q ≠ p → fs'.at? q = fs.at? q := by
  unfold write at?
  cases hfault : faults fs.calls with
  | true => exact .inl ⟨rfl, rfl⟩
  | false =>
    exact .inr ⟨_, rfl, rfl, AList.lookup_insert _, fun q hq => AList.lookup_insert_ne hq⟩

/-! ## File systems that look alike -/

section

variable {here : κ → Prop} {fs fs' : FileSystem κ α}

/-- File systems that agree at some paths, and on how many calls were made. -/
structure Alike (here : κ → Prop) (fs fs' : FileSystem κ α) : Prop where
  at? : ∀ p, here p → fs.at? p = fs'.at? p
  calls : fs.calls = fs'.calls

/-- File systems that look alike do so after a call that failed in both. -/
theorem Alike.failed (h : Alike here fs fs') : Alike here fs.failed fs'.failed :=
  ⟨h.at?, congrArg (· + 1) h.calls⟩

/-- A call that looks fails in both, or in neither. -/
theorem Alike.look (h : Alike here fs fs') (faults : Nat → Bool) :
    (fs.look faults).1 = (fs'.look faults).1 ∧
      Alike here (fs.look faults).2 (fs'.look faults).2 := by
  refine ⟨?_, h.failed⟩
  show (!faults fs.calls) = !faults fs'.calls
  rw [h.calls]

theorem Alike.insert (h : Alike here fs fs') (p : κ) (a : α) :
    Alike here ⟨fs.files.insert p a, fs.calls + 1⟩ ⟨fs'.files.insert p a, fs'.calls + 1⟩ := by
  refine ⟨fun q hq => ?_, congrArg (· + 1) h.calls⟩
  by_cases hqp : q = p
  · subst hqp
    show (fs.files.insert q a).lookup q = (fs'.files.insert q a).lookup q
    rw [AList.lookup_insert, AList.lookup_insert]
  · exact (AList.lookup_insert_ne hqp).trans ((h.at? q hq).trans (AList.lookup_insert_ne hqp).symm)

theorem Alike.erase (h : Alike here fs fs') (p : κ) (calls : Nat) :
    Alike here ⟨fs.files.erase p, calls⟩ ⟨fs'.files.erase p, calls⟩ := by
  refine ⟨fun q hq => ?_, rfl⟩
  by_cases hqp : q = p
  · subst hqp
    show (fs.files.erase q).lookup q = (fs'.files.erase q).lookup q
    rw [AList.lookup_erase, AList.lookup_erase]
  · exact (AList.lookup_erase_ne hqp).trans ((h.at? q hq).trans (AList.lookup_erase_ne hqp).symm)

/-- What is written makes no difference between file systems that look alike. -/
theorem Alike.write (h : Alike here fs fs') (faults : Nat → Bool) (p : κ) (a : α) :
    (fs.write faults p a).1 = (fs'.write faults p a).1 ∧
      Alike here (fs.write faults p a).2 (fs'.write faults p a).2 := by
  unfold FileSystem.write
  rw [← h.calls]
  cases faults fs.calls with
  | true => exact ⟨rfl, h.failed⟩
  | false =>
    have hinsert := h.insert p a
    rw [← h.calls] at hinsert
    exact ⟨rfl, hinsert⟩

/-- A file of the paths that look alike is removed in both, or in neither. -/
theorem Alike.unlink (h : Alike here fs fs') (faults : Nat → Bool) (p : κ) (hp : here p) :
    (fs.unlink faults p).1 = (fs'.unlink faults p).1 ∧
      Alike here (fs.unlink faults p).2 (fs'.unlink faults p).2 := by
  have hlookup : fs.files.lookup p = fs'.files.lookup p := h.at? p hp
  unfold FileSystem.unlink
  rw [← h.calls, ← hlookup]
  cases faults fs.calls with
  | true => exact ⟨rfl, h.failed⟩
  | false =>
    cases fs.files.lookup p with
    | none => exact ⟨rfl, h.failed⟩
    | some a => exact ⟨rfl, h.erase p _⟩

/-- A file of the paths that look alike is moved in both, or in neither. -/
theorem Alike.replace (h : Alike here fs fs') (faults : Nat → Bool) (src dst : κ)
    (hsrc : here src) : (fs.replace faults src dst).1 = (fs'.replace faults src dst).1 ∧
      Alike here (fs.replace faults src dst).2 (fs'.replace faults src dst).2 := by
  have hlookup : fs.files.lookup src = fs'.files.lookup src := h.at? src hsrc
  unfold FileSystem.replace
  rw [← h.calls, ← hlookup]
  cases faults fs.calls with
  | true => exact ⟨rfl, h.failed⟩
  | false =>
    cases fs.files.lookup src with
    | none => exact ⟨rfl, h.failed⟩
    | some a => exact ⟨rfl, (h.erase src fs.calls).insert dst a⟩

/-- What is removed from both makes no difference between them. -/
theorem Alike.without (h : Alike here fs fs') (gone : κ → Bool) :
    Alike here (fs.without gone) (fs'.without gone) := by
  refine ⟨fun p hp => ?_, h.calls⟩
  rw [at?_without, at?_without, h.at? p hp]

end

end FileSystem

end Lib
