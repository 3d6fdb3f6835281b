import Mathlib.Data.List.Induction
import Mathlib.Order.Nat
import MissionCompiler.Lib.Disk
import MissionCompiler.Names.Stable

/-!
# Writing by renaming

`atomic_write`, any number of calls of it at once in one directory, each call of the system in a
step of its own that can fail. Under the names that are not the temporary ones, the directory shows
what the calls that returned have put there whole, one after another: also where a link was planted,
and also after the power was lost.
-/

namespace MissionCompiler.Publish

open Lib Names

/-! ## The calls -/

/-- The arguments of `atomic_write`, as a name in the directory and a text. -/
structure AtomicWrite where
  name : String
  text : List Char

/-- The name `mkstemp` makes: `f".{path.name}."`, what it draws, and `".tmp"`. -/
def temporaryName (name drawn : String) : String := "." ++ name ++ "." ++ drawn ++ ".tmp"

/-- Names that begin with a dot, which the temporary ones do. -/
def isHidden (name : String) : Bool := name.toList.head? == some '.'

/-- Where a call of `atomic_write` is. -/
inductive WritePhase where
  | begins
  | writing (tmp : String) (inode : Nat) (rest : List Char)
  | synced (tmp : String) (inode : Nat)
  | moded (tmp : String) (inode : Nat)
  | failing (tmp : String) (inode : Nat)
  | returned
  | raised
deriving DecidableEq

/-- The temporary file of a call, while it has one. -/
def WritePhase.temporary : WritePhase → Option (String × Nat)
  | .writing tmp n _ => some (tmp, n)
  | .synced tmp n => some (tmp, n)
  | .moded tmp n => some (tmp, n)
  | .failing tmp n => some (tmp, n)
  | _ => none

theorem WritePhase.ne_returned {phase : WritePhase} {file : String × Nat}
    (h : phase.temporary = some file) : phase ≠ .returned := by
  rintro rfl
  cases h

/-- The directory, the calls, and for the record which of them have renamed their file, and the
directories there were. -/
structure Writes (ι : Type) where
  disk : Disk
  phase : ι → WritePhase
  log : List (ι × Nat)
  past : List Disk

section

variable {ι : Type} [DecidableEq ι]

/-- A call goes on, with a change of the directory. -/
def Writes.go (s : Writes ι) (i : ι) (disk : Disk) (phase : WritePhase) : Writes ι where
  disk := disk
  phase := Function.update s.phase i phase
  log := s.log
  past := s.past ++ [s.disk]

variable (calls : ι → AtomicWrite) (defaultMode : Nat)

/-- A step of a call. The text goes out in pieces of any size, and every call of the system can
fail, the last of them also because the name is a directory. -/
inductive WriteStep (s : Writes ι) (i : ι) : Writes ι → Prop
  | makes {drawn : String} (here : s.phase i = .begins)
      (fresh : s.disk.entries (temporaryName (calls i).name drawn) = none) :
      WriteStep s i (s.go i (s.disk.create (temporaryName (calls i).name drawn) 0o600)
        (.writing (temporaryName (calls i).name drawn) s.disk.next (calls i).text))
  | cannotMake (here : s.phase i = .begins) : WriteStep s i (s.go i s.disk .raised)
  | writes {tmp : String} {n : Nat} {piece rest : List Char}
      (here : s.phase i = .writing tmp n (piece ++ rest)) :
      WriteStep s i (s.go i (s.disk.append n piece) (.writing tmp n rest))
  | syncs {tmp : String} {n : Nat} (here : s.phase i = .writing tmp n []) :
      WriteStep s i (s.go i (s.disk.sync n) (.synced tmp n))
  | modes {tmp : String} {n : Nat} (here : s.phase i = .synced tmp n) :
      WriteStep s i (s.go i (s.disk.chmod n defaultMode) (.moded tmp n))
  | renames {tmp : String} {n : Nat} (here : s.phase i = .moded tmp n)
      (can : s.disk.entries (calls i).name ≠ some .directory) :
      WriteStep s i { s.go i (s.disk.rename tmp (calls i).name) .returned with
        log := s.log ++ [(i, n)] }
  | fails {tmp : String} {n : Nat} (here : (s.phase i).temporary = some (tmp, n))
      (not_yet : s.phase i ≠ .failing tmp n) : WriteStep s i (s.go i s.disk (.failing tmp n))
  | unlinks {tmp : String} {n : Nat} (here : s.phase i = .failing tmp n) :
      WriteStep s i (s.go i (s.disk.unlink tmp) .raised)
  | cannotUnlink {tmp : String} {n : Nat} (here : s.phase i = .failing tmp n) :
      WriteStep s i (s.go i s.disk .raised)

/-- What the calls can come to, over a directory. -/
inductive WritesReach (disk : Disk) : Writes ι → Prop
  | start : WritesReach disk ⟨disk, fun _ => .begins, [], []⟩
  | step {s t : Writes ι} {i : ι} (reached : WritesReach disk s)
      (step : WriteStep calls defaultMode s i t) : WritesReach disk t

/-- The names after calls that took effect whole, one after another. -/
def entriesAfter (entries : String → Option DirEntry) (log : List (ι × Nat)) :
    String → Option DirEntry :=
  log.foldl (fun entries e => Function.update entries (calls e.1).name (some (.file e.2))) entries

end

/-! ## The invariant -/

section

variable {ι : Type} [DecidableEq ι] {calls : ι → AtomicWrite} {defaultMode : Nat} {disk : Disk}
  {s t : Writes ι} {i : ι}

theorem isHidden_temporaryName (name drawn : String) :
    isHidden (temporaryName name drawn) = true := by
  simp [isHidden, temporaryName]

omit [DecidableEq ι] in
theorem entriesAfter_append (entries : String → Option DirEntry) (log : List (ι × Nat))
    (e : ι × Nat) : entriesAfter calls entries (log ++ [e]) =
      Function.update (entriesAfter calls entries log) (calls e.1).name (some (.file e.2)) := by
  rw [entriesAfter, List.foldl_append]
  rfl

omit [DecidableEq ι] in
/-- A name shows the file of a call for it, or what it showed. -/
theorem entriesAfter_cases (entries : String → Option DirEntry) (log : List (ι × Nat))
    (name : String) : entriesAfter calls entries log name = entries name ∨
      ∃ e ∈ log, (calls e.1).name = name ∧
        entriesAfter calls entries log name = some (.file e.2) := by
  induction log using List.reverseRecOn with
  | nil => exact .inl rfl
  | append_singleton log e ih =>
    rw [entriesAfter_append]
    by_cases hname : name = (calls e.1).name
    · subst hname
      exact .inr ⟨e, by simp, rfl, Function.update_self ..⟩
    · rw [Function.update_of_ne hname]
      rcases ih with hsame | ⟨e', he', hname', hfile⟩
      · exact .inl hsame
      · exact .inr ⟨e', List.mem_append_left _ he', hname', hfile⟩

/-- What a call has written of its text, and what of it is on the disk. -/
def Written (defaultMode : Nat) (call : AtomicWrite) (node : FileNode) : WritePhase → Prop
  | .writing _ _ rest => node.text ++ rest = call.text
  | .synced _ _ => node.text = call.text ∧ node.synced = true
  | .moded _ _ => node.text = call.text ∧ node.synced = true ∧ node.mode = defaultMode
  | _ => True

/-- The temporary files belong to one call each, and the inodes that were renamed are whole. -/
structure Sound (calls : ι → AtomicWrite) (defaultMode : Nat) (disk : Disk) (s : Writes ι) :
    Prop where
  onward : disk.next ≤ s.disk.next
  old : ∀ n < disk.next, s.disk.nodes n = disk.nodes n
  mine : ∀ i tmp n, (s.phase i).temporary = some (tmp, n) → disk.next ≤ n ∧ n < s.disk.next ∧
    isHidden tmp = true ∧ s.disk.entries tmp = some (.file n) ∧
      Written defaultMode (calls i) (s.disk.nodes n) (s.phase i)
  apart : ∀ i j tmp n tmp' n', (s.phase i).temporary = some (tmp, n) →
    (s.phase j).temporary = some (tmp', n') → i ≠ j → tmp ≠ tmp' ∧ n ≠ n'
  shown : ∀ name, isHidden name = false →
    s.disk.entries name = entriesAfter calls disk.entries s.log name
  whole : ∀ e ∈ s.log, disk.next ≤ e.2 ∧ e.2 < s.disk.next ∧
    (s.disk.nodes e.2).text = (calls e.1).text ∧ (s.disk.nodes e.2).synced = true ∧
      (s.disk.nodes e.2).mode = defaultMode ∧
        ∀ i tmp n, (s.phase i).temporary = some (tmp, n) → n ≠ e.2
  logged : ∀ i, s.phase i = .returned ↔ ∃ n, (i, n) ∈ s.log
  past : ∀ p ∈ s.past ++ [s.disk], ∃ log, log <+: s.log ∧
    ∀ name, isHidden name = false → p.entries name = entriesAfter calls disk.entries log name

omit [DecidableEq ι] in
theorem Sound.start : Sound calls defaultMode disk ⟨disk, fun _ => .begins, [], []⟩ where
  onward := le_rfl
  old _ _ := rfl
  mine _ _ _ h := by cases h
  apart _ _ _ _ _ _ h := by cases h
  shown _ _ := rfl
  whole _ he := absurd he List.not_mem_nil
  logged _ := by simp
  past p hp := by
    obtain rfl := List.mem_singleton.mp hp
    exact ⟨[], List.prefix_rfl, fun _ _ => rfl⟩

/-- A call goes on, and has not renamed its file. -/
theorem Sound.go (h : Sound calls defaultMode disk s) {d : Disk} {phase : WritePhase}
    (hbefore : s.phase i ≠ .returned) (hafter : phase ≠ .returned)
    (onward : s.disk.next ≤ d.next) (old : ∀ n < disk.next, d.nodes n = s.disk.nodes n)
    (mine : ∀ tmp n, phase.temporary = some (tmp, n) → disk.next ≤ n ∧ n < d.next ∧
      isHidden tmp = true ∧ d.entries tmp = some (.file n) ∧
        Written defaultMode (calls i) (d.nodes n) phase)
    (others : ∀ j tmp n, j ≠ i → (s.phase j).temporary = some (tmp, n) →
      d.entries tmp = some (.file n) ∧ d.nodes n = s.disk.nodes n)
    (apart : ∀ j tmp n tmp' n', j ≠ i → (s.phase j).temporary = some (tmp, n) →
      phase.temporary = some (tmp', n') → tmp ≠ tmp' ∧ n ≠ n')
    (shown : ∀ name, isHidden name = false → d.entries name = s.disk.entries name)
    (whole : ∀ e ∈ s.log, d.nodes e.2 = s.disk.nodes e.2 ∧
      ∀ tmp n, phase.temporary = some (tmp, n) → n ≠ e.2) :
    Sound calls defaultMode disk (s.go i d phase) := by
  have hself : (s.go i d phase).phase i = phase := Function.update_self ..
  have hother : ∀ j, j ≠ i → (s.go i d phase).phase j = s.phase j :=
    fun j hj => Function.update_of_ne hj ..
  refine ⟨h.onward.trans onward, fun n hn => (old n hn).trans (h.old n hn), ?_, ?_,
    fun name hname => (shown name hname).trans (h.shown name hname), ?_, ?_, ?_⟩
  · intro j tmp n hj
    by_cases hji : j = i
    · subst hji
      rw [hself] at hj ⊢
      exact mine tmp n hj
    · rw [hother j hji] at hj ⊢
      obtain ⟨hle, hlt, hhidden, -, hwritten⟩ := h.mine j tmp n hj
      obtain ⟨hentry, hnode⟩ := others j tmp n hji hj
      have hwritten : Written defaultMode (calls j) (d.nodes n) (s.phase j) := by
        rw [hnode]
        exact hwritten
      exact ⟨hle, hlt.trans_le onward, hhidden, hentry, hwritten⟩
  · intro j k tmp n tmp' n' hj hk hjk
    by_cases hji : j = i
    · subst hji
      rw [hself] at hj
      rw [hother k hjk.symm] at hk
      obtain ⟨htmp, hn⟩ := apart k tmp' n' tmp n hjk.symm hk hj
      exact ⟨htmp.symm, hn.symm⟩
    · rw [hother j hji] at hj
      by_cases hki : k = i
      · subst hki
        rw [hself] at hk
        exact apart j tmp n tmp' n' hji hj hk
      · rw [hother k hki] at hk
        exact h.apart j k tmp n tmp' n' hj hk hjk
  · intro e he
    obtain ⟨hle, hlt, htext, hsynced, hmode, hmine⟩ := h.whole e he
    obtain ⟨hnode, hnew⟩ := whole e he
    have hnode : (s.go i d phase).disk.nodes e.2 = s.disk.nodes e.2 := hnode
    rw [hnode]
    refine ⟨hle, hlt.trans_le onward, htext, hsynced, hmode, fun j tmp n hj => ?_⟩
    by_cases hji : j = i
    · subst hji
      rw [hself] at hj
      exact hnew tmp n hj
    · rw [hother j hji] at hj
      exact hmine j tmp n hj
  · intro j
    by_cases hji : j = i
    · subst hji
      rw [hself]
      exact iff_of_false hafter fun hlogged => hbefore ((h.logged j).mpr hlogged)
    · rw [hother j hji]
      exact h.logged j
  · intro p hp
    rcases List.mem_append.mp hp with hp | hp
    · exact h.past p hp
    · obtain rfl := List.mem_singleton.mp hp
      exact ⟨s.log, List.prefix_rfl, fun name hname =>
        (shown name hname).trans (h.shown name hname)⟩

/-- A call works on its temporary file. -/
theorem Sound.modify (h : Sound calls defaultMode disk s) {tmp : String} {n : Nat}
    {phase : WritePhase} {change : FileNode → FileNode}
    (here : (s.phase i).temporary = some (tmp, n))
    (there : phase.temporary = some (tmp, n))
    (written : Written defaultMode (calls i) (change (s.disk.nodes n)) phase) :
    Sound calls defaultMode disk (s.go i (s.disk.modify n change) phase) := by
  obtain ⟨hle, hlt, hhidden, hentry, -⟩ := h.mine i tmp n here
  have hself : (s.disk.modify n change).nodes n = change (s.disk.nodes n) :=
    Function.update_self ..
  have hother : ∀ m, m ≠ n → (s.disk.modify n change).nodes m = s.disk.nodes m :=
    fun m hm => Function.update_of_ne hm ..
  refine h.go (WritePhase.ne_returned here) (WritePhase.ne_returned there) le_rfl
    (fun m hm => hother m (hm.trans_le hle).ne) (fun tmp' n' hnew => ?_)
      (fun j tmp' n' hj hold => ?_) (fun j tmp' n' tmp'' n'' hj hold hnew => ?_)
        (fun _ _ => rfl) fun e he => ⟨?_, fun tmp' n' hnew => ?_⟩
  · rw [there] at hnew
    obtain ⟨rfl, rfl⟩ := Prod.mk.inj (Option.some.inj hnew)
    rw [hself]
    exact ⟨hle, hlt, hhidden, hentry, written⟩
  · exact ⟨(h.mine j tmp' n' hold).2.2.2.1,
      hother n' (h.apart j i tmp' n' tmp n hold here hj).2⟩
  · rw [there] at hnew
    obtain ⟨rfl, rfl⟩ := Prod.mk.inj (Option.some.inj hnew)
    exact h.apart j i tmp' n' tmp n hold here hj
  · exact hother e.2 ((h.whole e he).2.2.2.2.2 i tmp n here).symm
  · rw [there] at hnew
    obtain ⟨rfl, rfl⟩ := Prod.mk.inj (Option.some.inj hnew)
    exact (h.whole e he).2.2.2.2.2 i tmp n here

/-- A call ends without having renamed its file, whatever becomes of its temporary one. -/
theorem Sound.raise (h : Sound calls defaultMode disk s) {d : Disk} (here : s.phase i ≠ .returned)
    (hnext : d.next = s.disk.next) (hnodes : d.nodes = s.disk.nodes)
    (hentries : ∀ name, (isHidden name = false ∨ ∃ j n, j ≠ i ∧
      (s.phase j).temporary = some (name, n)) → d.entries name = s.disk.entries name) :
    Sound calls defaultMode disk (s.go i d .raised) := by
  refine h.go here (fun heq => by cases heq) hnext.ge (fun m _ => congrFun hnodes m)
    (fun _ _ hnew => by cases hnew) (fun j tmp n hj hold => ⟨?_, congrFun hnodes n⟩)
      (fun _ _ _ _ _ _ _ hnew => by cases hnew) (fun name hname => hentries name (.inl hname))
        fun e he => ⟨congrFun hnodes e.2, fun _ _ hnew => by cases hnew⟩
  rw [hentries tmp (.inr ⟨j, n, hj, hold⟩)]
  exact (h.mine j tmp n hold).2.2.2.1

/-- A call makes its temporary file under a name that is not in use. -/
theorem Sound.make (h : Sound calls defaultMode disk s) {tmp : String} {mode : Nat}
    (here : s.phase i = .begins) (hidden : isHidden tmp = true)
    (fresh : s.disk.entries tmp = none) : Sound calls defaultMode disk
      (s.go i (s.disk.create tmp mode) (.writing tmp s.disk.next (calls i).text)) := by
  have hnone : (s.phase i).temporary = none := by rw [here]; rfl
  have hnode : ∀ n, n < s.disk.next → (s.disk.create tmp mode).nodes n = s.disk.nodes n :=
    fun n hn => Function.update_of_ne hn.ne ..
  have hentry : ∀ name, name ≠ tmp →
      (s.disk.create tmp mode).entries name = s.disk.entries name :=
    fun name hname => Function.update_of_ne hname ..
  have htaken : ∀ {j tmp' n}, (s.phase j).temporary = some (tmp', n) → tmp' ≠ tmp := by
    rintro j tmp' n hold rfl
    have hthere := (h.mine j tmp' n hold).2.2.2.1
    rw [fresh] at hthere
    cases hthere
  refine h.go (by rw [here]; rintro ⟨⟩) (by rintro ⟨⟩) (Nat.le_succ _)
    (fun n hn => hnode n (hn.trans_le h.onward)) (fun tmp' n hnew => ?_)
      (fun j tmp' n _ hold => ?_) (fun j tmp' n tmp'' n' _ hold hnew => ?_) (fun name hname => ?_)
        fun e he => ⟨hnode e.2 (h.whole e he).2.1, fun tmp' n hnew => ?_⟩
  · obtain ⟨rfl, rfl⟩ := Prod.mk.inj (Option.some.inj hnew)
    refine ⟨h.onward, Nat.lt_succ_self _, hidden, Function.update_self .., ?_⟩
    show ((s.disk.create tmp mode).nodes s.disk.next).text ++ _ = _
    rw [show (s.disk.create tmp mode).nodes s.disk.next = ⟨[], mode, false⟩ from
      Function.update_self ..]
    rfl
  · obtain ⟨-, hlt, -, hthere, -⟩ := h.mine j tmp' n hold
    exact ⟨(hentry tmp' (htaken hold)).trans hthere, hnode n hlt⟩
  · obtain ⟨rfl, rfl⟩ := Prod.mk.inj (Option.some.inj hnew)
    exact ⟨htaken hold, (h.mine j tmp' n hold).2.1.ne⟩
  · refine hentry name ?_
    rintro rfl
    rw [hidden] at hname
    cases hname
  · obtain ⟨rfl, rfl⟩ := Prod.mk.inj (Option.some.inj hnew)
    exact (h.whole e he).2.1.ne'

/-- A call puts its file in place. -/
theorem Sound.rename (h : Sound calls defaultMode disk s) {tmp : String} {n : Nat}
    (hvisible : isHidden (calls i).name = false) (here : s.phase i = .moded tmp n) :
    Sound calls defaultMode disk { s.go i (s.disk.rename tmp (calls i).name) .returned with
      log := s.log ++ [(i, n)] } := by
  have htemporary : (s.phase i).temporary = some (tmp, n) := by rw [here]; rfl
  obtain ⟨hle, hlt, hhidden, hentry, hwritten⟩ := h.mine i tmp n htemporary
  rw [here] at hwritten
  obtain ⟨htext, hsynced, hmode⟩ := hwritten
  let t : Writes ι := { s.go i (s.disk.rename tmp (calls i).name) .returned with
    log := s.log ++ [(i, n)] }
  have hself : t.phase i = .returned := Function.update_self ..
  have hother : ∀ j, j ≠ i → t.phase j = s.phase j := fun j hj => Function.update_of_ne hj ..
  have hsame : ∀ name, name ≠ (calls i).name → name ≠ tmp →
      t.disk.entries name = s.disk.entries name := fun name hname htmp => by
    show Function.update (Function.update s.disk.entries tmp none) _ _ name = _
    rw [Function.update_of_ne hname, Function.update_of_ne htmp]
  have hshown : ∀ name, isHidden name = false →
      t.disk.entries name = entriesAfter calls disk.entries t.log name := by
    intro name hname
    show _ = entriesAfter calls disk.entries (s.log ++ [(i, n)]) name
    rw [entriesAfter_append]
    by_cases heq : name = (calls i).name
    · subst heq
      rw [Function.update_self]
      exact (Function.update_self ..).trans hentry
    · rw [Function.update_of_ne heq, ← h.shown name hname]
      refine hsame name heq ?_
      rintro rfl
      rw [hhidden] at hname
      cases hname
  refine ⟨h.onward, h.old, ?_, ?_, hshown, ?_, ?_, ?_⟩
  · intro j tmp' n' hj
    have hji : j ≠ i := by
      rintro rfl
      rw [hself] at hj
      cases hj
    rw [hother j hji] at hj ⊢
    obtain ⟨hle', hlt', hhidden', hentry', hwritten'⟩ := h.mine j tmp' n' hj
    refine ⟨hle', hlt', hhidden', ?_, hwritten'⟩
    rw [hsame tmp' ?_ (h.apart j i tmp' n' tmp n hj htemporary hji).1]
    · exact hentry'
    · rintro rfl
      rw [hvisible] at hhidden'
      cases hhidden'
  · intro j k tmp' n' tmp'' n'' hj hk hjk
    have hji : j ≠ i := by
      rintro rfl
      rw [hself] at hj
      cases hj
    have hki : k ≠ i := by
      rintro rfl
      rw [hself] at hk
      cases hk
    rw [hother j hji] at hj
    rw [hother k hki] at hk
    exact h.apart j k tmp' n' tmp'' n'' hj hk hjk
  · intro e he
    rcases List.mem_append.mp he with he | he
    · obtain ⟨hle', hlt', htext', hsynced', hmode', hmine'⟩ := h.whole e he
      refine ⟨hle', hlt', htext', hsynced', hmode', fun j tmp' n' hj => ?_⟩
      have hji : j ≠ i := by
        rintro rfl
        rw [hself] at hj
        cases hj
      rw [hother j hji] at hj
      exact hmine' j tmp' n' hj
    · obtain rfl := List.mem_singleton.mp he
      refine ⟨hle, hlt, htext, hsynced, hmode, fun j tmp' n' hj => ?_⟩
      have hji : j ≠ i := by
        rintro rfl
        rw [hself] at hj
        cases hj
      rw [hother j hji] at hj
      exact (h.apart j i tmp' n' tmp n hj htemporary hji).2
  · intro j
    by_cases hji : j = i
    · subst hji
      exact iff_of_true hself ⟨n, List.mem_append_right _ (List.mem_singleton_self _)⟩
    · rw [hother j hji, h.logged j]
      refine exists_congr fun m => ?_
      rw [List.mem_append, List.mem_singleton, Prod.mk.injEq]
      simp [hji]
  · intro p hp
    rcases List.mem_append.mp hp with hp | hp
    · obtain ⟨log, hprefix, hentries⟩ := h.past p hp
      exact ⟨log, hprefix.trans (List.prefix_append ..), hentries⟩
    · obtain rfl := List.mem_singleton.mp hp
      exact ⟨_, List.prefix_rfl, hshown⟩

/-- What one step keeps. -/
theorem Sound.step (h : Sound calls defaultMode disk s)
    (hvisible : ∀ i, isHidden (calls i).name = false)
    (step : WriteStep calls defaultMode s i t) : Sound calls defaultMode disk t := by
  cases step with
  | makes here fresh => exact h.make here (isHidden_temporaryName ..) fresh
  | cannotMake here =>
    exact h.raise (by rw [here]; rintro ⟨⟩) rfl rfl fun _ _ => rfl
  | @writes tmp n piece rest here =>
    have hmine := (h.mine i tmp n (by rw [here]; rfl)).2.2.2.2
    rw [here] at hmine
    refine h.modify (by rw [here]; rfl) rfl ?_
    show (_ ++ piece) ++ rest = _
    rw [List.append_assoc]
    exact hmine
  | @syncs tmp n here =>
    have hmine := (h.mine i tmp n (by rw [here]; rfl)).2.2.2.2
    rw [here] at hmine
    have hmine : (s.disk.nodes n).text ++ [] = (calls i).text := hmine
    rw [List.append_nil] at hmine
    exact h.modify (by rw [here]; rfl) rfl ⟨hmine, rfl⟩
  | @modes tmp n here =>
    have hmine := (h.mine i tmp n (by rw [here]; rfl)).2.2.2.2
    rw [here] at hmine
    exact h.modify (by rw [here]; rfl) rfl ⟨hmine.1, hmine.2, rfl⟩
  | renames here can => exact h.rename (hvisible i) here
  | @fails tmp n here not_yet =>
    obtain ⟨hle, hlt, hhidden, hentry, -⟩ := h.mine i tmp n here
    refine h.go (WritePhase.ne_returned here) (by rintro ⟨⟩) le_rfl (fun _ _ => rfl)
      (fun tmp' n' hnew => ?_)
        (fun j tmp' n' _ hold => ⟨(h.mine j tmp' n' hold).2.2.2.1, rfl⟩)
          (fun j tmp' n' tmp'' n'' hj hold hnew => ?_) (fun _ _ => rfl)
            fun e he => ⟨rfl, fun tmp' n' hnew => ?_⟩
    · obtain ⟨rfl, rfl⟩ := Prod.mk.inj (Option.some.inj hnew)
      exact ⟨hle, hlt, hhidden, hentry, trivial⟩
    · obtain ⟨rfl, rfl⟩ := Prod.mk.inj (Option.some.inj hnew)
      exact h.apart j i tmp' n' tmp n hold here hj
    · obtain ⟨rfl, rfl⟩ := Prod.mk.inj (Option.some.inj hnew)
      exact (h.whole e he).2.2.2.2.2 i tmp n here
  | @unlinks tmp n here =>
    have htemporary : (s.phase i).temporary = some (tmp, n) := by rw [here]; rfl
    refine h.raise (by rw [here]; rintro ⟨⟩) rfl rfl fun name hname => ?_
    refine Function.update_of_ne ?_ ..
    rintro rfl
    rcases hname with hname | ⟨j, m, hj, hold⟩
    · rw [(h.mine i name n htemporary).2.2.1] at hname
      cases hname
    · exact (h.apart j i name m name n hold htemporary hj).1 rfl
  | cannotUnlink here => exact h.raise (by rw [here]; rintro ⟨⟩) rfl rfl fun _ _ => rfl

theorem WritesReach.sound (hvisible : ∀ i, isHidden (calls i).name = false)
    (h : WritesReach calls defaultMode disk s) : Sound calls defaultMode disk s := by
  induction h with
  | start => exact .start
  | step _ step ih => exact ih.step hvisible step

/-! ## The temporary files -/

/-- Hidden names that were there stay as they are, and the others belong to a call that has not
ended, or to one that raised. -/
structure Tidy (disk : Disk) (s : Writes ι) : Prop where
  kept : ∀ name, isHidden name = true → disk.entries name ≠ none →
    s.disk.entries name = disk.entries name
  fresh : ∀ i tmp n, (s.phase i).temporary = some (tmp, n) → disk.entries tmp = none
  litter : ∀ name, isHidden name = true → disk.entries name = none →
    s.disk.entries name ≠ none →
      (∃ i n, (s.phase i).temporary = some (name, n)) ∨ ∃ i, s.phase i = .raised

omit [DecidableEq ι] in
theorem Tidy.start : Tidy disk (⟨disk, fun _ => .begins, [], []⟩ : Writes ι) where
  kept _ _ _ := rfl
  fresh _ _ _ hj := by cases hj
  litter _ _ hnot hthere := absurd hnot hthere

/-- A call that keeps its temporary file, and leaves the directory alone. -/
theorem Tidy.stay (h : Tidy disk s) {d : Disk} {phase : WritePhase}
    (hentries : d.entries = s.disk.entries) (hsame : phase.temporary = (s.phase i).temporary)
    (hraised : s.phase i ≠ .raised) : Tidy disk (s.go i d phase) := by
  have htemporary : ∀ j, ((s.go i d phase).phase j).temporary = (s.phase j).temporary := by
    intro j
    by_cases hji : j = i
    · subst hji
      rw [show (s.go j d phase).phase j = phase from Function.update_self ..]
      exact hsame
    · rw [show (s.go i d phase).phase j = s.phase j from Function.update_of_ne hji ..]
  refine ⟨fun name hname hthere => ?_, fun j tmp n hj => ?_, fun name hname hnot hthere => ?_⟩
  · exact (congrFun hentries name).trans (h.kept name hname hthere)
  · rw [htemporary] at hj
    exact h.fresh j tmp n hj
  · have hthere : d.entries name ≠ none := hthere
    rw [hentries] at hthere
    rcases h.litter name hname hnot hthere with ⟨j, n, hj⟩ | ⟨j, hj⟩
    · exact .inl ⟨j, n, (htemporary j).trans hj⟩
    · have hji : j ≠ i := by
        rintro rfl
        exact hraised hj
      exact .inr ⟨j, (Function.update_of_ne hji ..).trans hj⟩

/-- A call that raises. -/
theorem Tidy.raise (h : Tidy disk s) {d : Disk}
    (hentries : ∀ name, disk.entries name ≠ none → d.entries name = s.disk.entries name) :
    Tidy disk (s.go i d .raised) := by
  refine ⟨fun name hname hthere => ?_, fun j tmp n hj => ?_, fun _ _ _ _ => .inr ⟨i, ?_⟩⟩
  · exact (hentries name hthere).trans (h.kept name hname hthere)
  · by_cases hji : j = i
    · subst hji
      rw [show (s.go j d .raised).phase j = .raised from Function.update_self ..] at hj
      cases hj
    · rw [show (s.go i d .raised).phase j = s.phase j from Function.update_of_ne hji ..] at hj
      exact h.fresh j tmp n hj
  · exact Function.update_self ..

theorem Tidy.step (h : Tidy disk s) (hvisible : ∀ i, isHidden (calls i).name = false)
    (step : WriteStep calls defaultMode s i t) : Tidy disk t := by
  cases step with
  | @makes drawn here fresh =>
    have hnew : disk.entries (temporaryName (calls i).name drawn) = none := by
      by_contra hthere
      have hkept := h.kept _ (isHidden_temporaryName ..) hthere
      rw [fresh] at hkept
      exact hthere hkept.symm
    have hother : ∀ j, j ≠ i → ∀ d phase, (s.go i d phase).phase j = s.phase j :=
      fun j hj d phase => Function.update_of_ne hj ..
    refine ⟨fun name hname hthere => ?_, fun j tmp n hj => ?_, fun name hname hnot hthere => ?_⟩
    · refine (Function.update_of_ne ?_ ..).trans (h.kept name hname hthere)
      rintro rfl
      exact hthere hnew
    · by_cases hji : j = i
      · subst hji
        rw [show (s.go j _ _).phase j = _ from Function.update_self ..] at hj
        rw [← (Prod.mk.inj (Option.some.inj hj)).1]
        exact hnew
      · rw [hother j hji] at hj
        exact h.fresh j tmp n hj
    · by_cases hmine : name = temporaryName (calls i).name drawn
      · subst hmine
        refine .inl ⟨i, s.disk.next, ?_⟩
        rw [show (s.go i _ _).phase i = _ from Function.update_self ..]
        rfl
      · have hsame : (s.disk.create (temporaryName (calls i).name drawn) 0o600).entries name =
            s.disk.entries name := Function.update_of_ne hmine ..
        have hthere : (s.disk.create (temporaryName (calls i).name drawn) 0o600).entries name ≠
            none := hthere
        rw [hsame] at hthere
        rcases h.litter name hname hnot hthere with ⟨j, n, hj⟩ | ⟨j, hj⟩
        · have hji : j ≠ i := by
            rintro rfl
            rw [here] at hj
            cases hj
          exact .inl ⟨j, n, by rw [hother j hji]; exact hj⟩
        · have hji : j ≠ i := by
            rintro rfl
            rw [here] at hj
            cases hj
          exact .inr ⟨j, by rw [hother j hji]; exact hj⟩
  | cannotMake here => exact h.raise fun _ _ => rfl
  | writes here => exact h.stay rfl (by rw [here]; rfl) (by rw [here]; rintro ⟨⟩)
  | syncs here => exact h.stay rfl (by rw [here]; rfl) (by rw [here]; rintro ⟨⟩)
  | modes here => exact h.stay rfl (by rw [here]; rfl) (by rw [here]; rintro ⟨⟩)
  | fails here not_yet =>
    exact h.stay rfl here.symm fun heq => by rw [heq] at here; cases here
  | cannotUnlink here => exact h.raise fun _ _ => rfl
  | @unlinks tmp n here =>
    refine h.raise fun name hthere => Function.update_of_ne ?_ ..
    rintro rfl
    exact hthere (h.fresh i name n (by rw [here]; rfl))
  | @renames tmp n here can =>
    have hfresh := h.fresh i tmp n (by rw [here]; rfl)
    have hother : ∀ j, j ≠ i → ∀ d phase, (s.go i d phase).phase j = s.phase j :=
      fun j hj d phase => Function.update_of_ne hj ..
    have hself : ∀ d phase, (s.go i d phase).phase i = phase :=
      fun d phase => Function.update_self ..
    have hne : ∀ name, isHidden name = true → name ≠ (calls i).name := by
      rintro name hname rfl
      rw [hvisible] at hname
      cases hname
    have hsame : ∀ name, isHidden name = true → name ≠ tmp →
        (s.disk.rename tmp (calls i).name).entries name = s.disk.entries name :=
      fun name hname htmp => by
        show Function.update (Function.update s.disk.entries tmp none) _ _ name = _
        rw [Function.update_of_ne (hne name hname), Function.update_of_ne htmp]
    refine ⟨fun name hname hthere => ?_, fun j tmp' m hj => ?_, fun name hname hnot hthere => ?_⟩
    · refine (hsame name hname ?_).trans (h.kept name hname hthere)
      rintro rfl
      exact hthere hfresh
    · by_cases hji : j = i
      · subst hji
        have hj : ((s.go j (s.disk.rename tmp (calls j).name) .returned).phase j).temporary =
          some (tmp', m) := hj
        rw [hself] at hj
        cases hj
      · have hj : ((s.go i (s.disk.rename tmp (calls i).name) .returned).phase j).temporary =
          some (tmp', m) := hj
        rw [hother j hji] at hj
        exact h.fresh j tmp' m hj
    · have hthere : (s.disk.rename tmp (calls i).name).entries name ≠ none := hthere
      have htmp : name ≠ tmp := by
        rintro rfl
        refine hthere ?_
        show Function.update (Function.update s.disk.entries name none) _ _ name = none
        rw [Function.update_of_ne (hne name hname), Function.update_self]
      rw [hsame name hname htmp] at hthere
      rcases h.litter name hname hnot hthere with ⟨j, m, hj⟩ | ⟨j, hj⟩
      · have hji : j ≠ i := by
          rintro rfl
          rw [here] at hj
          exact htmp (Prod.mk.inj (Option.some.inj hj)).1.symm
        have hphase := hother j hji (s.disk.rename tmp (calls i).name) .returned
        exact .inl ⟨j, m, (congrArg WritePhase.temporary hphase).trans hj⟩
      · have hji : j ≠ i := by
          rintro rfl
          rw [here] at hj
          cases hj
        exact .inr ⟨j, (hother j hji (s.disk.rename tmp (calls i).name) .returned).trans hj⟩

theorem WritesReach.tidy (hvisible : ∀ i, isHidden (calls i).name = false)
    (h : WritesReach calls defaultMode disk s) : Tidy disk s := by
  induction h with
  | start => exact .start
  | step _ step ih => exact ih.step hvisible step

/-! ## Whole or not at all -/

/-- Calls of `atomic_write` that came to whole files. -/
structure WholeFiles (calls : ι → AtomicWrite) (defaultMode : Nat) (disk : Disk) (s : Writes ι) :
    Prop where
  shown : ∀ name, isHidden name = false →
    s.disk.entries name = entriesAfter calls disk.entries s.log name
  whole : ∀ e ∈ s.log, (s.disk.nodes e.2).text = (calls e.1).text ∧
    (s.disk.nodes e.2).mode = defaultMode
  returned : ∀ i, s.phase i = .returned ↔ ∃ n, (i, n) ∈ s.log
  untouched : ∀ n < disk.next, s.disk.nodes n = disk.nodes n
  survives : ∀ d, Disk.AfterPowerLoss s.past s.disk d → ∀ name, isHidden name = false →
    d.entries name = disk.entries name ∨ ∃ e ∈ s.log, (calls e.1).name = name ∧
      d.entries name = some (.file e.2) ∧ (d.nodes e.2).text = (calls e.1).text
  tidy : (∀ i, s.phase i = .begins ∨ s.phase i = .returned) → ∀ name, isHidden name = true →
    s.disk.entries name = disk.entries name

/-- However the calls of `atomic_write` in a directory interleave, and whichever calls of the system
fail, each name shows what the calls that returned put there, whole and one after another; no file
that was there is written to, not even through a link; after a power failure each name shows what it
showed at first or the whole text of such a call; and calls that returned leave nothing else. -/
theorem atomic_writes (hvisible : ∀ i, isHidden (calls i).name = false)
    (h : WritesReach calls defaultMode disk s) : WholeFiles calls defaultMode disk s := by
  have hsound := h.sound hvisible
  have htidy := h.tidy hvisible
  refine ⟨hsound.shown, fun e he => ?_, hsound.logged, hsound.old, fun d hd name hname => ?_,
    fun hended name hname => ?_⟩
  · obtain ⟨-, -, htext, -, hmode, -⟩ := hsound.whole e he
    exact ⟨htext, hmode⟩
  · obtain ⟨p, hp, hentry⟩ := hd.entries name
    obtain ⟨log, hprefix, hentries⟩ := hsound.past p hp
    rw [hentry, hentries name hname]
    rcases entriesAfter_cases disk.entries log name with hsame | ⟨e, he, hmine, hfile⟩
    · exact .inl hsame
    · have hlogged : e ∈ s.log := hprefix.subset he
      obtain ⟨-, -, htext, hsynced, -, -⟩ := hsound.whole e hlogged
      exact .inr ⟨e, hlogged, hmine, hfile, (hd.texts e.2 hsynced).trans htext⟩
  · by_cases hthere : disk.entries name = none
    · by_contra hne
      rw [hthere] at hne
      rcases htidy.litter name hname hthere hne with ⟨i, n, hi⟩ | ⟨i, hi⟩
      · rcases hended i with hbegins | hreturned
        · rw [hbegins] at hi
          cases hi
        · rw [hreturned] at hi
          cases hi
      · rcases hended i with hbegins | hreturned
        · rw [hbegins] at hi
          cases hi
        · rw [hreturned] at hi
          cases hi
    · exact htidy.kept name hname hthere

end

/-- The files that are rendered begin with a sanitized name, so they are not hidden. -/
theorem isHidden_sanitized (name rest : String) {maxLen : Nat} (hlen : 4 ≤ maxLen) :
    isHidden (sanitizeK8sName name maxLen ++ rest) = false := by
  obtain ⟨ws, hws, heq, -⟩ := sanitizeK8sName_name name hlen
  obtain ⟨c, hfirst, halnum⟩ := hws.first
  have hhead : (sanitizeK8sName name maxLen ++ rest).toList.head? = some c := by
    rw [heq, nameOf, String.toList_append, String.toList_ofList, List.head?_append, hfirst]
    rfl
  rw [isHidden, hhead, beq_eq_false_iff_ne]
  rintro hdot
  obtain rfl := Option.some.inj hdot
  cases halnum

/-- The file of a workflow, where a link was planted. -/
def plantedName : String := sanitizeK8sName "Ship Detection" 63 ++ ".yaml"

def plantedDisk : Disk where
  entries name := if name = plantedName then some (.link "/etc/passwd") else none
  nodes _ := ⟨[], 0, true⟩
  next := 0

theorem atomic_writes_over_link : ∃ s : Writes Unit, s.phase () = .returned ∧
    s.disk.entries plantedName = some (.file 0) ∧
      WholeFiles (fun _ => ⟨plantedName, ['k']⟩) 0o644 plantedDisk s := by
  let calls : Unit → AtomicWrite := fun _ => ⟨plantedName, ['k']⟩
  have hstart : WritesReach calls 0o644 plantedDisk _ := .start
  have hmade := hstart.step (@WriteStep.makes _ _ calls 0o644 _ () "x1" rfl rfl)
  have hwritten := hmade.step (@WriteStep.writes _ _ calls 0o644 _ () _ _ ['k'] [] rfl)
  have hsynced := hwritten.step (@WriteStep.syncs _ _ calls 0o644 _ () _ _ rfl)
  have hmoded := hsynced.step (@WriteStep.modes _ _ calls 0o644 _ () _ _ rfl)
  have hrenamed := hmoded.step (@WriteStep.renames _ _ calls 0o644 _ () _ _ rfl (by rintro ⟨⟩))
  refine ⟨_, rfl, rfl, atomic_writes (fun _ => ?_) hrenamed⟩
  exact isHidden_sanitized "Ship Detection" ".yaml" (by omega)

end MissionCompiler.Publish
