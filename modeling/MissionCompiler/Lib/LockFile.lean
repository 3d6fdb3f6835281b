import Mathlib.Data.Nat.Bitwise
import Mathlib.Logic.Relation

/-!
# A lock that is a file

What a Unix kernel knows of a lock file: the path names an inode or nothing, an open file keeps its
inode whatever becomes of the path, and an advisory lock is on the inode. Whoever removes the path
and makes a file anew therefore parts those who lock it into two groups that do not exclude each
other. Who may remove it is said by the directory: its owner, the users its mode lets write there,
and where it is sticky of these only the owner of the file.
-/

namespace Lib

/-! ## The directory -/

/-- A directory, as far as it says who may change its entries. -/
structure LockDir (υ : Type) where
  owner : υ
  mode : Nat
  inGroup : υ → Bool

namespace LockDir

variable {υ : Type} [DecidableEq υ] (dir : LockDir υ) (u : υ)

def isSticky : Bool := dir.mode.testBit 9

/-- Write and search permission. The owner has them whatever the mode is, which is his to set. -/
def mayChange : Bool :=
  if u = dir.owner then true
  else if dir.inGroup u then dir.mode.testBit 4 && dir.mode.testBit 3
  else dir.mode.testBit 1 && dir.mode.testBit 0

/-- Whether a user may remove a file of some owner, or move another one over it. -/
def mayRemove (fileOwner : υ) : Bool :=
  dir.mayChange u && (!dir.isSticky || u = dir.owner || u = fileOwner)

@[simp] theorem mayChange_owner : dir.mayChange dir.owner = true := if_pos rfl

/-- Whoever may change a directory may remove what is his. -/
theorem mayRemove_self (h : dir.mayChange u = true) : dir.mayRemove u u = true := by
  simp [mayRemove, h]

/-- In a directory that only its owner may write, nobody else may change anything. -/
theorem eq_owner_of_mayChange (hgroup : dir.mode.testBit 4 = false)
    (hother : dir.mode.testBit 1 = false) (h : dir.mayChange u = true) : u = dir.owner := by
  by_contra hne
  simp [mayChange, hne, hgroup, hother] at h

end LockDir

/-! ## The file -/

/-- Who can hold a lock: a client, or somebody else who can open the file. -/
inductive LockHolder (ι : Type) where
  | client (i : ι)
  | stranger

structure Inode (ι υ : Type) where
  owner : υ
  regular : Bool
  mode : Nat
  holder : Option (LockHolder ι)

/-- The inode a path names, among all that it ever named. -/
structure LockFile (ι υ : Type) where
  entry : Option Nat
  inodes : List (Inode ι υ)
  entry_lt : ∀ n ∈ entry, n < inodes.length

namespace LockFile

variable {ι υ : Type} (f : LockFile ι υ)

def holder (n : Nat) : Option (LockHolder ι) := f.inodes[n]?.bind Inode.holder

/-- A path that names nothing yet. -/
def absent : LockFile ι υ where
  entry := none
  inodes := []
  entry_lt _ hn := by cases hn

/-- A new inode at the path. -/
def create (node : Inode ι υ) : LockFile ι υ where
  entry := some f.inodes.length
  inodes := f.inodes ++ [node]
  entry_lt n hn := by
    obtain rfl := Option.some.inj hn
    simp

def remove : LockFile ι υ where
  entry := none
  inodes := f.inodes
  entry_lt _ hn := by cases hn

def modify (n : Nat) (change : Inode ι υ → Inode ι υ) : LockFile ι υ where
  entry := f.entry
  inodes := f.inodes.modify n change
  entry_lt m hm := by
    rw [List.length_modify]
    exact f.entry_lt m hm

def setHolder (n : Nat) (holder : Option (LockHolder ι)) : LockFile ι υ :=
  f.modify n fun node => { node with holder := holder }

def chmod (n mode : Nat) : LockFile ι υ := f.modify n fun node => { node with mode := mode }

variable {f} {n m : Nat} {node : Inode ι υ} {x : Option (LockHolder ι)}

@[simp] theorem entry_create : (f.create node).entry = some f.inodes.length := rfl

@[simp] theorem entry_remove : f.remove.entry = none := rfl

@[simp] theorem entry_setHolder : (f.setHolder n x).entry = f.entry := rfl

@[simp] theorem entry_chmod : (f.chmod n m).entry = f.entry := rfl

@[simp] theorem inodes_remove : f.remove.inodes = f.inodes := rfl

@[simp] theorem holder_remove : f.remove.holder n = f.holder n := rfl

theorem holder_modify (change : Inode ι υ → Inode ι υ) :
    (f.modify n change).holder m =
      if n = m then (f.inodes[m]?.map change).bind Inode.holder else f.holder m := by
  show ((f.inodes.modify n change)[m]?).bind Inode.holder = _
  rw [List.getElem?_modify]
  split
  · rfl
  · rw [id_map']
    rfl

theorem holder_setHolder (hn : n < f.inodes.length) :
    (f.setHolder n x).holder m = if n = m then x else f.holder m := by
  rw [setHolder, holder_modify]
  split
  case isTrue h =>
    subst h
    rw [List.getElem?_eq_getElem hn]
    rfl
  case isFalse => rfl

@[simp] theorem holder_chmod (mode : Nat) : (f.chmod n mode).holder m = f.holder m := by
  rw [chmod, holder_modify]
  split
  · unfold holder
    cases f.inodes[m]? <;> rfl
  · rfl

theorem holder_create (hnode : node.holder = none) : (f.create node).holder m = f.holder m := by
  show ((f.inodes ++ [node])[m]?).bind Inode.holder = f.inodes[m]?.bind Inode.holder
  rw [List.getElem?_append]
  split
  case isTrue => rfl
  case isFalse h =>
    rw [List.getElem?_eq_none (Nat.le_of_not_lt h)]
    cases hm : m - f.inodes.length with
    | zero => exact hnode
    | succ k => rfl

/-- The owner of what the path names. -/
def OwnedBy (f : LockFile ι υ) (u : υ) : Prop :=
  ∃ n node, f.entry = some n ∧ f.inodes[n]? = some node ∧ node.owner = u

/-- What the path names has one owner. -/
theorem OwnedBy.unique {u v : υ} (hu : f.OwnedBy u) (hv : f.OwnedBy v) : u = v := by
  obtain ⟨n, node, hn, hnode, rfl⟩ := hu
  obtain ⟨m, node', hm, hnode', rfl⟩ := hv
  obtain rfl := Option.some.inj (hn.symm.trans hm)
  rw [Option.some.inj (hnode.symm.trans hnode')]

theorem ownedBy_create : (f.create node).OwnedBy node.owner :=
  ⟨_, node, rfl, by simp [create], rfl⟩

theorem ownedBy_modify {u : υ} (change : Inode ι υ → Inode ι υ)
    (howner : ∀ node, (change node).owner = node.owner) :
    (f.modify n change).OwnedBy u ↔ f.OwnedBy u := by
  have hinode : ∀ m node', (f.modify n change).inodes[m]? = some node' ↔
      ∃ node, f.inodes[m]? = some node ∧ (if n = m then change node else node) = node' := by
    intro m node'
    show (f.inodes.modify n change)[m]? = some node' ↔ _
    rw [List.getElem?_modify]
    exact Option.map_eq_some_iff
  constructor
  · rintro ⟨m, node', hm, hnode', rfl⟩
    obtain ⟨node, hnode, rfl⟩ := (hinode m node').mp hnode'
    refine ⟨m, node, hm, hnode, ?_⟩
    split
    · exact (howner node).symm
    · rfl
  · rintro ⟨m, node, hm, hnode, rfl⟩
    refine ⟨m, _, hm, (hinode m _).mpr ⟨node, hnode, rfl⟩, ?_⟩
    split
    · exact howner node
    · rfl

@[simp] theorem ownedBy_setHolder {u : υ} : (f.setHolder n x).OwnedBy u ↔ f.OwnedBy u :=
  ownedBy_modify _ fun _ => rfl

@[simp] theorem ownedBy_chmod {u : υ} {mode : Nat} :
    (f.chmod n mode).OwnedBy u ↔ f.OwnedBy u := ownedBy_modify _ fun _ => rfl

end LockFile

/-! ## Those who are not clients -/

section

variable {ι υ : Type} [DecidableEq υ] (dir : LockDir υ) (hostile : υ → Prop)

/-- What somebody else can do to a lock file. Any user who may change the directory can make the
file, and anybody may be able to lock it; only a hostile user removes it. -/
inductive Intrusion (f : LockFile ι υ) : LockFile ι υ → Prop
  | create {u : υ} {node : Inode ι υ} (absent : f.entry = none) (may : dir.mayChange u = true)
      (mine : node.owner = u) (unheld : node.holder = none) : Intrusion f (f.create node)
  | remove {u fileOwner : υ} (foe : hostile u) (owned : f.OwnedBy fileOwner)
      (may : dir.mayRemove u fileOwner = true) : Intrusion f f.remove
  | seize {n : Nat} (there : n < f.inodes.length) (free : f.holder n = none) :
      Intrusion f (f.setHolder n (some .stranger))
  | release {n : Nat} (there : n < f.inodes.length) (held : f.holder n = some .stranger) :
      Intrusion f (f.setHolder n none)

/-- A lock file that a hostile user can remove, or can make and then remove. -/
def Exposed (f : LockFile ι υ) : Prop :=
  ∃ u, hostile u ∧ dir.mayChange u = true ∧
    (dir.isSticky = false ∨ u = dir.owner ∨ f.entry = none ∨ f.OwnedBy u)

variable {dir hostile} {f f' : LockFile ι υ}

/-- Nobody hostile can remove a lock file that is not exposed. -/
theorem not_mayRemove (h : ¬ Exposed dir hostile f) {u fileOwner : υ} (hu : hostile u)
    (howned : f.OwnedBy fileOwner) : dir.mayRemove u fileOwner = false := by
  by_contra hmay
  simp only [LockDir.mayRemove, Bool.not_eq_false, Bool.and_eq_true, Bool.or_eq_true,
    Bool.not_eq_true', decide_eq_true_eq] at hmay
  obtain ⟨hchange, hwho⟩ := hmay
  refine h ⟨u, hu, hchange, ?_⟩
  rcases hwho with (hsticky | howner) | rfl
  · exact .inl hsticky
  · exact .inr (.inl howner)
  · exact .inr (.inr (.inr howned))

/-- Exposure is a matter of whose the file is. -/
theorem not_exposed_of (h : ¬ Exposed dir hostile f) (hentry : f'.entry = none → f.entry = none)
    (howned : ∀ u, f'.OwnedBy u → f.entry = none ∨ f.OwnedBy u) : ¬ Exposed dir hostile f' := by
  rintro ⟨u, hu, hchange, hwho⟩
  refine h ⟨u, hu, hchange, ?_⟩
  rcases hwho with hsticky | howner | hnone | hown
  · exact .inl hsticky
  · exact .inr (.inl howner)
  · exact .inr (.inr (.inl (hentry hnone)))
  · exact .inr (.inr (howned u hown))

theorem not_exposed_setHolder {n : Nat} {x : Option (LockHolder ι)}
    (h : ¬ Exposed dir hostile f) : ¬ Exposed dir hostile (f.setHolder n x) :=
  not_exposed_of h id fun _ howned => .inr (LockFile.ownedBy_setHolder.mp howned)

theorem not_exposed_chmod {n mode : Nat} (h : ¬ Exposed dir hostile f) :
    ¬ Exposed dir hostile (f.chmod n mode) :=
  not_exposed_of h id fun _ howned => .inr (LockFile.ownedBy_chmod.mp howned)

/-- A file made where there was none exposes nothing: where one can be made that a hostile user
removes, its absence was exposure already. -/
theorem not_exposed_create {node : Inode ι υ} (h : ¬ Exposed dir hostile f)
    (habsent : f.entry = none) : ¬ Exposed dir hostile (f.create node) := by
  refine not_exposed_of h (fun hnone => ?_) fun _ _ => .inl habsent
  cases hnone

/-- What others do leaves a lock file that is not exposed where it is, and unexposed. -/
theorem Intrusion.keeps (intrusion : Intrusion dir hostile f f') (h : ¬ Exposed dir hostile f) :
    ¬ Exposed dir hostile f' ∧ (∀ n, f.entry = some n → f'.entry = some n) ∧
      ∀ n i, f.holder n = some (.client i) ↔ f'.holder n = some (.client i) := by
  cases intrusion with
  | create absent may mine unheld =>
    refine ⟨not_exposed_create h absent, fun n hn => ?_, fun n i => ?_⟩
    · rw [absent] at hn
      cases hn
    · rw [LockFile.holder_create unheld]
  | remove foe owned may =>
    rw [not_mayRemove h foe owned] at may
    cases may
  | @seize m there free =>
    refine ⟨not_exposed_setHolder h, fun n hn => hn, fun n i => ?_⟩
    rw [LockFile.holder_setHolder there]
    split
    case isTrue heq =>
      subst heq
      simp [free]
    case isFalse => rfl
  | @release m there held =>
    refine ⟨not_exposed_setHolder h, fun n hn => hn, fun n i => ?_⟩
    rw [LockFile.holder_setHolder there]
    split
    case isTrue heq =>
      subst heq
      simp [held]
    case isFalse => rfl

/-- The lock file a hostile user makes: his own, and free. -/
def planted (u : υ) : Inode ι υ := ⟨u, true, 0o666, none⟩

/-- A hostile user can come to have made the lock file of an exposed one. -/
theorem Exposed.plant (h : Exposed dir hostile f) : ∃ u file, hostile u ∧
    dir.mayChange u = true ∧ Relation.ReflTransGen (Intrusion dir hostile) f file ∧
      file.entry = none ∧ Intrusion dir hostile file (file.create (planted u)) := by
  obtain ⟨u, hu, hchange, hwho⟩ := h
  cases hentry : f.entry with
  | none => exact ⟨u, f, hu, hchange, .refl, hentry, .create hentry hchange rfl rfl⟩
  | some n =>
    have hlt := f.entry_lt n hentry
    have howned : f.OwnedBy f.inodes[n].owner :=
      ⟨n, f.inodes[n], hentry, List.getElem?_eq_getElem hlt, rfl⟩
    have hmay : dir.mayRemove u f.inodes[n].owner = true := by
      rw [hentry] at hwho
      rcases hwho with hsticky | howner | hnone | hmine
      · simp [LockDir.mayRemove, hchange, hsticky]
      · simp [LockDir.mayRemove, howner]
      · cases hnone
      · rw [← hmine.unique howned]
        exact dir.mayRemove_self u hchange
    exact ⟨u, f.remove, hu, hchange, .single (.remove hu howned hmay), rfl,
      .create rfl hchange rfl rfl⟩

theorem exposed_of_ownedBy {u : υ} (hu : hostile u) (hchange : dir.mayChange u = true)
    (howned : f.OwnedBy u) : Exposed dir hostile f :=
  ⟨u, hu, hchange, .inr (.inr (.inr howned))⟩

end

end Lib
