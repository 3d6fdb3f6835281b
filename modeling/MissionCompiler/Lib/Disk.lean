import Mathlib.Logic.Function.Basic

/-!
# Files that reach the disk late

A directory whose names stand for inodes, and inodes whose text is written piece by piece. What was
written and not synced may be lost with the power, and a name may then stand for anything that it
stood for before.
-/

namespace Lib

/-- What a name of a directory stands for. -/
inductive DirEntry where
  | file (inode : Nat)
  | link (target : String)
  | directory
deriving DecidableEq

/-- A file as it is read, and whether all of that is on the disk. -/
structure FileNode where
  text : List Char
  mode : Nat
  synced : Bool

/-- A directory, and the inodes of its file system, of which those in use lie below a number. -/
structure Disk where
  entries : String → Option DirEntry
  nodes : Nat → FileNode
  next : Nat

namespace Disk

variable (d : Disk)

/-- A new and empty file. -/
def create (name : String) (mode : Nat) : Disk where
  entries := Function.update d.entries name (some (.file d.next))
  nodes := Function.update d.nodes d.next ⟨[], mode, false⟩
  next := d.next + 1

def modify (n : Nat) (change : FileNode → FileNode) : Disk where
  entries := d.entries
  nodes := Function.update d.nodes n (change (d.nodes n))
  next := d.next

def append (n : Nat) (text : List Char) : Disk :=
  d.modify n fun node => ⟨node.text ++ text, node.mode, false⟩

def sync (n : Nat) : Disk := d.modify n fun node => ⟨node.text, node.mode, true⟩

def chmod (n mode : Nat) : Disk := d.modify n fun node => ⟨node.text, mode, node.synced⟩

/-- The name itself is replaced, also where it is a link. -/
def rename (src dst : String) : Disk where
  entries := Function.update (Function.update d.entries src none) dst (d.entries src)
  nodes := d.nodes
  next := d.next

def unlink (name : String) : Disk where
  entries := Function.update d.entries name none
  nodes := d.nodes
  next := d.next

/-- What is found after the power was lost: every name stands for what it stood for at some time,
and what was synced has kept its text. -/
structure AfterPowerLoss (past : List Disk) (d d' : Disk) : Prop where
  entries : ∀ name, ∃ p ∈ past ++ [d], d'.entries name = p.entries name
  texts : ∀ n, (d.nodes n).synced = true → (d'.nodes n).text = (d.nodes n).text

end Disk

end Lib
