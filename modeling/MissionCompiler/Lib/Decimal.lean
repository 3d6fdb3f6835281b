import Mathlib.Algebra.Ring.Nat
import Mathlib.Data.Nat.Basic
import Mathlib.Data.List.Basic
import Std.Data.String.ToNat

/-!
# Numbers written in decimal

The digits of a number, and the zero-padded fields of a timestamp. A field of a fixed width
keeps its width for every number that fits, which is what a text of such fields is taken
apart by.
-/

namespace Lib

def IsDigit (c : Char) : Prop := '0' ≤ c ∧ c ≤ '9'

instance (c : Char) : Decidable (IsDigit c) := inferInstanceAs (Decidable ('0' ≤ c ∧ c ≤ '9'))

/-- A number in decimal, with leading zeros up to a width: `f"{n:0{width}d}"`. -/
def padded (width n : Nat) : List Char :=
  let digits := Nat.toDigits 10 n
  List.replicate (width - digits.length) '0' ++ digits

theorem isDigit_of_mem_toDigits {n : Nat} {c : Char} (h : c ∈ Nat.toDigits 10 n) : IsDigit c := by
  have hdigit := Nat.isDigit_of_mem_toDigits (by decide) (by decide) h
  simp only [Char.isDigit, Bool.and_eq_true, decide_eq_true_eq] at hdigit
  exact hdigit

theorem isDigit_of_mem_padded {width n : Nat} {c : Char} (h : c ∈ padded width n) : IsDigit c := by
  rcases List.mem_append.mp h with h | h
  · rw [List.eq_of_mem_replicate h]
    decide
  · exact isDigit_of_mem_toDigits h

theorem length_padded {width n : Nat} (hw : 0 < width) (hn : n < 10 ^ width) :
    (padded width n).length = width := by
  have hlen := (Nat.length_toDigits_le_iff (by decide) hw).mpr hn
  rw [padded, List.length_append, List.length_replicate]
  omega

theorem toList_toString_eq (n : Nat) : (toString n).toList = Nat.toDigits 10 n := by
  rw [Nat.toString_eq_repr, Nat.toList_repr]

theorem toString_injective : Function.Injective (toString : Nat → String) := by
  intro m n h
  rw [Nat.toString_eq_repr, Nat.toString_eq_repr] at h
  exact Nat.repr_injective h

end Lib
