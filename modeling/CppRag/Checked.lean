import CppRag.Basic
import CppRag.Foundation.Observed
import Mathlib.Algebra.Group.Nat.Defs

/-!
Code whose byte reads and 64-bit additions, subtractions and multiplications are reported
in the order the code performs them. The operations themselves wrap as the code's do; an
exact access is one that reads inside its buffer and does not wrap.
-/
namespace CppRag
open Observed

inductive Access where
  | read (offset size : Nat)
  | add (lhs rhs : UInt64)
  | sub (lhs rhs : UInt64)
  | mul (lhs rhs : UInt64)
  | div (lhs rhs : UInt64)
  deriving DecidableEq, Repr

/-- A read stays inside a mapping of `mapped` bytes and a computed `u64` is its
mathematical value. -/
def Access.Exact (mapped : Nat) : Access → Prop
  | .read offset size => offset + size ≤ mapped
  | .add lhs rhs => ((lhs + rhs).toNat : Int) = lhs.toNat + rhs.toNat
  | .sub lhs rhs => ((lhs - rhs).toNat : Int) = lhs.toNat - rhs.toNat
  | .mul lhs rhs => ((lhs * rhs).toNat : Int) = lhs.toNat * rhs.toNat
  | .div lhs rhs => rhs ≠ 0 ∧ ((lhs / rhs).toNat : Int) = lhs.toNat / rhs.toNat

abbrev Checked (α : Type) : Type := Observed Access Exception α

def addU64 (lhs rhs : UInt64) : Checked UInt64 := do
  report (.add lhs rhs)
  pure (lhs + rhs)

def subU64 (lhs rhs : UInt64) : Checked UInt64 := do
  report (.sub lhs rhs)
  pure (lhs - rhs)

def mulU64 (lhs rhs : UInt64) : Checked UInt64 := do
  report (.mul lhs rhs)
  pure (lhs * rhs)

def divU64 (lhs rhs : UInt64) : Checked UInt64 := do
  report (.div lhs rhs)
  pure (lhs / rhs)

/-! Counting up and down. -/

theorem toNat_add_of_lt {lhs rhs : UInt64} (h : lhs.toNat + rhs.toNat < 2 ^ 64) :
    (lhs + rhs).toNat = lhs.toNat + rhs.toNat := by
  rw [UInt64.toNat_add, Nat.mod_eq_of_lt h]

theorem toNat_mul_of_lt {lhs rhs : UInt64} (h : lhs.toNat * rhs.toNat < 2 ^ 64) :
    (lhs * rhs).toNat = lhs.toNat * rhs.toNat := by
  rw [UInt64.toNat_mul, Nat.mod_eq_of_lt h]

theorem toNat_sub_of_toNat_le {lhs rhs : UInt64} (h : rhs.toNat ≤ lhs.toNat) :
    (lhs - rhs).toNat = lhs.toNat - rhs.toNat :=
  UInt64.toNat_sub_of_le lhs rhs (UInt64.le_iff_toNat_le.mpr h)

theorem toNat_succ_of_lt {lhs rhs : UInt64} (h : lhs < rhs) : (lhs + 1).toNat = lhs.toNat + 1 := by
  have hlt := UInt64.lt_iff_toNat_lt.mp h
  have hsize := rhs.toNat_lt
  have hone : (1 : UInt64).toNat = 1 := rfl
  rw [toNat_add_of_lt (by omega), hone]

theorem one_le_of_lt {lhs rhs : UInt64} (h : lhs < rhs) : 1 ≤ rhs :=
  UInt64.le_iff_toNat_le.mpr
    (Nat.lt_of_le_of_lt (Nat.zero_le lhs.toNat) (UInt64.lt_iff_toNat_lt.mp h))

theorem toNat_pred_of_lt {lhs rhs : UInt64} (h : lhs < rhs) : (rhs - 1).toNat = rhs.toNat - 1 := by
  rw [UInt64.toNat_sub_of_le _ _ (one_le_of_lt h), show (1 : UInt64).toNat = 1 from rfl]

/-! The operations, each with what makes it exact. -/

theorem returns_addU64 {mapped : Nat} {lhs rhs : UInt64} (h : lhs.toNat + rhs.toNat < 2 ^ 64) :
    Returns (Access.Exact mapped) (addU64 lhs rhs) (lhs + rhs) := by
  refine returns_bind (returns_report ?_) returns_pure
  rw [Access.Exact, toNat_add_of_lt h]
  omega

theorem returns_subU64 {mapped : Nat} {lhs rhs : UInt64} (h : rhs ≤ lhs) :
    Returns (Access.Exact mapped) (subU64 lhs rhs) (lhs - rhs) := by
  refine returns_bind (returns_report ?_) returns_pure
  have hle := UInt64.le_iff_toNat_le.mp h
  rw [Access.Exact, UInt64.toNat_sub_of_le _ _ h]
  omega

end CppRag
