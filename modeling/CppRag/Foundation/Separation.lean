import Mathlib.Data.List.Chain

/-!
Neighbours that must stand apart: a separator is put between any two of them. When the
separator itself must stand apart from nothing, no such neighbours are left, a list without them
is unchanged, and a second run changes nothing. Taking out the separators gives the list back.
-/
namespace Separation
variable {α : Type}

section Definitions
variable (apart : α → α → Bool) (separator : α)

def separate : List α → List α
  | first :: second :: rest =>
      if apart first second then first :: separator :: separate (second :: rest)
      else first :: separate (second :: rest)
  | short => short

/-- The positions of the separators in the result, its first element having the given one. -/
def insertedFrom (start : Nat) : List α → List Nat
  | first :: second :: rest =>
      if apart first second then (start + 1) :: insertedFrom (start + 2) (second :: rest)
      else insertedFrom (start + 1) (second :: rest)
  | _ => []

end Definitions

/-- What is left of a list, its first element having position `start`, without the elements at
the positions. -/
def removeFrom (positions : List Nat) (start : Nat) : List α → List α
  | [] => []
  | first :: rest =>
      if start ∈ positions then removeFrom positions (start + 1) rest
      else first :: removeFrom positions (start + 1) rest

def remove (positions : List Nat) (list : List α) : List α := removeFrom positions 0 list

/-- A position before the list removes nothing. -/
theorem removeFrom_cons_of_lt {position start : Nat} (positions : List Nat) (list : List α)
    (h : position < start) :
    removeFrom (position :: positions) start list = removeFrom positions start list := by
  induction list generalizing start with
  | nil => rfl
  | cons first rest ih =>
      have hiff : start ∈ position :: positions ↔ start ∈ positions := by
        rw [List.mem_cons]
        exact or_iff_right (Nat.ne_of_gt h)
      simp only [removeFrom, hiff, ih (Nat.lt_succ_of_lt h)]

variable {apart : α → α → Bool} {separator : α}

theorem head?_separate (list : List α) : (separate apart separator list).head? = list.head? := by
  cases list with
  | nil => rfl
  | cons first list =>
      cases list with
      | nil => rfl
      | cons second rest =>
          rw [separate]
          split <;> rfl

/-- No separator comes before the second position. -/
theorem lt_of_mem_insertedFrom {start position : Nat} {list : List α}
    (h : position ∈ insertedFrom apart start list) : start < position := by
  induction start, list using insertedFrom.induct apart with
  | case1 start first second rest hapart ih =>
      rw [insertedFrom, if_pos hapart, List.mem_cons] at h
      cases h with
      | inl heq => exact heq ▸ Nat.lt_succ_self start
      | inr hmem => exact Nat.lt_trans (by omega) (ih hmem)
  | case2 start first second rest hapart ih =>
      rw [insertedFrom, if_neg hapart] at h
      exact Nat.lt_of_succ_lt (ih h)
  | case3 start list hshort =>
      rw [insertedFrom] at h
      · cases h
      · exact hshort

theorem pairwise_insertedFrom (start : Nat) (list : List α) :
    (insertedFrom apart start list).Pairwise (· < ·) := by
  induction start, list using insertedFrom.induct apart with
  | case1 start first second rest hapart ih =>
      rw [insertedFrom, if_pos hapart]
      refine List.pairwise_cons.mpr ⟨fun position hmem => ?_, ih⟩
      exact Nat.lt_of_succ_lt (lt_of_mem_insertedFrom hmem)
  | case2 start first second rest hapart ih =>
      rw [insertedFrom, if_neg hapart]
      exact ih
  | case3 start list hshort =>
      rw [insertedFrom]
      · exact List.Pairwise.nil
      · exact hshort

/-- At the positions there are separators. -/
theorem separate_getElem?_of_mem {start position : Nat} {list : List α}
    (h : position ∈ insertedFrom apart start list) :
    (separate apart separator list)[position - start]? = some separator := by
  induction start, list using insertedFrom.induct apart with
  | case1 start first second rest hapart ih =>
      rw [insertedFrom, if_pos hapart, List.mem_cons] at h
      rw [separate, if_pos hapart]
      cases h with
      | inl heq =>
          rw [heq, Nat.add_sub_cancel_left]
          rfl
      | inr hmem =>
          have hlt := lt_of_mem_insertedFrom hmem
          rw [show position - start = position - (start + 2) + 1 + 1 by omega,
            List.getElem?_cons_succ, List.getElem?_cons_succ]
          exact ih hmem
  | case2 start first second rest hapart ih =>
      rw [insertedFrom, if_neg hapart] at h
      have hlt := lt_of_mem_insertedFrom h
      rw [separate, if_neg hapart, show position - start = position - (start + 1) + 1 by omega,
        List.getElem?_cons_succ]
      exact ih h
  | case3 start list hshort =>
      rw [insertedFrom] at h
      · cases h
      · exact hshort

/-- Without the separators the list is the one that was separated. -/
theorem removeFrom_separate (start : Nat) (list : List α) :
    removeFrom (insertedFrom apart start list) start (separate apart separator list) = list := by
  induction start, list using insertedFrom.induct apart with
  | case1 start first second rest hapart ih =>
      have hfirst : start ∉ (start + 1) :: insertedFrom apart (start + 2) (second :: rest) := by
        intro hmem
        cases List.mem_cons.mp hmem with
        | inl heq => omega
        | inr hmem => have hlt := lt_of_mem_insertedFrom hmem; omega
      rw [insertedFrom, separate, if_pos hapart, if_pos hapart, removeFrom, if_neg hfirst,
        removeFrom, if_pos List.mem_cons_self, removeFrom_cons_of_lt _ _ (Nat.lt_succ_self _), ih]
  | case2 start first second rest hapart ih =>
      have hfirst : start ∉ insertedFrom apart (start + 1) (second :: rest) := by
        intro hmem
        have hlt := lt_of_mem_insertedFrom hmem
        omega
      rw [insertedFrom, separate, if_neg hapart, if_neg hapart, removeFrom, if_neg hfirst, ih]
  | case3 start list hshort =>
      cases list with
      | nil => rfl
      | cons first list =>
          cases list with
          | nil => rfl
          | cons second rest => exact absurd rfl (hshort first second rest)

theorem remove_separate (list : List α) :
    remove (insertedFrom apart 0 list) (separate apart separator list) = list :=
  removeFrom_separate 0 list

/-- Nothing is inserted where no neighbours must stand apart. -/
theorem separate_eq_self {list : List α} (h : list.IsChain fun a b => apart a b = false) :
    separate apart separator list = list := by
  induction list using separate.induct apart with
  | case1 first second rest hapart ih =>
      rw [(List.isChain_cons_cons.mp h).1] at hapart
      cases hapart
  | case2 first second rest hapart ih =>
      rw [separate, if_neg hapart, ih (List.isChain_cons_cons.mp h).2]
  | case3 list hshort => rw [separate]; exact hshort

section Quiet
variable (hbefore : ∀ a, apart a separator = false) (hafter : ∀ a, apart separator a = false)
include hbefore hafter

theorem isChain_separate (list : List α) :
    (separate apart separator list).IsChain fun a b => apart a b = false := by
  induction list using separate.induct apart with
  | case1 first second rest hapart ih =>
      rw [separate, if_pos hapart]
      refine List.IsChain.cons (List.IsChain.cons ih fun a _ => hafter a) ?_
      intro a ha
      cases ha
      exact hbefore first
  | case2 first second rest hapart ih =>
      rw [separate, if_neg hapart]
      refine List.IsChain.cons ih ?_
      intro a ha
      rw [head?_separate] at ha
      cases ha
      exact Bool.eq_false_iff.mpr hapart
  | case3 list hshort =>
      cases list with
      | nil => exact List.isChain_nil
      | cons first list =>
          cases list with
          | nil => exact List.isChain_singleton _
          | cons second rest => exact absurd rfl (hshort first second rest)

theorem separate_separate (list : List α) :
    separate apart separator (separate apart separator list) = separate apart separator list :=
  separate_eq_self (isChain_separate hbefore hafter list)

end Quiet

end Separation
