import Mathlib.Algebra.BigOperators.Group.Finset.Piecewise
import Mathlib.Data.List.Sort
import Mathlib.Order.Lattice

/-!
Lists ranked by a key, best first. The first `k` keys of a ranked list are determined
by how many keys reach each threshold, hence by the first `k` keys of each part when
the list is divided into parts.
-/
namespace Ranking
variable {α σ K : Type} [LinearOrder K]

/-- Keys that never increase. -/
abbrev Ranked (keys : List K) : Prop := keys.Pairwise (· ≥ ·)

theorem countP_cons_of_ranked {x t : K} {keys : List K} (h : Ranked (x :: keys)) (ht : x < t) :
    (x :: keys).countP (t ≤ ·) = 0 := by
  rw [List.countP_eq_zero]
  intro y hy
  have hyx : y ≤ x := by
    rcases List.mem_cons.mp hy with rfl | hy
    · exact le_rfl
    · exact (List.pairwise_cons.mp h).1 y hy
  simpa using hyx.trans_lt ht

/-- Ranked keys that reach every threshold equally often are the same. -/
theorem eq_of_countP_eq {xs ys : List K} (hx : Ranked xs) (hy : Ranked ys)
    (h : ∀ t, xs.countP (t ≤ ·) = ys.countP (t ≤ ·)) : xs = ys := by
  induction xs generalizing ys with
  | nil =>
      cases ys with
      | nil => rfl
      | cons y ys => simpa using h y
  | cons x xs ih =>
      cases ys with
      | nil => simpa using h x
      | cons y ys =>
          have hxy : x = y := by
            rcases lt_trichotomy x y with hlt | heq | hgt
            · have hcount := h y
              rw [countP_cons_of_ranked hx hlt] at hcount
              simp at hcount
            · exact heq
            · have hcount := h x
              rw [countP_cons_of_ranked hy hgt] at hcount
              simp at hcount
          subst hxy
          refine congrArg _ (ih (List.pairwise_cons.mp hx).2 (List.pairwise_cons.mp hy).2 ?_)
          intro t
          have hcount := h t
          rw [List.countP_cons, List.countP_cons] at hcount
          exact Nat.add_right_cancel hcount

/-- Among the first `k` ranked keys as many reach a threshold as fit. -/
theorem countP_take {keys : List K} (h : Ranked keys) (k : Nat) (t : K) :
    (keys.take k).countP (t ≤ ·) = min k (keys.countP (t ≤ ·)) := by
  induction keys generalizing k with
  | nil => simp
  | cons x keys ih =>
      cases k with
      | zero => simp
      | succ k =>
          rw [List.take_succ_cons]
          by_cases hxt : t ≤ x
          · rw [List.countP_cons_of_pos (by simpa using hxt),
              List.countP_cons_of_pos (by simpa using hxt), ih (List.pairwise_cons.mp h).2,
              Nat.succ_min_succ]
          · have hzero := countP_cons_of_ranked h (not_le.mp hxt)
            have hsub := ((keys.take_sublist k).cons_cons x).countP_le (p := (t ≤ ·))
            omega

/-! Dividing a list into parts. -/

section Parts
variable [DecidableEq σ] (part : α → σ)

theorem countP_eq_sum_parts (p : α → Bool) (xs : List α) (parts : Finset σ)
    (h : ∀ x, x ∈ xs → part x ∈ parts) :
    xs.countP p = ∑ s ∈ parts, (xs.filter (part · = s)).countP p := by
  induction xs with
  | nil => simp
  | cons x xs ih =>
      have hx := h x List.mem_cons_self
      have hone : (∑ s ∈ parts, if part x = s ∧ p x = true then 1 else 0) =
          if p x = true then 1 else 0 := by
        by_cases hp : p x = true
        · simp only [hp, and_true, if_true]
          rw [Finset.sum_ite_eq, if_pos hx]
        · simp [hp]
      rw [List.countP_cons, ih fun y hy => h y (List.mem_cons_of_mem x hy), ← hone,
        ← Finset.sum_add_distrib]
      refine Finset.sum_congr rfl fun s _ => ?_
      by_cases hs : part x = s
      · simp [hs, List.countP_cons]
      · simp [hs]

theorem min_sum_eq {f g : σ → Nat} {k : Nat} (parts : Finset σ)
    (h : ∀ s, min k (f s) = min k (g s)) :
    min k (∑ s ∈ parts, f s) = min k (∑ s ∈ parts, g s) := by
  induction parts using Finset.induction_on with
  | empty => rfl
  | insert s parts hs ih =>
      have hpart := h s
      rw [Finset.sum_insert hs, Finset.sum_insert hs]
      omega

/-- The first `k` keys of a ranked list depend only on the first `k` keys of its parts. -/
theorem take_eq_of_parts {key : α → K} {k : Nat} {xs ys : List α} (hx : Ranked (xs.map key))
    (hy : Ranked (ys.map key))
    (h : ∀ s, ((xs.filter (part · = s)).map key).take k =
      ((ys.filter (part · = s)).map key).take k) :
    (xs.map key).take k = (ys.map key).take k := by
  have hranked : ∀ {zs : List α}, Ranked (zs.map key) → ∀ s,
      Ranked ((zs.filter (part · = s)).map key) :=
    fun hz s => hz.sublist (List.filter_sublist.map key)
  refine eq_of_countP_eq (hx.sublist (List.take_sublist _ _)) (hy.sublist (List.take_sublist _ _))
    fun t => ?_
  rw [countP_take hx, countP_take hy, List.countP_map, List.countP_map]
  have hparts : ∀ x, x ∈ xs ++ ys → part x ∈ ((xs ++ ys).map part).toFinset :=
    fun x hx => List.mem_toFinset.mpr (List.mem_map_of_mem hx)
  rw [countP_eq_sum_parts part _ xs _ fun x hx => hparts x (List.mem_append_left ys hx),
    countP_eq_sum_parts part _ ys _ fun y hy => hparts y (List.mem_append_right xs hy)]
  refine min_sum_eq _ fun s => ?_
  have hcount := congrArg (List.countP (t ≤ ·)) (h s)
  rwa [countP_take (hranked hx s), countP_take (hranked hy s), List.countP_map,
    List.countP_map] at hcount

end Parts

/-- Every multiset can be listed in ranked order. -/
theorem exists_ranked (key : α → K) (members : Multiset α) :
    ∃ xs : List α, Ranked (xs.map key) ∧ (xs : Multiset α) = members := by
  refine ⟨members.toList.mergeSort (fun a b => key a ≥ key b), ?_, ?_⟩
  · rw [Ranked, List.pairwise_map]
    have htrans : ∀ a b c : α, decide (key a ≥ key b) → decide (key b ≥ key c) →
        decide (key a ≥ key c) := by
      simp only [decide_eq_true_eq]
      exact fun a b c hab hbc => le_trans hbc hab
    have htotal : ∀ a b : α, decide (key a ≥ key b) || decide (key b ≥ key a) := by
      simp only [Bool.or_eq_true, decide_eq_true_eq]
      exact fun a b => le_total _ _
    simpa using List.pairwise_mergeSort htrans htotal members.toList
  · rw [Multiset.coe_eq_coe.mpr (List.mergeSort_perm _ _), Multiset.coe_toList]

/-- When `kept` is as much of a stream as the capacity allows and nothing dropped is
better, its ranked keys are the first ones of the ranked stream. -/
theorem keys_eq_take {key : α → K} {capacity : Nat} {stream kept : List α}
    {dropped : Multiset α} (hstream : Ranked (stream.map key)) (hkept : Ranked (kept.map key))
    (hperm : (stream : Multiset α) = kept + dropped)
    (hlen : kept.length = min capacity stream.length)
    (hdropped : ∀ d ∈ dropped, ∀ m ∈ kept, key d ≤ key m) :
    kept.map key = (stream.map key).take capacity := by
  obtain ⟨rest, hrest, hperm_rest⟩ := exists_ranked key dropped
  have hall : Ranked ((kept ++ rest).map key) := by
    rw [Ranked, List.map_append, List.pairwise_append]
    refine ⟨hkept, hrest, ?_⟩
    intro x hx y hy
    obtain ⟨m, hm, rfl⟩ := List.mem_map.mp hx
    obtain ⟨d, hd, rfl⟩ := List.mem_map.mp hy
    refine hdropped d ?_ m hm
    rw [← hperm_rest]
    exact hd
  have heq : stream.map key = (kept ++ rest).map key := by
    have hperm' : stream.Perm (kept ++ rest) := by
      rw [← Multiset.coe_eq_coe, hperm, ← hperm_rest, Multiset.coe_add]
    exact (hperm'.map key).eq_of_pairwise (fun a b _ _ hab hba => le_antisymm hba hab) hstream
      hall
  rw [heq, List.map_append]
  by_cases hfull : capacity ≤ kept.length
  · have hcap : (kept.map key).length = capacity := by
      rw [List.length_map]
      omega
    rw [← hcap, List.take_left]
  · have hempty : rest = [] := by
      have hcard := congrArg Multiset.card hperm
      rw [← hperm_rest, Multiset.coe_add, Multiset.coe_card, Multiset.coe_card,
        List.length_append] at hcard
      exact List.eq_nil_of_length_eq_zero (by omega)
    rw [hempty, List.map_nil, List.append_nil, List.take_of_length_le]
    rw [List.length_map]
    omega

/-- Filtering away only what comes after the first `k` elements leaves these in front. -/
theorem take_filter {k : Nat} {xs : List α} {p : α → Bool}
    (h : ∀ x, x ∈ xs.take k → p x = true) : (xs.filter p).take k = xs.take k := by
  induction xs generalizing k with
  | nil => rfl
  | cons x xs ih =>
      cases k with
      | zero => rfl
      | succ k =>
          rw [List.take_succ_cons] at h ⊢
          rw [List.filter_cons_of_pos (h x List.mem_cons_self), List.take_succ_cons,
            ih fun y hy => h y (List.mem_cons_of_mem x hy)]

end Ranking
