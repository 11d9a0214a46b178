import CppRag.Foundation.Failures

/-!
A search from a number down to 0 for the first position whose test gives a value. A test may
miss, or stop the search with an error.
-/
namespace Observed
open Failures
variable {E ε α : Type}

/-- `test n`, `test (n - 1)`, ..., `test 0`, up to the first that gives a value. -/
def searchDown (test : Nat → Observed E ε (Option α)) : Nat → Observed E ε (Option (Nat × α))
  | 0 => do
      let found ← test 0
      pure (found.map fun value => (0, value))
  | n + 1 => do
      let found ← test (n + 1)
      match found with
      | some value => pure (some (n + 1, value))
      | none => searchDown test n

/-- Every position above `k` up to `n` misses. -/
def MissesAbove (test : Nat → Observed E ε (Option α)) (k n : Nat) : Prop :=
  ∀ j, k < j → j ≤ n → (test j).result = .ok none

variable {test : Nat → Observed E ε (Option α)}

theorem MissesAbove.refl (n : Nat) : MissesAbove test n n :=
  fun _ hlt hle => absurd hle (Nat.not_le.mpr hlt)

theorem MissesAbove.succ {k n : Nat} (h : MissesAbove test k n)
    (hmiss : (test (n + 1)).result = .ok none) : MissesAbove test k (n + 1) := by
  intro j hlt hle
  rcases Nat.le_succ_iff.mp hle with hle | rfl
  · exact h j hlt hle
  · exact hmiss

theorem MissesAbove.pred {k n : Nat} (h : MissesAbove test k (n + 1)) : MissesAbove test k n :=
  fun j hlt hle => h j hlt (Nat.le_succ_of_le hle)

/-- The search ends at the topmost position that does not miss, the way its test ends. -/
theorem searchDown_result {k n : Nat} (hk : k ≤ n) (h : MissesAbove test k n)
    (hends : (test k).result ≠ .ok none) :
    (searchDown test n).result = (test k).result.map fun found =>
      found.map fun value => (k, value) := by
  induction n with
  | zero =>
      obtain rfl := Nat.le_zero.mp hk
      rw [searchDown]
      cases hfound : (test 0).result with
      | error error => rw [bind_of_error hfound]; rfl
      | ok found => rw [bind_of_ok hfound]; rfl
  | succ n ih =>
      rw [searchDown]
      rcases Nat.le_succ_iff.mp hk with hle | rfl
      · rw [bind_of_ok (h (n + 1) (Nat.lt_succ_of_le hle) (Nat.le_refl _))]
        exact ih hle h.pred
      · cases hfound : (test (n + 1)).result with
        | error error => rw [bind_of_error hfound]; rfl
        | ok found =>
            rw [bind_of_ok hfound]
            cases found with
            | none => exact absurd hfound hends
            | some value => rfl

theorem searchDown_misses {n : Nat} (h : ∀ j, j ≤ n → (test j).result = .ok none) :
    (searchDown test n).result = .ok none := by
  induction n with
  | zero => rw [searchDown, bind_of_ok (h 0 (Nat.le_refl 0))]; rfl
  | succ n ih =>
      rw [searchDown, bind_of_ok (h (n + 1) (Nat.le_refl _))]
      exact ih fun j hj => h j (Nat.le_succ_of_le hj)

/-- Either every position misses, or there is a topmost one that does not. -/
theorem misses_or_topmost (test : Nat → Observed E ε (Option α)) (n : Nat) :
    (∀ j, j ≤ n → (test j).result = .ok none) ∨
      ∃ k, k ≤ n ∧ MissesAbove test k n ∧ (test k).result ≠ .ok none := by
  by_cases hall : ∀ j, j ≤ n → (test j).result = .ok none
  · exact .inl hall
  · right
    induction n with
    | zero =>
        refine ⟨0, Nat.le_refl 0, .refl 0, fun hmiss => hall fun j hj => ?_⟩
        rwa [Nat.le_zero.mp hj]
    | succ n ih =>
        by_cases hmiss : (test (n + 1)).result = .ok none
        · obtain ⟨k, hk, habove, hends⟩ := ih fun hbelow => hall fun j hj => by
            rcases Nat.le_succ_iff.mp hj with hj | rfl
            · exact hbelow j hj
            · exact hmiss
          exact ⟨k, Nat.le_succ_of_le hk, habove.succ hmiss, hends⟩
        · exact ⟨n + 1, Nat.le_refl _, .refl _, hmiss⟩

theorem searchDown_some_iff {k n : Nat} {value : α} :
    (searchDown test n).result = .ok (some (k, value)) ↔
      k ≤ n ∧ (test k).result = .ok (some value) ∧ MissesAbove test k n := by
  constructor
  · intro h
    rcases misses_or_topmost test n with hall | ⟨j, hj, habove, hends⟩
    · rw [searchDown_misses hall] at h
      cases h
    · rw [searchDown_result hj habove hends] at h
      cases hfound : (test j).result with
      | error error => rw [hfound] at h; cases h
      | ok found =>
          rw [hfound] at h
          cases found with
          | none => exact absurd hfound hends
          | some found =>
              cases h
              exact ⟨hj, hfound, habove⟩
  · rintro ⟨hk, hfound, habove⟩
    rw [searchDown_result hk habove (by rw [hfound]; nofun), hfound]
    rfl

theorem searchDown_error_iff {n : Nat} {error : ε} :
    (searchDown test n).result = .error error ↔
      ∃ k, k ≤ n ∧ (test k).result = .error error ∧ MissesAbove test k n := by
  constructor
  · intro h
    rcases misses_or_topmost test n with hall | ⟨j, hj, habove, hends⟩
    · rw [searchDown_misses hall] at h
      cases h
    · rw [searchDown_result hj habove hends] at h
      cases hfound : (test j).result with
      | error found =>
          rw [hfound] at h
          cases h
          exact ⟨j, hj, hfound, habove⟩
      | ok found => rw [hfound] at h; cases h
  · rintro ⟨k, hk, hfound, habove⟩
    rw [searchDown_result hk habove (by rw [hfound]; nofun), hfound]
    rfl

theorem within_searchDown {P : E → Prop} {Q : ε → Prop} (h : ∀ k, Within P Q (test k)) (n : Nat) :
    Within P Q (searchDown test n) := by
  induction n with
  | zero => exact (h 0).bind fun found => within_pure
  | succ n ih =>
      refine (h (n + 1)).bind fun found => ?_
      cases found with
      | some value => exact within_pure
      | none => exact ih

end Observed
