import Mathlib.Data.List.Forall2

/-!
A traversal that stops at the first error: it succeeds when every element does, with the
elements' results in their order.
-/
namespace Traversal
variable {α β ε : Type}

/-- A computation that returns has gone through both of its parts. -/
theorem except_bind_ok_iff {m : Except ε α} {f : α → Except ε β} {b : β} :
    (m >>= f) = .ok b ↔ ∃ a, m = .ok a ∧ f a = .ok b := by
  cases m with
  | ok a =>
      constructor
      · exact fun h => ⟨a, rfl, h⟩
      · rintro ⟨_, ha, h⟩
        cases ha
        exact h
  | error error =>
      refine iff_of_false nofun ?_
      rintro ⟨_, ha, -⟩
      cases ha

theorem mapM_cons_ok_iff {f : α → Except ε β} {x : α} {xs : List α} {results : List β} :
    (x :: xs).mapM f = .ok results ↔
      ∃ y ys, f x = .ok y ∧ xs.mapM f = .ok ys ∧ results = y :: ys := by
  rw [List.mapM_cons, except_bind_ok_iff]
  refine exists_congr fun y => ?_
  rw [except_bind_ok_iff]
  constructor
  · rintro ⟨hy, ys, hys, hresults⟩
    cases hresults
    exact ⟨ys, hy, hys, rfl⟩
  · rintro ⟨ys, hy, hys, rfl⟩
    exact ⟨hy, ys, hys, rfl⟩

theorem mapM_ok_iff {f : α → Except ε β} {xs : List α} {ys : List β} :
    xs.mapM f = .ok ys ↔ List.Forall₂ (fun x y => f x = .ok y) xs ys := by
  induction xs generalizing ys with
  | nil =>
      rw [List.mapM_nil, List.forall₂_nil_left_iff]
      constructor
      · intro h
        cases h
        rfl
      · rintro rfl
        rfl
  | cons x xs ih =>
      rw [mapM_cons_ok_iff, List.forall₂_cons_left_iff]
      constructor
      · rintro ⟨y, ys, hy, hys, rfl⟩
        exact ⟨y, ys, hy, ih.1 hys, rfl⟩
      · rintro ⟨y, ys, hy, hys, rfl⟩
        exact ⟨y, ys, hy, ih.2 hys, rfl⟩

theorem exists_of_mapM_ok {f : α → Except ε β} {xs : List α} {ys : List β}
    (h : xs.mapM f = .ok ys) {y : β} (hmem : y ∈ ys) : ∃ x ∈ xs, f x = .ok y := by
  have hall := mapM_ok_iff.1 h
  induction hall with
  | nil => cases hmem
  | cons hxy hrest ih =>
      rcases List.mem_cons.1 hmem with rfl | hmem
      · exact ⟨_, List.mem_cons_self .., hxy⟩
      · obtain ⟨x, hx, hy⟩ := ih (mapM_ok_iff.2 hrest) hmem
        exact ⟨x, List.mem_cons_of_mem _ hx, hy⟩

end Traversal
