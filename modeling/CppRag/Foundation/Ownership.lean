import Mathlib.Data.List.Nodup
import Mathlib.Logic.Function.Basic

/-!
Resources that are acquired and released, and owners that hold at most one each. Releasing
what is not held is a fault that stays on record. `Balanced` says that everything held has
exactly one owner and that no fault happened; each operation of an owner keeps it.
-/
structure Ledger (R : Type) where
  live : List R
  faults : List R

namespace Ledger
open Function
variable {R ι : Type}

def empty : Ledger R := ⟨[], []⟩

def acquire (ledger : Ledger R) (resource : R) : Ledger R :=
  { ledger with live := resource :: ledger.live }

section Release
variable [DecidableEq R]

def release (ledger : Ledger R) (resource : R) : Ledger R :=
  if resource ∈ ledger.live then { ledger with live := ledger.live.erase resource }
  else { ledger with faults := resource :: ledger.faults }

/-- Releases what an owner holds, if anything. -/
def releaseHeld (ledger : Ledger R) : Option R → Ledger R
  | none => ledger
  | some resource => ledger.release resource

theorem release_acquire (ledger : Ledger R) (resource : R) :
    (ledger.acquire resource).release resource = ledger := by
  rw [release, if_pos (show resource ∈ (ledger.acquire resource).live from List.mem_cons_self)]
  simp only [acquire, List.erase_cons_head]

end Release

structure Balanced (ledger : Ledger R) (owner : ι → Option R) : Prop where
  live_iff : ∀ resource, resource ∈ ledger.live ↔ ∃ i, owner i = some resource
  owner_unique : ∀ i j resource, owner i = some resource → owner j = some resource → i = j
  nodup : ledger.live.Nodup
  faultless : ledger.faults = []

theorem balanced_empty : Balanced (empty : Ledger R) (fun _ : ι => none) where
  live_iff _ := iff_of_false List.not_mem_nil fun ⟨_, h⟩ => nomatch h
  owner_unique _ _ _ h := nomatch h
  nodup := List.nodup_nil
  faultless := rfl

namespace Balanced
variable {ledger : Ledger R} {owner : ι → Option R} {resource : R} {i j : ι}

theorem existsUnique (h : Balanced ledger owner) (hlive : resource ∈ ledger.live) :
    ∃! i, owner i = some resource := by
  obtain ⟨i, howner⟩ := (h.live_iff resource).mp hlive
  exact ⟨i, howner, fun j hj => h.owner_unique j i resource hj howner⟩

theorem live_eq_nil (h : Balanced ledger owner) (hnone : ∀ i, owner i = none) :
    ledger.live = [] := by
  refine List.eq_nil_iff_forall_not_mem.mpr fun resource hlive => ?_
  obtain ⟨i, howner⟩ := (h.live_iff resource).mp hlive
  rw [hnone i] at howner
  cases howner

variable [DecidableEq ι]

/-- An owner without a resource gets a fresh one. -/
theorem acquire (h : Balanced ledger owner) (hfresh : resource ∉ ledger.live)
    (hfree : owner i = none) :
    Balanced (ledger.acquire resource) (update owner i (some resource)) := by
  have hnew : ∀ j, owner j ≠ some resource := fun j hj => hfresh ((h.live_iff _).mpr ⟨j, hj⟩)
  refine ⟨fun other => ?_, fun j k other hj hk => ?_, List.nodup_cons.mpr ⟨hfresh, h.nodup⟩,
    h.faultless⟩
  · rw [Ledger.acquire, List.mem_cons, h.live_iff]
    constructor
    · rintro (rfl | ⟨j, hj⟩)
      · exact ⟨i, update_self i _ _⟩
      · refine ⟨j, ?_⟩
        rwa [update_of_ne fun heq => by rw [heq, hfree] at hj; cases hj]
    · rintro ⟨j, hj⟩
      by_cases heq : j = i
      · rw [heq, update_self] at hj
        exact .inl (Option.some.inj hj).symm
      · rw [update_of_ne heq] at hj
        exact .inr ⟨j, hj⟩
  · by_cases hji : j = i
    · rw [hji, update_self] at hj
      cases hj
      by_cases hki : k = i
      · rw [hji, hki]
      · rw [update_of_ne hki] at hk
        exact absurd hk (hnew k)
    · rw [update_of_ne hji] at hj
      by_cases hki : k = i
      · rw [hki, update_self] at hk
        cases hk
        exact absurd hj (hnew j)
      · rw [update_of_ne hki] at hk
        exact h.owner_unique j k other hj hk

/-- An owner releases what it holds. -/
theorem releaseHeld [DecidableEq R] (h : Balanced ledger owner) (i : ι) :
    Balanced (ledger.releaseHeld (owner i)) (update owner i none) := by
  have hunique : ∀ j k other, update owner i none j = some other →
      update owner i none k = some other → j = k := by
    intro j k other hj hk
    have hji : j ≠ i := fun heq => by rw [heq, update_self] at hj; cases hj
    have hki : k ≠ i := fun heq => by rw [heq, update_self] at hk; cases hk
    rw [update_of_ne hji] at hj
    rw [update_of_ne hki] at hk
    exact h.owner_unique j k other hj hk
  cases howner : owner i with
  | none =>
      rw [← howner, update_eq_self] at hunique ⊢
      rw [howner]
      exact h
  | some resource =>
      have hlive : resource ∈ ledger.live := (h.live_iff resource).mpr ⟨i, howner⟩
      rw [Ledger.releaseHeld, release, if_pos hlive]
      refine ⟨fun other => ?_, hunique, h.nodup.erase resource, h.faultless⟩
      rw [h.nodup.mem_erase_iff, h.live_iff]
      constructor
      · rintro ⟨hne, j, hj⟩
        refine ⟨j, ?_⟩
        rwa [update_of_ne fun heq => hne (by
          rw [heq, howner] at hj
          exact (Option.some.inj hj).symm)]
      · rintro ⟨j, hj⟩
        have hji : j ≠ i := fun heq => by rw [heq, update_self] at hj; cases hj
        rw [update_of_ne hji] at hj
        refine ⟨fun heq => hji (h.owner_unique j i resource (heq ▸ hj) howner), j, hj⟩

/-- What one owner holds goes to another that holds nothing. -/
theorem transfer (h : Balanced ledger owner) (hne : i ≠ j) (hfree : owner i = none) :
    Balanced ledger (update (update owner i (owner j)) j none) := by
  have hmoved : ∀ k other, update (update owner i (owner j)) j none k = some other ↔
      ∃ l, owner l = some other ∧ k = if l = j then i else l := by
    intro k other
    by_cases hkj : k = j
    · rw [hkj, update_self]
      refine iff_of_false nofun fun ⟨l, hl, heq⟩ => ?_
      split at heq
      · exact hne heq.symm
      · rename_i hlj
        exact hlj heq.symm
    · rw [update_of_ne hkj]
      by_cases hki : k = i
      · rw [hki, update_self]
        constructor
        · exact fun hj => ⟨j, hj, (if_pos rfl).symm⟩
        · rintro ⟨l, hl, heq⟩
          split at heq
          · rename_i hlj
            rwa [← hlj]
          · rw [← heq, hfree] at hl
            cases hl
      · rw [update_of_ne hki]
        constructor
        · exact fun hk => ⟨k, hk, (if_neg hkj).symm⟩
        · rintro ⟨l, hl, heq⟩
          split at heq
          · exact absurd heq hki
          · rwa [heq]
  refine ⟨fun other => ?_, fun k l other hk hl => ?_, h.nodup, h.faultless⟩
  · rw [h.live_iff]
    constructor
    · rintro ⟨l, hl⟩
      exact ⟨_, (hmoved _ other).mpr ⟨l, hl, rfl⟩⟩
    · rintro ⟨k, hk⟩
      obtain ⟨l, hl, -⟩ := (hmoved k other).mp hk
      exact ⟨l, hl⟩
  · obtain ⟨k', hk', rfl⟩ := (hmoved k other).mp hk
    obtain ⟨l', hl', rfl⟩ := (hmoved l other).mp hl
    rw [h.owner_unique k' l' other hk' hl']

/-- An owner releases what it holds and takes over what another holds. -/
theorem replace [DecidableEq R] (h : Balanced ledger owner) (hne : i ≠ j) :
    Balanced (ledger.releaseHeld (owner i)) (update (update owner i (owner j)) j none) := by
  have hmoved := (h.releaseHeld i).transfer hne (update_self i none owner)
  rwa [update_idem, update_of_ne hne.symm] at hmoved

end Balanced
end Ledger
