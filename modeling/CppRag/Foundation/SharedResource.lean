import Mathlib.Algebra.Order.BigOperators.Group.Finset
import Mathlib.Logic.Function.Basic

/-!
A resource that its first user initialises and its last user frees. The users count
themselves behind a lock. Taking the lock, testing the count, changing it, the call on the
resource and the release of the lock are steps of their own, and the steps of different users
interleave freely. What a user does while it is counted is a parameter. The count is an `int`,
and it counts as long as it has room for all users.
-/
namespace SharedResource
open Function

/-- What a user does between entering and leaving, with the events it performs. -/
structure Client (ι B E : Type) where
  start : ι → B
  Step : B → E → B → Prop
  Done : B → Prop

inductive Phase (B : Type) where
  | outside
  /-- Waiting for the lock on the way in. -/
  | entering
  | testing
  | counting
  | entered
  | inside (body : B)
  /-- Waiting for the lock on the way out. -/
  | leaving
  | uncounting
  | freeing
  | left

/-- The user holds the lock. -/
def Phase.locked {B : Type} : Phase B → Bool
  | .testing | .counting | .entered | .uncounting | .freeing | .left => true
  | _ => false

/-- The user is in the count. -/
def Phase.counted {B : Type} : Phase B → Bool
  | .entered | .inside _ | .leaving | .uncounting => true
  | _ => false

/-- The resource is live although the user may not be in the count. -/
def Phase.changing {B : Type} : Phase B → Bool
  | .counting | .freeing => true
  | _ => false

structure State (ι B : Type) where
  lock : Option ι
  references : Int32
  live : Bool
  phases : ι → Phase B

def State.start {ι B : Type} : State ι B := ⟨none, 0, false, fun _ => .outside⟩

/-- The count has room for every user that is not outside. -/
def State.Fits {ι B : Type} (s : State ι B) : Prop :=
  ∀ users : Finset ι, (∀ i ∈ users, s.phases i ≠ .outside) → users.card < 2 ^ 31

inductive Event (ι E : Type) where
  | silent
  | initialise
  | free
  | body (i : ι) (event : E)

section Steps
variable {ι B E : Type} [DecidableEq ι] (client : Client ι B E)

/-- One step of one user. -/
inductive Step : State ι B → Event ι E → State ι B → Prop
  | enter {s : State ι B} {i : ι} (hphase : s.phases i = .outside) :
      Step s .silent { s with phases := update s.phases i .entering }
  | lockIn {s : State ι B} {i : ι} (hphase : s.phases i = .entering) (hlock : s.lock = none) :
      Step s .silent { s with lock := some i, phases := update s.phases i .testing }
  | initialise {s : State ι B} {i : ι} (hphase : s.phases i = .testing)
      (hfirst : s.references = 0) :
      Step s .initialise { s with live := true, phases := update s.phases i .counting }
  | join {s : State ι B} {i : ι} (hphase : s.phases i = .testing) (hlater : s.references ≠ 0) :
      Step s .silent { s with phases := update s.phases i .counting }
  | count {s : State ι B} {i : ι} (hphase : s.phases i = .counting) :
      Step s .silent
        { s with references := s.references + 1, phases := update s.phases i .entered }
  | unlockIn {s : State ι B} {i : ι} (hphase : s.phases i = .entered) :
      Step s .silent { s with lock := none, phases := update s.phases i (.inside (client.start i)) }
  | body {s : State ι B} {i : ι} {b b' : B} {event : E} (hphase : s.phases i = .inside b)
      (hstep : client.Step b event b') :
      Step s (.body i event) { s with phases := update s.phases i (.inside b') }
  | leave {s : State ι B} {i : ι} {b : B} (hphase : s.phases i = .inside b)
      (hdone : client.Done b) : Step s .silent { s with phases := update s.phases i .leaving }
  | lockOut {s : State ι B} {i : ι} (hphase : s.phases i = .leaving) (hlock : s.lock = none) :
      Step s .silent { s with lock := some i, phases := update s.phases i .uncounting }
  | uncountLast {s : State ι B} {i : ι} (hphase : s.phases i = .uncounting)
      (hlast : s.references - 1 = 0) :
      Step s .silent
        { s with references := s.references - 1, phases := update s.phases i .freeing }
  | uncount {s : State ι B} {i : ι} (hphase : s.phases i = .uncounting)
      (hmore : s.references - 1 ≠ 0) :
      Step s .silent { s with references := s.references - 1, phases := update s.phases i .left }
  | free {s : State ι B} {i : ι} (hphase : s.phases i = .freeing) :
      Step s .free { s with live := false, phases := update s.phases i .left }
  | unlockOut {s : State ι B} {i : ι} (hphase : s.phases i = .left) :
      Step s .silent { s with lock := none, phases := update s.phases i .outside }

/-- Any number of steps of any users, with their events in order, through states with `P`. -/
inductive Run (P : State ι B → Prop) : State ι B → List (Event ι E) → State ι B → Prop
  | nil (s : State ι B) : Run P s [] s
  | cons {s s' s'' : State ι B} {event : Event ι E} {events : List (Event ι E)} :
      Step client s event s' → P s' → Run P s' events s'' → Run P s (event :: events) s''

end Steps

/-! The invariant. -/

/-- The lock has one holder, the count counts, and the resource is live while it is needed. -/
structure Safe {ι B : Type} (s : State ι B) : Prop where
  lock_iff : ∀ i, s.lock = some i ↔ (s.phases i).locked = true
  users : ∃ users : Finset ι, (∀ i, i ∈ users ↔ (s.phases i).counted = true) ∧
    s.references.toInt = users.card
  live_iff : s.live = true ↔ s.references ≠ 0 ∨ ∃ i, (s.phases i).changing = true
  freeing_zero : ∀ i, s.phases i = .freeing → s.references = 0

section Counting

theorem toInt_add_one {references : Int32} {n : Nat} (h : references.toInt = n)
    (hlt : n + 1 < 2 ^ 31) : (references + 1).toInt = (n + 1 : Nat) := by
  rw [Int32.toInt_add, h, Int32.toInt_one]
  exact Int.bmod_eq_of_le (by omega) (by omega)

theorem toInt_sub_one {references : Int32} {n : Nat} (h : references.toInt = n) (hpos : 0 < n) :
    (references - 1).toInt = (n - 1 : Nat) := by
  have hlt := references.toInt_lt
  rw [Int32.toInt_sub, h, Int32.toInt_one, Int.bmod_eq_of_le (by omega) (by omega)]
  omega

theorem ne_zero_of_mem {ι : Type} {references : Int32} {users : Finset ι} {i : ι}
    (hcard : references.toInt = users.card) (hi : i ∈ users) : references ≠ 0 := by
  rintro rfl
  have hpos := Finset.card_pos.mpr ⟨i, hi⟩
  rw [Int32.toInt_zero] at hcard
  omega

end Counting

section Invariant
variable {ι B E : Type} {s s' : State ι B} {i j : ι}

theorem locked_of_changing {phase : Phase B} (h : phase.changing = true) :
    phase.locked = true := by
  cases phase with
  | counting => rfl
  | freeing => rfl
  | _ => cases h

theorem safe_start : Safe (State.start : State ι B) where
  lock_iff _ := iff_of_false nofun nofun
  users := ⟨∅, fun _ => iff_of_false (Finset.notMem_empty _) nofun, rfl⟩
  live_iff := iff_of_false nofun (by rintro (h | ⟨i, h⟩); exacts [h rfl, nomatch h])
  freeing_zero _ h := nomatch h

namespace Safe

/-- Mutual exclusion. -/
theorem locked_unique (h : Safe s) (hi : (s.phases i).locked = true)
    (hj : (s.phases j).locked = true) : i = j := by
  have hlock := (h.lock_iff i).mpr hi
  rw [(h.lock_iff j).mpr hj] at hlock
  exact (Option.some.inj hlock).symm

theorem references_ne_zero (h : Safe s) (hi : (s.phases i).counted = true) :
    s.references ≠ 0 := by
  obtain ⟨users, hmem, hcard⟩ := h.users
  exact ne_zero_of_mem hcard ((hmem i).mpr hi)

/-- Whoever is counted finds the resource live. -/
theorem live_of_counted (h : Safe s) (hi : (s.phases i).counted = true) : s.live = true :=
  h.live_iff.mpr (.inl (h.references_ne_zero hi))

end Safe

variable [DecidableEq ι]

/-- A new phase for one user, with what it does to the lock. -/
theorem lock_iff_update {lock : Option ι} {phase : Phase B}
    (h : ∀ j, j ≠ i → (lock = some j ↔ (s.phases j).locked = true))
    (hi : lock = some i ↔ phase.locked = true) (j : ι) :
    lock = some j ↔ (update s.phases i phase j).locked = true := by
  by_cases hj : j = i
  · rw [hj, update_self]
    exact hi
  · rw [update_of_ne hj]
    exact h j hj

/-- A user who keeps the lock, or who never had it. -/
theorem Safe.lock_keep (h : Safe s) {old : Phase B} (new : Phase B) (hphase : s.phases i = old)
    (hsame : old.locked = new.locked) (j : ι) :
    s.lock = some j ↔ (update s.phases i new j).locked = true :=
  lock_iff_update (fun j _ => h.lock_iff j) (by rw [h.lock_iff, hphase, hsame]) j

theorem Safe.lock_take (h : Safe s) (hfree : s.lock = none) (new : Phase B)
    (hlocked : new.locked = true) (j : ι) :
    some i = some j ↔ (update s.phases i new j).locked = true := by
  refine lock_iff_update (fun j hj => iff_of_false (fun heq => hj (Option.some.inj heq).symm) ?_)
    (iff_of_true rfl hlocked) j
  intro hheld
  rw [← h.lock_iff, hfree] at hheld
  cases hheld

theorem Safe.lock_release (h : Safe s) {old : Phase B} (new : Phase B)
    (hphase : s.phases i = old) (hheld : old.locked = true) (hfree : new.locked = false) (j : ι) :
    none = some j ↔ (update s.phases i new j).locked = true := by
  refine lock_iff_update (fun j hj => ?_) ?_ j
  · exact iff_of_false nofun fun hother => hj (h.locked_unique hother (hphase ▸ hheld))
  · rw [hfree]
    exact iff_of_false nofun nofun

/-- A user who stays in the count, or out of it. -/
theorem Safe.users_keep (h : Safe s) {old : Phase B} (new : Phase B) (hphase : s.phases i = old)
    (hsame : old.counted = new.counted) :
    ∃ users : Finset ι, (∀ j, j ∈ users ↔ (update s.phases i new j).counted = true) ∧
      s.references.toInt = users.card := by
  obtain ⟨users, hmem, hcard⟩ := h.users
  refine ⟨users, fun j => ?_, hcard⟩
  by_cases hj : j = i
  · rw [hj, update_self, hmem, hphase, hsame]
  · rw [update_of_ne hj, hmem]

omit [DecidableEq ι] in
theorem ne_outside_of_counted {phase : Phase B} (h : phase.counted = true) :
    phase ≠ .outside := by
  rintro rfl
  cases h

/-- A user who joins the count, which has room for it. -/
theorem Safe.users_join (h : Safe s) {old : Phase B} (new : Phase B) (hphase : s.phases i = old)
    (hout : old.counted = false) (hin : new.counted = true)
    (hfits : ∀ users : Finset ι, (∀ j ∈ users, update s.phases i new j ≠ .outside) →
      users.card < 2 ^ 31) :
    ∃ users : Finset ι, (∀ j, j ∈ users ↔ (update s.phases i new j).counted = true) ∧
      (s.references + 1).toInt = users.card := by
  obtain ⟨users, hmem, hcard⟩ := h.users
  have hnew : i ∉ users := by
    rw [hmem, hphase, hout]
    nofun
  have hmem' : ∀ j, j ∈ insert i users ↔ (update s.phases i new j).counted = true := by
    intro j
    rw [Finset.mem_insert]
    by_cases hj : j = i
    · rw [hj, update_self]
      exact iff_of_true (.inl rfl) hin
    · rw [update_of_ne hj, hmem]
      exact or_iff_right hj
  have hroom := hfits _ fun j hj => ne_outside_of_counted ((hmem' j).mp hj)
  refine ⟨insert i users, hmem', ?_⟩
  rw [Finset.card_insert_of_notMem hnew] at hroom ⊢
  exact toInt_add_one hcard hroom

theorem Safe.users_part (h : Safe s) {old : Phase B} (new : Phase B) (hphase : s.phases i = old)
    (hin : old.counted = true) (hout : new.counted = false) :
    ∃ users : Finset ι, (∀ j, j ∈ users ↔ (update s.phases i new j).counted = true) ∧
      (s.references - 1).toInt = users.card := by
  obtain ⟨users, hmem, hcard⟩ := h.users
  have hold : i ∈ users := (hmem i).mpr (hphase ▸ hin)
  refine ⟨users.erase i, fun j => ?_, ?_⟩
  · rw [Finset.mem_erase]
    by_cases hj : j = i
    · rw [hj, update_self, hout]
      exact iff_of_false (fun hboth => hboth.1 rfl) nofun
    · rw [update_of_ne hj, hmem]
      exact and_iff_right hj
  · rw [Finset.card_erase_of_mem hold]
    exact toInt_sub_one hcard (Finset.card_pos.mpr ⟨i, hold⟩)

/-- A user who neither begins nor stops to change the resource. -/
theorem changing_update {old : Phase B} (new : Phase B) (hphase : s.phases i = old)
    (hsame : old.changing = new.changing) :
    (∃ j, (update s.phases i new j).changing = true) ↔ ∃ j, (s.phases j).changing = true := by
  refine exists_congr fun j => ?_
  by_cases hj : j = i
  · rw [hj, update_self, hphase, hsame]
  · rw [update_of_ne hj]

theorem freeing_update {references : Int32} {new : Phase B}
    (h : ∀ j, j ≠ i → s.phases j = .freeing → references = 0)
    (hi : new = .freeing → references = 0) (j : ι) :
    update s.phases i new j = .freeing → references = 0 := by
  by_cases hj : j = i
  · rw [hj, update_self]
    exact hi
  · rw [update_of_ne hj]
    exact h j hj

/-- A step of a user that leaves the count and the resource alone. -/
theorem Safe.move (h : Safe s) {old : Phase B} (new : Phase B) {lock : Option ι}
    (hphase : s.phases i = old)
    (hlock : ∀ j, lock = some j ↔ (update s.phases i new j).locked = true)
    (hcounted : old.counted = new.counted) (hbefore : old.changing = false)
    (hafter : new.changing = false) :
    Safe { s with lock := lock, phases := update s.phases i new } where
  lock_iff := hlock
  users := h.users_keep new hphase hcounted
  live_iff := by
    rw [changing_update new hphase (by rw [hbefore, hafter])]
    exact h.live_iff
  freeing_zero := by
    refine freeing_update (fun j _ => h.freeing_zero j) ?_
    rintro rfl
    cases hafter

omit [DecidableEq ι] in
/-- While a user holds the lock elsewhere, nobody changes the resource. -/
theorem Safe.not_changing (h : Safe s) (hlocked : (s.phases i).locked = true)
    (hnot : (s.phases i).changing = false) : ¬∃ j, (s.phases j).changing = true := by
  rintro ⟨j, hj⟩
  rw [h.locked_unique hlocked (locked_of_changing hj), hj] at hnot
  cases hnot

variable {client : Client ι B E} {event : Event ι E}

theorem Safe.step (h : Safe s) (hfits : s'.Fits) (hstep : Step client s event s') :
    Safe s' := by
  cases hstep with
  | enter hphase => exact h.move .entering hphase (h.lock_keep _ hphase rfl) rfl rfl rfl
  | lockIn hphase hlock => exact h.move .testing hphase (h.lock_take hlock _ rfl) rfl rfl rfl
  | unlockIn hphase =>
      exact h.move (.inside _) hphase (h.lock_release _ hphase rfl rfl) rfl rfl rfl
  | body hphase _ => exact h.move (.inside _) hphase (h.lock_keep _ hphase rfl) rfl rfl rfl
  | leave hphase _ => exact h.move .leaving hphase (h.lock_keep _ hphase rfl) rfl rfl rfl
  | lockOut hphase hlock => exact h.move .uncounting hphase (h.lock_take hlock _ rfl) rfl rfl rfl
  | unlockOut hphase => exact h.move .outside hphase (h.lock_release _ hphase rfl rfl) rfl rfl rfl
  | @initialise i hphase hfirst =>
      exact
        { lock_iff := h.lock_keep _ hphase rfl
          users := h.users_keep _ hphase rfl
          live_iff := iff_of_true rfl (.inr ⟨i, by simp only [update_self, Phase.changing]⟩)
          freeing_zero := fun _ _ => hfirst }
  | @join i hphase hlater =>
      exact
        { lock_iff := h.lock_keep _ hphase rfl
          users := h.users_keep _ hphase rfl
          live_iff := iff_of_true (h.live_iff.mpr (.inl hlater)) (.inl hlater)
          freeing_zero := freeing_update (fun j _ => h.freeing_zero j) nofun }
  | @count i hphase =>
      have hlocked : (s.phases i).locked = true := by rw [hphase]; rfl
      have hchanging : (s.phases i).changing = true := by rw [hphase]; rfl
      obtain ⟨users, hmem, hcard⟩ := h.users_join .entered hphase rfl rfl hfits
      have hi : i ∈ users := by
        rw [hmem, update_self]
        rfl
      exact
        { lock_iff := h.lock_keep _ hphase rfl
          users := ⟨users, hmem, hcard⟩
          live_iff := iff_of_true (h.live_iff.mpr (.inr ⟨i, hchanging⟩))
            (.inl (ne_zero_of_mem hcard hi))
          freeing_zero := by
            refine freeing_update (fun j hj hfreeing => ?_) nofun
            exact absurd (h.locked_unique (by rw [hfreeing]; rfl) hlocked) hj }
  | @uncountLast i hphase hlast =>
      have hcounted : (s.phases i).counted = true := by rw [hphase]; rfl
      exact
        { lock_iff := h.lock_keep _ hphase rfl
          users := h.users_part _ hphase rfl rfl
          live_iff := iff_of_true (h.live_of_counted hcounted)
            (.inr ⟨i, by simp only [update_self, Phase.changing]⟩)
          freeing_zero := fun _ _ => hlast }
  | @uncount i hphase hmore =>
      have hlocked : (s.phases i).locked = true := by rw [hphase]; rfl
      have hcounted : (s.phases i).counted = true := by rw [hphase]; rfl
      exact
        { lock_iff := h.lock_keep _ hphase rfl
          users := h.users_part _ hphase rfl rfl
          live_iff := iff_of_true (h.live_of_counted hcounted) (.inl hmore)
          freeing_zero := by
            refine freeing_update (fun j hj hfreeing => ?_) nofun
            exact absurd (h.locked_unique (by rw [hfreeing]; rfl) hlocked) hj }
  | @free i hphase =>
      have hlocked : (s.phases i).locked = true := by rw [hphase]; rfl
      have hzero := h.freeing_zero i hphase
      refine
        { lock_iff := h.lock_keep _ hphase rfl
          users := h.users_keep _ hphase rfl
          live_iff := iff_of_false nofun ?_
          freeing_zero := fun _ _ => hzero }
      rintro (hne | ⟨j, hj⟩)
      · exact hne hzero
      · by_cases hji : j = i
        · rw [hji] at hj
          simp only [update_self, Phase.changing] at hj
          cases hj
        · simp only [update_of_ne hji] at hj
          exact hji (h.locked_unique (locked_of_changing hj) hlocked)

theorem Run.safe {events : List (Event ι E)} (hrun : Run client State.Fits s events s')
    (h : Safe s) : Safe s' := by
  induction hrun with
  | nil s => exact h
  | cons hstep hfits _ ih => exact ih (h.step hfits hstep)

end Invariant

/-! What is seen from outside: the resource, and what every user holds. -/

/-- What one user may do, given what it holds. -/
structure Protocol (H E : Type) where
  idle : H
  next : H → E → Option H

/-- The client follows the protocol, and holds nothing when it enters and when it leaves. -/
structure Client.Follows {ι B E H : Type} (client : Client ι B E) (protocol : Protocol H E)
    (holding : B → H) : Prop where
  start : ∀ i, holding (client.start i) = protocol.idle
  step : ∀ {b event b'}, client.Step b event b' →
    protocol.next (holding b) event = some (holding b')
  done : ∀ {b}, client.Done b → holding b = protocol.idle

structure Shared (ι H : Type) where
  live : Bool
  holdings : ι → H

section Abstract
variable {ι B E H : Type} [DecidableEq ι] (protocol : Protocol H E)

def Shared.start : Shared ι H := ⟨false, fun _ => protocol.idle⟩

/-- The resource is initialised and freed in turns, users act while it is live and follow the
protocol, and it is freed while nobody holds anything. -/
inductive Shared.Step : Shared ι H → Event ι E → Shared ι H → Prop
  | silent (shared : Shared ι H) : Step shared .silent shared
  | initialise {shared : Shared ι H} (hdead : shared.live = false) :
      Step shared .initialise { shared with live := true }
  | free {shared : Shared ι H} (hlive : shared.live = true)
      (hidle : ∀ i, shared.holdings i = protocol.idle) :
      Step shared .free { shared with live := false }
  | body {shared : Shared ι H} {i : ι} {event : E} {h : H} (hlive : shared.live = true)
      (hnext : protocol.next (shared.holdings i) event = some h) :
      Step shared (.body i event) { shared with holdings := update shared.holdings i h }

inductive Shared.Run : Shared ι H → List (Event ι E) → Shared ι H → Prop
  | nil (shared : Shared ι H) : Run shared [] shared
  | cons {shared shared' shared'' : Shared ι H} {event : Event ι E} {events : List (Event ι E)} :
      Shared.Step protocol shared event shared' → Run shared' events shared'' →
      Run shared (event :: events) shared''

variable (holding : B → H)

def Phase.held : Phase B → H
  | .inside b => holding b
  | _ => protocol.idle

def State.shared (s : State ι B) : Shared ι H :=
  ⟨s.live, fun i => (s.phases i).held protocol holding⟩

variable {protocol holding} {client : Client ι B E} {s s' : State ι B} {event : Event ι E}

/-- A step of a user that changes neither the resource nor what the user holds. -/
theorem shared_update {i : ι} {old : Phase B} (new : Phase B) (lock : Option ι)
    (references : Int32) (live : Bool) (hphase : s.phases i = old)
    (hsame : new.held protocol holding = old.held protocol holding) :
    State.shared protocol holding ⟨lock, references, live, update s.phases i new⟩ =
      ⟨live, (s.shared protocol holding).holdings⟩ := by
  refine congrArg (Shared.mk live) (funext fun j => ?_)
  by_cases hj : j = i
  · simp only [hj, State.shared, update_self, hsame, hphase]
  · simp only [State.shared, update_of_ne hj]

/-- Every step is a step of what is seen from outside. -/
theorem Safe.shared_step (h : Safe s) (hfollows : client.Follows protocol holding)
    (hstep : SharedResource.Step client s event s') :
    Shared.Step protocol (s.shared protocol holding) event (s'.shared protocol holding) := by
  have hsilent : ∀ {i : ι} {old new : Phase B} (lock : Option ι) (references : Int32),
      s.phases i = old → new.held protocol holding = old.held protocol holding →
      Shared.Step protocol (s.shared protocol holding) (.silent : Event ι E)
        (State.shared protocol holding ⟨lock, references, s.live, update s.phases i new⟩) := by
    intro i old new lock references hphase hsame
    rw [shared_update new lock references s.live hphase hsame]
    exact .silent _
  cases hstep with
  | enter hphase => exact hsilent _ _ hphase rfl
  | lockIn hphase hlock => exact hsilent _ _ hphase rfl
  | join hphase hlater => exact hsilent _ _ hphase rfl
  | count hphase => exact hsilent _ _ hphase rfl
  | @unlockIn i hphase => exact hsilent _ _ hphase (hfollows.start i)
  | leave hphase hdone => exact hsilent _ _ hphase (hfollows.done hdone).symm
  | lockOut hphase hlock => exact hsilent _ _ hphase rfl
  | uncountLast hphase hlast => exact hsilent _ _ hphase rfl
  | uncount hphase hmore => exact hsilent _ _ hphase rfl
  | unlockOut hphase => exact hsilent _ _ hphase rfl
  | @initialise i hphase hfirst =>
      have hdead : s.live = false := by
        refine Bool.eq_false_iff.mpr fun hlive => ?_
        have hlocked : (s.phases i).locked = true := by rw [hphase]; rfl
        rcases h.live_iff.mp hlive with hne | hchanging
        · exact hne hfirst
        · exact h.not_changing hlocked (by rw [hphase]; rfl) hchanging
      rw [shared_update .counting _ _ _ hphase rfl]
      exact .initialise hdead
  | @free i hphase =>
      have hlive : s.live = true := h.live_iff.mpr (.inr ⟨i, by rw [hphase]; rfl⟩)
      rw [shared_update .left _ _ _ hphase rfl]
      refine .free hlive fun j => ?_
      cases hother : s.phases j with
      | inside b =>
          -- Whoever is inside is counted, and the count is zero here.
          have hcounted : (s.phases j).counted = true := by rw [hother]; rfl
          exact absurd (h.freeing_zero i hphase) (h.references_ne_zero hcounted)
      | _ => simp only [State.shared, hother, Phase.held]
  | @body i b b' event hphase hbody =>
      have hcounted : (s.phases i).counted = true := by rw [hphase]; rfl
      have hnext : protocol.next ((s.shared protocol holding).holdings i) event =
          some (holding b') := by
        simp only [State.shared, hphase, Phase.held]
        exact hfollows.step hbody
      have hafter : State.shared protocol holding
          { s with phases := update s.phases i (.inside b') } =
          { s.shared protocol holding with
            holdings := update (s.shared protocol holding).holdings i (holding b') } := by
        refine congrArg (Shared.mk s.live) (funext fun j => ?_)
        by_cases hj : j = i
        · simp only [hj, update_self, Phase.held]
        · simp only [State.shared, update_of_ne hj]
      rw [hafter]
      exact .body (h.live_of_counted hcounted) hnext

/-- Every run is one of what is seen from outside. -/
theorem Run.shared {events : List (Event ι E)}
    (hrun : SharedResource.Run client State.Fits s events s') (h : Safe s)
    (hfollows : client.Follows protocol holding) :
    Shared.Run protocol (s.shared protocol holding) events (s'.shared protocol holding) := by
  induction hrun with
  | nil s => exact .nil _
  | cons hstep hfits _ ih => exact .cons (h.shared_step hfollows hstep) (ih (h.step hfits hstep))

omit [DecidableEq ι] in
/-- When all users have left, the resource is freed and nothing is held. -/
theorem Safe.shared_of_outside (h : Safe s) (hout : ∀ i, s.phases i = .outside) :
    s.shared protocol holding = .start protocol := by
  have hdead : s.live = false := by
    obtain ⟨users, hmem, hcard⟩ := h.users
    have hnone : users = ∅ := by
      refine Finset.eq_empty_of_forall_notMem fun i hi => ?_
      rw [hmem, hout i] at hi
      cases hi
    rw [hnone, Finset.card_empty] at hcard
    refine Bool.eq_false_iff.mpr fun hlive => ?_
    rcases h.live_iff.mp hlive with hne | ⟨i, hi⟩
    · exact hne (Int32.toInt_inj.mp hcard)
    · rw [hout i] at hi
      cases hi
  rw [State.shared, hdead, Shared.start]
  exact congrArg (Shared.mk false) (funext fun i => by rw [hout i]; rfl)

end Abstract

/-! No state is stuck: the users can always leave. -/

/-- A user can always come closer to leaving. -/
def Client.Ends {ι B E : Type} (client : Client ι B E) (steps : B → Nat) : Prop :=
  ∀ b, client.Done b ∨ ∃ event b', client.Step b event b' ∧ steps b' < steps b

section Leaving
variable {ι B E : Type} [DecidableEq ι] {client : Client ι B E} {steps : B → Nat}
variable {s s' : State ι B}

/-- A bound on the steps a user takes on its shortest way out. -/
def Phase.remaining (client : Client ι B E) (steps : B → Nat) (i : ι) : Phase B → Nat
  | .outside => 0
  | .left => 1
  | .freeing => 2
  | .uncounting => 3
  | .leaving => 4
  | .inside b => steps b + 5
  | .entered => steps (client.start i) + 6
  | .counting => steps (client.start i) + 7
  | .testing => steps (client.start i) + 8
  | .entering => steps (client.start i) + 9

/-- One user has come closer to leaving, the others are where they were. -/
def Closer (client : Client ι B E) (steps : B → Nat) (s s' : State ι B) : Prop :=
  ∃ i phase, s'.phases = update s.phases i phase ∧
    phase.remaining client steps i < (s.phases i).remaining client steps i

/-- Nobody enters meanwhile. -/
theorem Closer.fits (h : Closer client steps s s') (hfits : s.Fits) : s'.Fits := by
  obtain ⟨i, phase, hphases, hless⟩ := h
  intro users husers
  refine hfits users fun j hj houtside => ?_
  by_cases hji : j = i
  · rw [← hji, houtside] at hless
    exact Nat.not_lt_zero _ hless
  · exact husers j hj (by rw [hphases, update_of_ne hji, houtside])

theorem closer_of_step {i : ι} {old new : Phase B} {event : Event ι E}
    (hphase : s.phases i = old) (hstep : Step client s event s')
    (hphases : s'.phases = update s.phases i new)
    (hless : new.remaining client steps i < old.remaining client steps i) :
    ∃ event s', Step client s event s' ∧ Closer client steps s s' :=
  ⟨event, s', hstep, i, new, hphases, by rwa [hphase]⟩

/-- The holder of the lock can go on. -/
theorem locked_step {i : ι} (hlocked : (s.phases i).locked = true) :
    ∃ event s', Step client s event s' ∧ Closer client steps s s' := by
  cases hphase : s.phases i with
  | testing =>
      by_cases hfirst : s.references = 0
      · exact closer_of_step hphase (.initialise hphase hfirst) rfl (Nat.lt_succ_self _)
      · exact closer_of_step hphase (.join hphase hfirst) rfl (Nat.lt_succ_self _)
  | counting =>
      exact closer_of_step hphase (.count hphase) rfl (Nat.lt_succ_self _)
  | entered =>
      exact closer_of_step hphase (.unlockIn hphase) rfl (Nat.lt_succ_self _)
  | uncounting =>
      by_cases hlast : s.references - 1 = 0
      · exact closer_of_step hphase (.uncountLast hphase hlast) rfl (Nat.lt_succ_self _)
      · exact closer_of_step hphase (.uncount hphase hlast) rfl
          (Nat.lt_succ_of_lt (Nat.lt_succ_self 1))
  | freeing =>
      exact closer_of_step hphase (.free hphase) rfl (Nat.lt_succ_self _)
  | left =>
      exact closer_of_step hphase (.unlockOut hphase) rfl (Nat.lt_succ_self _)
  | _ => rw [hphase] at hlocked; cases hlocked

/-- While a user is not outside, some user can come closer to leaving. -/
theorem Safe.closer (h : Safe s) (hends : client.Ends steps) {i : ι}
    (hactive : s.phases i ≠ .outside) :
    ∃ event s', Step client s event s' ∧ Closer client steps s s' := by
  cases hlock : s.lock with
  | some j => exact locked_step ((h.lock_iff j).mp hlock)
  | none =>
      have hunlocked : ¬(s.phases i).locked = true := by
        rw [← h.lock_iff, hlock]
        nofun
      cases hphase : s.phases i with
      | outside => exact absurd hphase hactive
      | entering =>
          exact closer_of_step hphase (.lockIn hphase hlock) rfl (Nat.lt_succ_self _)
      | leaving =>
          exact closer_of_step hphase (.lockOut hphase hlock) rfl (Nat.lt_succ_self _)
      | inside b =>
          rcases hends b with hdone | ⟨event, b', hstep, hless⟩
          · exact closer_of_step hphase (.leave hphase hdone) rfl
              (Nat.lt_of_lt_of_le (Nat.lt_succ_self 4) (Nat.le_add_left 5 _))
          · exact closer_of_step hphase (.body hphase hstep) rfl (Nat.add_lt_add_right hless 5)
      | _ =>
          rw [hphase] at hunlocked
          exact absurd rfl hunlocked

/-- From every safe state with finitely many users there is a run after which all have left. -/
theorem Safe.exists_run_outside (h : Safe s) (hfits : s.Fits) (hends : client.Ends steps)
    (active : Finset ι) (hactive : ∀ i, s.phases i ≠ .outside → i ∈ active) :
    ∃ events s', Run client State.Fits s events s' ∧ ∀ i, s'.phases i = .outside := by
  generalize htotal : ∑ i ∈ active, (s.phases i).remaining client steps i = total
  induction total using Nat.strong_induction_on generalizing s with
  | _ total ih =>
      by_cases hall : ∀ i, s.phases i = .outside
      · exact ⟨[], s, .nil s, hall⟩
      · obtain ⟨i, hi⟩ := not_forall.mp hall
        obtain ⟨event, s', hstep, hcloser⟩ := h.closer hends hi
        have hfits' := hcloser.fits hfits
        obtain ⟨j, phase, hphases, hless⟩ := hcloser
        have hj : j ∈ active := by
          refine hactive j fun houtside => ?_
          rw [houtside] at hless
          exact Nat.not_lt_zero _ hless
        have hat : ∀ k, k ≠ j → s'.phases k = s.phases k := fun k hk => by
          rw [hphases, update_of_ne hk]
        have hactive' : ∀ k, s'.phases k ≠ .outside → k ∈ active := by
          intro k hk
          by_cases hkj : k = j
          · exact hkj ▸ hj
          · exact hactive k (by rwa [← hat k hkj])
        have hsum : ∑ k ∈ active, (s'.phases k).remaining client steps k < total := by
          rw [← htotal]
          refine Finset.sum_lt_sum (fun k _ => ?_) ⟨j, hj, by rwa [hphases, update_self]⟩
          by_cases hkj : k = j
          · rw [hkj, hphases, update_self]
            exact Nat.le_of_lt hless
          · rw [hat k hkj]
        obtain ⟨events, s'', hrun, hout⟩ :=
          ih _ hsum (h.step hfits' hstep) hfits' hactive' rfl
        exact ⟨event :: events, s'', .cons hstep hfits' hrun, hout⟩

/-- A run touches finitely many users. -/
theorem Run.finite_active {P : State ι B → Prop} {events : List (Event ι E)}
    (hrun : Run client P s events s') (active : Finset ι)
    (hactive : ∀ i, s.phases i ≠ .outside → i ∈ active) :
    ∃ active : Finset ι, ∀ i, s'.phases i ≠ .outside → i ∈ active := by
  induction hrun generalizing active with
  | nil s => exact ⟨active, hactive⟩
  | @cons s s' s'' event events hstep _ _ ih =>
      obtain ⟨i, phase, hphases⟩ : ∃ i phase, s'.phases = update s.phases i phase := by
        cases hstep <;> exact ⟨_, _, rfl⟩
      refine ih (insert i active) fun j hj => ?_
      by_cases hji : j = i
      · exact hji ▸ Finset.mem_insert_self _ _
      · rw [hphases, update_of_ne hji] at hj
        exact Finset.mem_insert_of_mem (hactive j hj)

theorem Run.last {P : State ι B → Prop} {events : List (Event ι E)}
    (hrun : Run client P s events s') (h : P s) : P s' := by
  induction hrun with
  | nil s => exact h
  | cons _ hnext _ ih => exact ih hnext

omit [DecidableEq ι] in
theorem State.fits_start : (State.start : State ι B).Fits := by
  intro users husers
  have hnone : users = ∅ := Finset.eq_empty_of_forall_notMem fun i hi => husers i hi rfl
  rw [hnone]
  exact Nat.two_pow_pos 31

end Leaving

end SharedResource
