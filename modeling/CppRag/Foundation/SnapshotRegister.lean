import Mathlib.Logic.Function.Basic
import Mathlib.Data.List.Basic

/-!
A register that writers publish whole values to and readers take snapshots of. Publishing and
erasing change what the next reader finds; a snapshot stays what it was when it was taken.
-/
structure Register (V R : Type) where
  current : Option V
  snapshots : R → Option V

namespace Register
variable {V W R : Type}

inductive Event (W R : Type) where
  | publish (writer : W)
  | erase (writer : W)
  | take (reader : R)
  deriving DecidableEq

section Act
variable [DecidableEq R] (value : W → V)

def act (s : Register V R) : Event W R → Register V R
  | .publish writer => { s with current := some (value writer) }
  | .erase _ => { s with current := none }
  | .take reader => { s with snapshots := Function.update s.snapshots reader s.current }

abbrev run (s : Register V R) (events : List (Event W R)) : Register V R :=
  events.foldl (act value) s

variable {value}

/-- The register and every snapshot hold what was there, nothing, or the value of a writer that
has published. -/
theorem held_run {P : Option V → Prop} {s : Register V R} {events : List (Event W R)}
    (hstart : P s.current ∧ ∀ reader, P (s.snapshots reader)) (hnone : P none)
    (hvalue : ∀ writer, .publish writer ∈ events → P (some (value writer))) :
    P (s.run value events).current ∧ ∀ reader, P ((s.run value events).snapshots reader) := by
  induction events generalizing s with
  | nil => exact hstart
  | cons event events ih =>
      refine ih ?_ fun writer hmem => hvalue writer (List.mem_cons_of_mem _ hmem)
      cases event with
      | publish writer => exact ⟨hvalue writer List.mem_cons_self, hstart.2⟩
      | erase writer => exact ⟨hnone, hstart.2⟩
      | take reader =>
          refine ⟨hstart.1, fun other => ?_⟩
          simp only [act, Function.update_apply]
          split
          · exact hstart.1
          · exact hstart.2 other

/-- A snapshot changes only when its reader takes another one. -/
theorem snapshot_run {s : Register V R} {reader : R} {events : List (Event W R)}
    (h : .take reader ∉ events) : (s.run value events).snapshots reader = s.snapshots reader := by
  induction events generalizing s with
  | nil => rfl
  | cons event events ih =>
      rw [List.mem_cons, not_or] at h
      have hlater : (s.run value (event :: events)).snapshots reader =
          (s.act value event).snapshots reader := ih h.2
      rw [hlater]
      cases event with
      | publish writer => rfl
      | erase writer => rfl
      | take other =>
          have hne : reader ≠ other := fun he => h.1 (by rw [he])
          exact Function.update_of_ne hne _ _

theorem snapshot_take (s : Register V R) (reader : R) :
    (s.act value (.take reader : Event W R)).snapshots reader = s.current :=
  Function.update_self ..

end Act

end Register
