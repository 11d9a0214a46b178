import CppRag.Foundation.Observed

/-!
Which errors a computation can end with, and what it can do before: rules along its structure,
one for each combinator.
-/
namespace Failures
open Observed
variable {E ε δ α β : Type} {Q : ε → Prop}

/-- Every error of the result satisfies `Q`. -/
def FailsIn (Q : ε → Prop) (result : Except ε α) : Prop := ∀ error, result = .error error → Q error

theorem failsIn_ok {a : α} : FailsIn Q (.ok a) := nofun

theorem failsIn_error {error : ε} (h : Q error) : FailsIn Q (.error error : Except ε α) := by
  rintro _ ⟨⟩
  exact h

theorem FailsIn.bind {result : Except ε α} {f : α → Except ε β} (h : FailsIn Q result)
    (hf : ∀ a, FailsIn Q (f a)) : FailsIn Q (result >>= f) := by
  cases result with
  | ok a => exact hf a
  | error error => exact failsIn_error (h error rfl)

theorem failsIn_mapError {g : ε → δ} {R : δ → Prop} {result : Except ε α} (h : ∀ e, R (g e)) :
    FailsIn R (result.mapError g) := by
  cases result with
  | ok a => exact failsIn_ok
  | error error => exact failsIn_error (h error)

theorem FailsIn.mapError {g : ε → δ} {R : δ → Prop} {result : Except ε α}
    (hresult : FailsIn Q result) (h : ∀ e, Q e → R (g e)) : FailsIn R (result.mapError g) := by
  cases result with
  | ok a => exact failsIn_ok
  | error error => exact failsIn_error (h error (hresult error rfl))

/-! Computations with events. -/

/-- Every event satisfies `P`, and every error `Q`. -/
structure Within (P : E → Prop) (Q : ε → Prop) (m : Observed E ε α) : Prop where
  events : ∀ event ∈ m.events, P event
  failsIn : FailsIn Q m.result

section Rules
variable {F : Type} {P P' : E → Prop} {R : δ → Prop}

theorem within_pure {a : α} : Within P Q (pure a : Observed E ε α) := ⟨nofun, failsIn_ok⟩

theorem within_report {event : E} (h : P event) :
    Within P Q (report event : Observed E ε Unit) :=
  ⟨List.forall_mem_singleton.mpr h, failsIn_ok⟩

theorem within_fail {error : ε} (h : Q error) : Within P Q (fail error : Observed E ε α) :=
  ⟨nofun, failsIn_error h⟩

theorem within_failIf {condition : Bool} {error : ε} (h : Q error) :
    Within P Q (failIf condition error : Observed E ε Unit) := by
  cases condition with
  | true => exact within_fail h
  | false => exact within_pure

/-- A result with its errors renamed. -/
theorem within_ofResult {g : ε → δ} (hg : ∀ e, R (g e)) (result : Except ε α) :
    Within P R ((ofResult result).mapError g : Observed E δ α) :=
  ⟨nofun, failsIn_mapError hg⟩

/-- A computation with its events and its errors renamed. -/
theorem within_map {f : F → E} {g : ε → δ} (hf : ∀ event, P (f event)) (hg : ∀ e, R (g e))
    (m : Observed F ε α) : Within P R ((m.mapEvents f).mapError g) := by
  refine ⟨fun event hevent => ?_, failsIn_mapError hg⟩
  obtain ⟨inner, -, rfl⟩ := List.mem_map.mp hevent
  exact hf inner

theorem Within.bind {m : Observed E ε α} {f : α → Observed E ε β} (h : Within P Q m)
    (hf : ∀ a, Within P Q (f a)) : Within P Q (m >>= f) := by
  cases hm : m.result with
  | ok a =>
      refine ⟨fun event hevent => ?_, ?_⟩
      · rw [events_bind_of_ok hm, List.mem_append] at hevent
        exact hevent.elim (h.events event) ((hf a).events event)
      · rw [bind_of_ok hm]
        exact (hf a).failsIn
  | error error =>
      refine ⟨fun event hevent => ?_, ?_⟩
      · rw [events_bind_of_error hm] at hevent
        exact h.events event hevent
      · rw [bind_of_error hm]
        exact failsIn_error (h.failsIn error hm)

theorem Within.imp {m : Observed E ε α} (h : Within P Q m) (himp : ∀ event, P event → P' event) :
    Within P' Q m :=
  ⟨fun event hevent => himp event (h.events event hevent), h.failsIn⟩

/-- When the computation fails, its error satisfies `Q` and every event before it `P`. -/
def FailsAfter (P : E → Prop) (Q : ε → Prop) (m : Observed E ε α) : Prop :=
  ∀ error, m.result = .error error → Q error ∧ ∀ event ∈ m.events, P event

theorem failsAfter_report (event : E) : FailsAfter P Q (report event : Observed E ε Unit) := nofun

/-- Only the last part may do something else, when it does not fail. -/
theorem Within.failsAfter {m : Observed E ε α} {f : α → Observed E ε β} (h : Within P Q m)
    (hf : ∀ a, FailsAfter P Q (f a)) : FailsAfter P Q (m >>= f) := by
  intro error herror
  cases hm : m.result with
  | error failure =>
      rw [bind_of_error hm] at herror
      cases herror
      rw [events_bind_of_error hm]
      exact ⟨h.failsIn error hm, h.events⟩
  | ok a =>
      rw [bind_of_ok hm] at herror
      obtain ⟨herror, hevents⟩ := hf a error herror
      rw [events_bind_of_ok hm]
      exact ⟨herror, List.forall_mem_append.mpr ⟨h.events, hevents⟩⟩

theorem FailsAfter.failsIn {m : Observed E ε α} (h : FailsAfter P Q m) : FailsIn Q m.result :=
  fun error herror => (h error herror).1

end Rules

end Failures
