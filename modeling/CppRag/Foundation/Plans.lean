import CppRag.Foundation.Observed

/-!
Computations with a plan of events. Of the events only those count that `name` gives a name. A
computation performs its plan when it names the members of it in their order, all of them unless
it fails.
-/
namespace Plans
open Observed

section Named
variable {E C : Type} (name : E → Option C)

def named (events : List E) : List C := events.filterMap name

theorem named_append (before after : List E) :
    named name (before ++ after) = named name before ++ named name after :=
  List.filterMap_append

end Named

/-- The computation ends with the result, and its named events are the plan, or the beginning of
the plan up to its failure. -/
structure Performs {E C ε α : Type} (name : E → Option C) (plan : List C)
    (result : Except ε α) (m : Observed E ε α) : Prop where
  result_eq : m.result = result
  started : named name m.events <+: plan
  finished : ∀ a, result = .ok a → named name m.events = plan

section Rules
variable {E C ε α β : Type} {name : E → Option C}

theorem performs_ofResult (result : Except ε α) :
    Performs name [] result (ofResult result : Observed E ε α) :=
  ⟨rfl, List.nil_prefix, fun _ _ => rfl⟩

theorem performs_pure (a : α) : Performs name [] (.ok a) (pure a : Observed E ε α) :=
  performs_ofResult (.ok a)

theorem performs_report {event : E} {c : C} (h : name event = some c) :
    Performs name [c] (.ok ()) (report event : Observed E ε Unit) := by
  have hnamed : named name [event] = [c] := by rw [named, List.filterMap_cons_some h]; rfl
  exact ⟨rfl, hnamed ▸ List.prefix_rfl, fun _ _ => hnamed⟩

theorem performs_unnamed {event : E} (h : name event = none) :
    Performs name [] (.ok ()) (report event : Observed E ε Unit) := by
  have hnamed : named name [event] = [] := by rw [named, List.filterMap_cons_none h]; rfl
  exact ⟨rfl, hnamed ▸ List.prefix_rfl, fun _ _ => hnamed⟩

/-- Two plans one after the other; the second is begun only when the first is done. -/
theorem Performs.bind {plan plan' : List C} {result : Except ε α} {next : α → Except ε β}
    {m : Observed E ε α} {f : α → Observed E ε β} (hm : Performs name plan result m)
    (hf : ∀ a, result = .ok a → Performs name plan' (next a) (f a)) :
    Performs name (plan ++ plan') (result >>= next) (m >>= f) := by
  obtain ⟨rfl, hstarted, hfinished⟩ := hm
  cases hresult : m.result with
  | error e =>
      refine ⟨bind_of_error hresult f, ?_, nofun⟩
      rw [events_bind_of_error hresult]
      exact hstarted.trans (List.prefix_append _ _)
  | ok a =>
      have hnext := hf a hresult
      have hdone := hfinished a hresult
      refine ⟨(bind_of_ok hresult f).trans hnext.result_eq, ?_, fun b hb => ?_⟩
      · rw [events_bind_of_ok hresult, named_append, hdone]
        exact (List.prefix_append_right_inj _).mpr hnext.started
      · rw [events_bind_of_ok hresult, named_append, hdone, hnext.finished b hb]

/-- A part that returns without named events can stand before a plan. -/
theorem Performs.before {plan : List C} {result : Except ε β} {m : Observed E ε α}
    {f : α → Observed E ε β} {a : α} (hm : Performs name [] (.ok a) m)
    (hf : Performs name plan result (f a)) : Performs name plan result (m >>= f) := by
  have hbind : Performs name ([] ++ plan) (Except.ok a >>= fun _ => result) (m >>= f) :=
    hm.bind fun b hb => by
      cases hb
      exact hf
  exact hbind

/-- A failure without named events is the beginning of every plan. -/
theorem performs_fail (plan : List C) (e : ε) :
    Performs name plan (.error e) (fail e : Observed E ε α) :=
  ⟨rfl, List.nil_prefix, nofun⟩

theorem performs_forM {xs : List α} {f : α → Observed E ε Unit}
    (h : ∀ x ∈ xs, Performs name [] (.ok ()) (f x)) :
    Performs name [] (.ok ()) (xs.forM f) := by
  induction xs with
  | nil => exact performs_pure ()
  | cons x xs ih =>
      obtain ⟨hx, hxs⟩ := List.forall_mem_cons.mp h
      exact hx.before (ih hxs)

end Rules

end Plans
