import CppRag.Foundation.Observed

/-!
Recursion with fuel: a computation that needs more fuel than it is given stops with an error
of its own, `exhausted`. `Completes` is the total-correctness triple of such a computation.
`Extends` compares a computation with one that has more fuel: they are the same unless the
first one is exhausted.
-/
namespace Observed
variable {E ε α β : Type} {P : E → Prop} {exhausted : ε}

/-- `Meets`, and the fuel suffices. -/
def Completes (P : E → Prop) (exhausted : ε) (m : Observed E ε α) (Q : α → Prop) : Prop :=
  Meets P m Q ∧ m.result ≠ .error exhausted

theorem Completes.imp {m : Observed E ε α} {Q R : α → Prop} (h : Completes P exhausted m Q)
    (hqr : ∀ a, Q a → R a) : Completes P exhausted m R :=
  ⟨h.1.imp hqr, h.2⟩

theorem completes_pure {Q : α → Prop} {a : α} (h : Q a) :
    Completes P exhausted (pure a : Observed E ε α) Q :=
  ⟨meets_pure h, nofun⟩

theorem completes_report {event : E} {Q : Unit → Prop} (h : P event) (hq : Q ()) :
    Completes P exhausted (report event : Observed E ε Unit) Q :=
  ⟨meets_report h hq, nofun⟩

theorem completes_fail {error : ε} (h : error ≠ exhausted) (Q : α → Prop) :
    Completes P exhausted (fail error : Observed E ε α) Q := by
  refine ⟨meets_fail error Q, ?_⟩
  intro hresult
  exact h (Except.error.inj hresult)

theorem completes_bind {m : Observed E ε α} {f : α → Observed E ε β}
    {Q : α → Prop} {R : β → Prop} (hm : Completes P exhausted m Q)
    (hf : ∀ a, Q a → Completes P exhausted (f a) R) : Completes P exhausted (m >>= f) R := by
  refine ⟨meets_bind hm.1 fun a ha => (hf a ha).1, ?_⟩
  cases h : m.result with
  | error e =>
      rw [bind_of_error h]
      intro he
      exact hm.2 (by rw [h, Except.error.inj he])
  | ok a =>
      rw [bind_of_ok h]
      exact (hf a (hm.1.2 a h)).2

/-- The second computation is the first one unless the first one is exhausted. -/
def Extends (exhausted : ε) (m m' : Observed E ε α) : Prop :=
  m.result ≠ .error exhausted → m' = m

theorem extends_refl (m : Observed E ε α) : Extends exhausted m m := fun _ => rfl

theorem extends_fail (m : Observed E ε α) :
    Extends exhausted (fail exhausted : Observed E ε α) m := by
  intro h
  exact absurd rfl h

theorem extends_bind {m m' : Observed E ε α} {f f' : α → Observed E ε β}
    (hm : Extends exhausted m m') (hf : ∀ a, Extends exhausted (f a) (f' a)) :
    Extends exhausted (m >>= f) (m' >>= f') := by
  intro hfuel
  cases h : m.result with
  | error e =>
      have hexhausted : m.result ≠ .error exhausted := by
        intro he
        exact hfuel (bind_of_error he f)
      rw [hm hexhausted]
      simp only [bind, h]
  | ok a =>
      rw [bind_of_ok h] at hfuel
      rw [hm (by rw [h]; nofun)]
      simp only [bind, h]
      rw [hf a hfuel]

theorem extends_ite {c : Prop} [Decidable c] {m m' n n' : Observed E ε α}
    (hm : Extends exhausted m m') (hn : Extends exhausted n n') :
    Extends exhausted (if c then m else n) (if c then m' else n') := by
  split
  · exact hm
  · exact hn

/-- Running with one unit of fuel more, any number of times. -/
theorem Extends.of_le {run : Nat → Observed E ε α}
    (hstep : ∀ fuel, Extends exhausted (run fuel) (run (fuel + 1))) {fuel more : Nat}
    (hle : fuel ≤ more) (hfuel : (run fuel).result ≠ .error exhausted) : run more = run fuel := by
  induction hle with
  | refl => rfl
  | step _ ih => rw [hstep _ (by rw [ih]; exact hfuel), ih]

end Observed
