import Mathlib.Data.List.Basic

/-!
Computations that change a state and may stop with an error; the state they have reached
stays when they do. The rules say how each combinator ends and what state it leaves.
-/
abbrev Interactive (σ ε α : Type) : Type := ExceptT ε (StateM σ) α

namespace Interactive
variable {σ ε α β : Type}

/-- How the computation ends, and the state it leaves. -/
def exec (m : Interactive σ ε α) (s : σ) : Except ε α × σ := m.run.run s

/-- `body` and then `cleanup`, which also runs when `body` stops with an error. -/
def withCleanup (body : Interactive σ ε α) (cleanup : Interactive σ ε Unit) :
    Interactive σ ε α :=
  tryCatch
    (do
      let a ← body
      cleanup
      pure a)
    fun error => do
      cleanup
      throw error

section Rules
variable {m : Interactive σ ε α} {f : α → Interactive σ ε β} {s s' : σ} {a : α} {e : ε}

@[simp] theorem exec_pure (a : α) (s : σ) :
    exec (pure a : Interactive σ ε α) s = (.ok a, s) := rfl

@[simp] theorem exec_throw (e : ε) (s : σ) :
    exec (throw e : Interactive σ ε α) s = (.error e, s) := rfl

@[simp] theorem exec_modify (g : σ → σ) (s : σ) :
    exec (modify g : Interactive σ ε Unit) s = (.ok (), g s) := rfl

@[simp] theorem exec_get (s : σ) : exec (get : Interactive σ ε σ) s = (.ok s, s) := rfl

@[simp] theorem exec_ofExcept (result : Except ε α) (s : σ) :
    exec (MonadExcept.ofExcept result : Interactive σ ε α) s = (result, s) := by
  cases result <;> rfl

theorem exec_bind_ok (h : exec m s = (.ok a, s')) : exec (m >>= f) s = exec (f a) s' := by
  simp only [exec, ExceptT.run, StateT.run] at h ⊢
  simp only [bind, ExceptT.bind, ExceptT.mk, StateT.bind, h]
  rfl

theorem exec_bind_error (h : exec m s = (.error e, s')) :
    exec (m >>= f) s = (.error e, s') := by
  simp only [exec, ExceptT.run, StateT.run] at h ⊢
  simp only [bind, ExceptT.bind, ExceptT.mk, StateT.bind, h]
  rfl

/-- A computation whose result is only renamed. -/
theorem exec_bind_pure (m : Interactive σ ε α) (g : α → β) (s : σ) :
    exec (m >>= fun a => pure (g a)) s = ((exec m s).1.map g, (exec m s).2) := by
  cases hm : exec m s with
  | mk result s' =>
      cases result with
      | ok a => exact exec_bind_ok hm
      | error e => exact exec_bind_error hm

end Rules

/-- A cleanup that cannot fail leaves the result of the body as it is. -/
theorem exec_withCleanup {body : Interactive σ ε α} {cleanup : Interactive σ ε Unit}
    {clean : σ → σ} (h : ∀ s, exec cleanup s = (.ok (), clean s)) (s : σ) :
    exec (withCleanup body cleanup) s = ((exec body s).1, clean (exec body s).2) := by
  have hcatch : ∀ (m : Interactive σ ε α) (handler : ε → Interactive σ ε α),
      exec (tryCatch m handler) s = match exec m s with
        | (.ok a, s') => (.ok a, s')
        | (.error e, s') => exec (handler e) s' := by
    intro m handler
    simp only [exec, ExceptT.run, StateT.run, tryCatch, tryCatchThe, MonadExceptOf.tryCatch,
      ExceptT.tryCatch, ExceptT.mk, bind, StateT.bind]
    cases m s with
    | mk result s' => cases result <;> rfl
  rw [withCleanup, hcatch]
  cases hbody : exec body s with
  | mk result s' =>
      cases result with
      | ok a => rw [exec_bind_ok hbody, exec_bind_ok (h s')]; rfl
      | error e =>
          rw [exec_bind_error hbody]
          change exec _ s' = _
          rw [exec_bind_ok (h s')]
          rfl

end Interactive
