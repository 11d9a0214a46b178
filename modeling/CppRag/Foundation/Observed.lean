import Mathlib.Data.List.Basic

/-!
Computations that report the events they perform and may stop with an error.

A program over memory is modelled by the list of its accesses and its outcome.
`Meets P m Q` is the partial-correctness triple of such a program: every event it
reports satisfies `P`, whatever the outcome, and a normal result satisfies `Q`.
The rules below follow the program's structure, one for each combinator.
-/
structure Observed (E ε α : Type) where
  events : List E
  result : Except ε α

namespace Observed
variable {E ε α β : Type}

instance : Monad (Observed E ε) where
  pure a := ⟨[], .ok a⟩
  bind m f :=
    match m.result with
    | .ok a => ⟨m.events ++ (f a).events, (f a).result⟩
    | .error e => ⟨m.events, .error e⟩

def report (event : E) : Observed E ε Unit := ⟨[event], .ok ()⟩

def fail (error : ε) : Observed E ε α := ⟨[], .error error⟩

def failIf (condition : Bool) (error : ε) : Observed E ε Unit :=
  if condition then fail error else pure ()

/-- A computation without events. -/
def ofResult (result : Except ε α) : Observed E ε α := ⟨[], result⟩

/-- The same computation with its events renamed. -/
def mapEvents {F : Type} (f : E → F) (m : Observed E ε α) : Observed F ε α :=
  ⟨m.events.map f, m.result⟩

/-- The same computation with its errors renamed. -/
def mapError {δ : Type} (f : ε → δ) (m : Observed E ε α) : Observed E δ α :=
  ⟨m.events, m.result.mapError f⟩

/-- Short-circuit disjunction: the right operand runs only when the left is false. -/
def orElse (left right : Observed E ε Bool) : Observed E ε Bool :=
  left >>= fun b => if b then pure true else right

/-- Stops with the error when the effectful condition holds. -/
def failWhen (condition : Observed E ε Bool) (error : ε) : Observed E ε Unit :=
  condition >>= fun b => failIf b error

/-- `body 0`, `body 1`, ..., `body (n - 1)`, stopping at the first error. -/
def forRange : Nat → (Nat → Observed E ε Unit) → Observed E ε Unit
  | 0, _ => pure ()
  | n + 1, body => forRange n body >>= fun _ => body n

/-- The state after `body 0`, ..., `body (n - 1)`, each given the state before it. -/
def foldRange {σ : Type} : Nat → σ → (Nat → σ → Observed E ε σ) → Observed E ε σ
  | 0, s, _ => pure s
  | n + 1, s, body => foldRange n s body >>= body n

/-! Results of the combinators. -/

@[simp] theorem result_pure (a : α) : (pure a : Observed E ε α).result = .ok a := rfl

@[simp] theorem result_report (event : E) :
    (report event : Observed E ε Unit).result = .ok () := rfl

theorem bind_of_ok {m : Observed E ε α} {a : α} (h : m.result = .ok a)
    (f : α → Observed E ε β) : (m >>= f).result = (f a).result := by
  simp only [bind, h]

theorem bind_of_error {m : Observed E ε α} {e : ε} (h : m.result = .error e)
    (f : α → Observed E ε β) : (m >>= f).result = .error e := by
  simp only [bind, h]

theorem events_bind_of_ok {m : Observed E ε α} {a : α} (h : m.result = .ok a)
    (f : α → Observed E ε β) : (m >>= f).events = m.events ++ (f a).events := by
  simp only [bind, h]

theorem events_bind_of_error {m : Observed E ε α} {e : ε} (h : m.result = .error e)
    (f : α → Observed E ε β) : (m >>= f).events = m.events := by
  simp only [bind, h]

theorem pure_bind (a : α) (f : α → Observed E ε β) :
    ((pure a : Observed E ε α) >>= f) = f a := rfl

theorem bind_bind {γ : Type} (m : Observed E ε α) (f : α → Observed E ε β)
    (g : β → Observed E ε γ) : m >>= f >>= g = m >>= fun a => f a >>= g := by
  obtain ⟨events, result⟩ := m
  cases result with
  | error e => rfl
  | ok a =>
      simp only [bind]
      cases (f a).result with
      | error e => rfl
      | ok b => simp only [List.append_assoc]

theorem mapError_bind {δ : Type} (g : ε → δ) (m : Observed E ε α) (f : α → Observed E ε β) :
    (m >>= f).mapError g = m.mapError g >>= fun a => (f a).mapError g := by
  obtain ⟨events, result⟩ := m
  cases result <;> rfl

theorem mapEvents_bind {F : Type} (g : E → F) (m : Observed E ε α) (f : α → Observed E ε β) :
    (m >>= f).mapEvents g = m.mapEvents g >>= fun a => (f a).mapEvents g := by
  obtain ⟨events, result⟩ := m
  cases result with
  | error e => rfl
  | ok a => simp only [bind, mapEvents, List.map_append]

theorem bind_ok_iff (m : Observed E ε α) (f : α → Observed E ε β) (b : β) :
    (m >>= f).result = .ok b ↔ ∃ a, m.result = .ok a ∧ (f a).result = .ok b := by
  cases h : m.result with
  | error e => simp [bind, h]
  | ok a => simp [bind, h]

@[simp] theorem pure_bind_result (a : α) (f : α → Observed E ε β) :
    ((pure a : Observed E ε α) >>= f).result = (f a).result := rfl

@[simp] theorem report_bind_result (event : E) (f : Unit → Observed E ε β) :
    (report event >>= f).result = (f ()).result := rfl

@[simp] theorem failIf_ok_iff (condition : Bool) (error : ε) (u : Unit) :
    (failIf condition error : Observed E ε Unit).result = .ok u ↔ condition = false := by
  cases condition <;> simp [failIf, fail, pure]

@[simp] theorem failWhen_ok_iff (condition : Observed E ε Bool) (error : ε) (u : Unit) :
    (failWhen condition error).result = .ok u ↔ condition.result = .ok false := by
  rw [failWhen, bind_ok_iff]
  constructor
  · rintro ⟨b, hc, hb⟩
    rwa [(failIf_ok_iff b error u).mp hb] at hc
  · intro hc
    exact ⟨false, hc, (failIf_ok_iff false error u).mpr rfl⟩

@[simp] theorem fail_ok_iff (error : ε) (a : α) :
    (fail error : Observed E ε α).result = .ok a ↔ False := by
  simp [fail]

@[simp] theorem orElse_false_iff (left right : Observed E ε Bool) :
    (orElse left right).result = .ok false ↔
      left.result = .ok false ∧ right.result = .ok false := by
  rw [orElse, bind_ok_iff]
  constructor
  · rintro ⟨b, hl, hr⟩
    cases b with
    | true => simp at hr
    | false => exact ⟨hl, by simpa using hr⟩
  · rintro ⟨hl, hr⟩
    exact ⟨false, hl, by simpa using hr⟩

@[simp] theorem forRange_ok_iff (n : Nat) (body : Nat → Observed E ε Unit) (u : Unit) :
    (forRange n body).result = .ok u ↔ ∀ i, i < n → (body i).result = .ok () := by
  induction n with
  | zero => simp [forRange]
  | succ n ih =>
      rw [forRange, bind_ok_iff]
      constructor
      · rintro ⟨_, hn, hb⟩ i hi
        rcases Nat.lt_succ_iff_lt_or_eq.mp hi with hlt | rfl
        · exact ih.mp hn i hlt
        · exact hb
      · intro h
        exact ⟨(), ih.mpr (fun i hi => h i (Nat.lt_succ_of_lt hi)), h n (Nat.lt_succ_self n)⟩

theorem foldRange_result {σ : Type} (n : Nat) (s : σ) {body : Nat → σ → Observed E ε σ}
    {f : σ → Nat → σ} (h : ∀ i s, i < n → (body i s).result = .ok (f s i)) :
    (foldRange n s body).result = .ok ((List.range n).foldl f s) := by
  induction n with
  | zero => rfl
  | succ n ih =>
      rw [foldRange, bind_of_ok (ih fun i s hi => h i s (Nat.lt_succ_of_lt hi)),
        h n _ (Nat.lt_succ_self n), List.range_succ, List.foldl_append]
      rfl

/-! The triple and its rules. -/

def Meets (P : E → Prop) (m : Observed E ε α) (Q : α → Prop) : Prop :=
  (∀ event ∈ m.events, P event) ∧ ∀ a, m.result = .ok a → Q a

variable {P : E → Prop}

theorem Meets.imp {m : Observed E ε α} {Q R : α → Prop} (h : Meets P m Q)
    (hqr : ∀ a, Q a → R a) : Meets P m R :=
  ⟨h.1, fun a ha => hqr a (h.2 a ha)⟩

theorem meets_pure {Q : α → Prop} {a : α} (h : Q a) :
    Meets P (pure a : Observed E ε α) Q := by
  refine ⟨by simp [pure], ?_⟩
  intro b hb
  cases hb
  exact h

theorem meets_report {event : E} {Q : Unit → Prop} (h : P event) (hq : Q ()) :
    Meets P (report event : Observed E ε Unit) Q := by
  refine ⟨?_, fun _ _ => hq⟩
  simpa [report] using h

theorem meets_fail (error : ε) (Q : α → Prop) :
    Meets P (fail error : Observed E ε α) Q := by
  refine ⟨by simp [fail], ?_⟩
  intro a ha
  exact absurd ha (by simp)

theorem meets_ofResult (result : Except ε α) :
    Meets P (ofResult result : Observed E ε α) (fun a => result = .ok a) :=
  ⟨nofun, fun _ h => h⟩

theorem meets_failIf (condition : Bool) (error : ε) :
    Meets P (failIf condition error : Observed E ε Unit) (fun _ => condition = false) := by
  cases condition with
  | true => exact meets_fail error _
  | false => exact meets_pure rfl

theorem meets_bind {m : Observed E ε α} {f : α → Observed E ε β}
    {Q : α → Prop} {R : β → Prop} (hm : Meets P m Q)
    (hf : ∀ a, Q a → Meets P (f a) R) : Meets P (m >>= f) R := by
  cases h : m.result with
  | error e =>
      refine ⟨?_, ?_⟩
      · simpa only [bind, h] using hm.1
      · intro b hb
        rw [bind_ok_iff, h] at hb
        obtain ⟨a, ha, _⟩ := hb
        cases ha
  | ok a =>
      have hq := hf a (hm.2 a h)
      refine ⟨?_, ?_⟩
      · intro event he
        simp only [bind, h, List.mem_append] at he
        exact he.elim (hm.1 event) (hq.1 event)
      · intro b hb
        exact hq.2 b (by rwa [bind_of_ok h] at hb)

/-- A condition that must be false: each operand is checked knowing that the
operands before it were false. -/
theorem meets_orElse {left right : Observed E ε Bool} {A B : Prop}
    (hl : Meets P left (fun b => b = false → A))
    (hr : A → Meets P right (fun b => b = false → B)) :
    Meets P (orElse left right) (fun b => b = false → A ∧ B) := by
  refine meets_bind hl ?_
  intro b hb
  cases b with
  | true => exact meets_pure (fun h => by cases h)
  | false =>
      have ha : A := hb rfl
      exact (hr ha).imp (fun c hc h => ⟨ha, hc h⟩)

theorem meets_failWhen {condition : Observed E ε Bool} {A : Prop} (error : ε)
    (h : Meets P condition (fun b => b = false → A)) :
    Meets P (failWhen condition error) (fun _ => A) :=
  meets_bind h fun b hb => (meets_failIf b error).imp fun _ hf => hb hf

theorem meets_forRange {n : Nat} {body : Nat → Observed E ε Unit} {Q : Nat → Prop}
    (h : ∀ i, i < n → Meets P (body i) (fun _ => Q i)) :
    Meets P (forRange n body) (fun _ => ∀ i, i < n → Q i) := by
  induction n with
  | zero => exact meets_pure (fun i hi => absurd hi (Nat.not_lt_zero i))
  | succ n ih =>
      refine meets_bind (ih (fun i hi => h i (Nat.lt_succ_of_lt hi))) ?_
      intro _ hn
      refine (h n (Nat.lt_succ_self n)).imp ?_
      intro _ hq i hi
      rcases Nat.lt_succ_iff_lt_or_eq.mp hi with hlt | rfl
      · exact hn i hlt
      · exact hq

/-! Computations that return normally. -/

/-- Every event satisfies `P` and the outcome is the value `a`. -/
def Returns (P : E → Prop) (m : Observed E ε α) (a : α) : Prop :=
  (∀ event ∈ m.events, P event) ∧ m.result = .ok a

theorem returns_pure {a : α} : Returns P (pure a : Observed E ε α) a :=
  ⟨by simp [pure], rfl⟩

theorem returns_report {event : E} (h : P event) :
    Returns P (report event : Observed E ε Unit) () :=
  ⟨by simpa [report] using h, rfl⟩

theorem returns_failIf {condition : Bool} {error : ε} (h : condition = false) :
    Returns P (failIf condition error : Observed E ε Unit) () := by
  rw [failIf, h]
  exact returns_pure

theorem returns_bind {m : Observed E ε α} {f : α → Observed E ε β} {a : α} {b : β}
    (hm : Returns P m a) (hf : Returns P (f a) b) : Returns P (m >>= f) b := by
  refine ⟨fun event he => ?_, by rw [bind_of_ok hm.2]; exact hf.2⟩
  simp only [bind, hm.2, List.mem_append] at he
  exact he.elim (hm.1 event) (hf.1 event)

theorem Returns.meets {m : Observed E ε α} {a : α} {Q : α → Prop} (h : Returns P m a)
    (ha : Q a) : Meets P m Q :=
  ⟨h.1, fun b hb => by rwa [← Except.ok.inj (h.2.symm.trans hb)]⟩

end Observed
