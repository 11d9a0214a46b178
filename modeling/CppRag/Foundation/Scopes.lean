import CppRag.Foundation.Observed

/-!
Resources with scopes. A computation that acquires one releases it when its scope ends, whether
it completes or fails, unless the error ends the process on the spot. One that is acquired before
its scope begins is lost when an error comes in between. A law says what may be acquired or lost
and what may be done with the resources held, the innermost first. A computation keeps the law
when it abides by it at every step, ends with what it began with, and loses at most one resource,
with the error that ends it.
-/
namespace Scopes
open Observed

inductive Deed (R E : Type) where
  | acquire (resource : R)
  | release (resource : R)
  /-- Nothing is left that could release it. -/
  | lose (resource : R)
  | event (event : E)
  deriving DecidableEq, Repr

/-- What an error does to the process. -/
inductive Fate where
  | unwinds
  | exits
  | dies
  deriving DecidableEq, Repr

structure Law (R E : Type) where
  MayAcquire : List R → R → Prop
  MayLose : R → Prop
  MayDo : List R → E → Prop

section Deeds
variable {R E : Type} (law : Law R E)

/-- From `held` the deeds are lawful, and leave the resources of the last list. -/
def Law.Follows : List R → List (Deed R E) → List R → Prop
  | held, [], left => left = held
  | held, .acquire r :: deeds, left => law.MayAcquire held r ∧ Follows (r :: held) deeds left
  | held, .release r :: deeds, left => ∃ rest, held = r :: rest ∧ Follows rest deeds left
  | held, .lose r :: deeds, left =>
      law.MayLose r ∧ ∃ rest, held = r :: rest ∧ Follows rest deeds left
  | held, .event e :: deeds, left => law.MayDo held e ∧ Follows held deeds left

/-- The law of the events that `f` names. -/
def Law.comap {F : Type} (f : F → E) : Law R F :=
  ⟨law.MayAcquire, law.MayLose, fun held e => law.MayDo held (f e)⟩

def lost? : Deed R E → Option R
  | .lose r => some r
  | _ => none

/-- The resources that are lost. -/
def lost (deeds : List (Deed R E)) : List R := deeds.filterMap lost?

theorem lost_append (before after : List (Deed R E)) :
    lost (before ++ after) = lost before ++ lost after := List.filterMap_append

theorem lost_events {F : Type} (f : F → E) (events : List F) :
    lost (events.map fun e => (.event (f e) : Deed R E)) = [] := by
  rw [lost, List.filterMap_eq_nil_iff]
  intro deed hdeed
  obtain ⟨e, -, rfl⟩ := List.mem_map.mp hdeed
  rfl

variable {law} {held left : List R}

theorem follows_append (before after : List (Deed R E)) : law.Follows held (before ++ after) left ↔
    ∃ between, law.Follows held before between ∧ law.Follows between after left := by
  induction before generalizing held with
  | nil => simp [Law.Follows]
  | cons deed deeds ih =>
      cases deed with
      | acquire r => simp only [List.cons_append, Law.Follows, ih, exists_and_left, and_assoc]
      | event e => simp only [List.cons_append, Law.Follows, ih, exists_and_left, and_assoc]
      | release r =>
          simp only [List.cons_append, Law.Follows, ih]
          constructor
          · rintro ⟨rest, hheld, between, hbefore, hafter⟩
            exact ⟨between, ⟨rest, hheld, hbefore⟩, hafter⟩
          · rintro ⟨between, ⟨rest, hheld, hbefore⟩, hafter⟩
            exact ⟨rest, hheld, between, hbefore, hafter⟩
      | lose r =>
          simp only [List.cons_append, Law.Follows, ih]
          constructor
          · rintro ⟨hlose, rest, hheld, between, hbefore, hafter⟩
            exact ⟨between, ⟨hlose, rest, hheld, hbefore⟩, hafter⟩
          · rintro ⟨between, ⟨hlose, rest, hheld, hbefore⟩, hafter⟩
            exact ⟨hlose, rest, hheld, between, hbefore, hafter⟩

theorem follows_events {F : Type} {f : F → E} {events : List F}
    (h : ∀ e ∈ events, law.MayDo held (f e)) :
    law.Follows held (events.map fun e => .event (f e)) held := by
  induction events with
  | nil => rfl
  | cons e events ih =>
      exact ⟨h e List.mem_cons_self, ih fun e he => h e (List.mem_cons_of_mem _ he)⟩

/-- What acquiring preserves, and giving back, holds of the resources at every moment. -/
theorem Law.Follows.always {I : List R → Prop} {deeds : List (Deed R E)}
    (h : law.Follows held deeds left)
    (hacquire : ∀ held r, I held → law.MayAcquire held r → I (r :: held))
    (hrelease : ∀ r held, I (r :: held) → I held) (hheld : I held) : I left := by
  induction deeds generalizing held with
  | nil => exact h ▸ hheld
  | cons deed deeds ih =>
      cases deed with
      | acquire r => exact ih h.2 (hacquire held r hheld h.1)
      | event e => exact ih h.2 hheld
      | release r =>
          obtain ⟨rest, rfl, hrest⟩ := h
          exact ih hrest (hrelease r rest hheld)
      | lose r =>
          obtain ⟨-, rest, rfl, hrest⟩ := h
          exact ih hrest (hrelease r rest hheld)

/-- Only what may be lost is. -/
theorem Law.Follows.mayLose {deeds : List (Deed R E)} (h : law.Follows held deeds left) :
    ∀ r ∈ lost deeds, law.MayLose r := by
  induction deeds generalizing held with
  | nil => exact nofun
  | cons deed deeds ih =>
      cases deed with
      | acquire r => exact ih h.2
      | event e => exact ih h.2
      | release r =>
          obtain ⟨rest, -, hrest⟩ := h
          exact ih hrest
      | lose r =>
          obtain ⟨hlose, rest, -, hrest⟩ := h
          exact List.forall_mem_cons.mpr ⟨hlose, ih hrest⟩

end Deeds

section Computations
variable {R E ε α β : Type} (fate : ε → Fate)

/-- The end of the scope of `r`. -/
def released (r : R) : Except ε α → List (Deed R E)
  | .ok _ => [.release r]
  | .error e => if fate e = .unwinds then [.release r] else []

/-- `body` with `r` held. -/
def holding (r : R) (body : Observed (Deed R E) ε α) : Observed (Deed R E) ε α :=
  ⟨.acquire r :: (body.events ++ released fate r body.result), body.result⟩

/-- `body` in the scope of `r`, which is held already. -/
def within (r : R) (body : Observed (Deed R E) ε α) : Observed (Deed R E) ε α :=
  ⟨body.events ++ released fate r body.result, body.result⟩

/-- `front` before the scope of `r`, which is held already. -/
def losing (r : R) (front : Observed (Deed R E) ε α) : Observed (Deed R E) ε α :=
  match front.result with
  | .ok _ => front
  | .error e => ⟨front.events ++ if fate e = .unwinds then [.lose r] else [], .error e⟩

/-- `try` with a `catch` of everything. -/
def catching (body : Observed E ε α) (handler : ε → Observed E ε α) : Observed E ε α :=
  match body.result with
  | .ok _ => body
  | .error e => ⟨body.events ++ (handler e).events, (handler e).result⟩

def acquire (r : R) : Observed (Deed R E) ε Unit := report (.acquire r)

def release (r : R) : Observed (Deed R E) ε Unit := report (.release r)

/-- A computation that acquires nothing. -/
def perform {F : Type} (f : F → E) (m : Observed F ε α) : Observed (Deed R E) ε α :=
  ⟨m.events.map fun e => .event (f e), m.result⟩

/-- The events of a computation that `keep` gives a name. -/
def erase {F : Type} (keep : E → Option F) (m : Observed (Deed R E) ε α) : Observed F ε α :=
  ⟨m.events.filterMap fun deed => match deed with
    | .event e => keep e
    | _ => none, m.result⟩

def Deed.map {F : Type} (f : F → E) : Deed R F → Deed R E
  | .acquire r => .acquire r
  | .release r => .release r
  | .lose r => .lose r
  | .event e => .event (f e)

theorem lost_map {F : Type} (f : F → E) (deeds : List (Deed R F)) :
    lost (deeds.map (Deed.map f)) = lost deeds := by
  rw [lost, List.filterMap_map]
  congr 1
  funext deed
  cases deed <;> rfl

theorem lost_released (r : R) (result : Except ε α) :
    lost (released fate r result : List (Deed R E)) = [] := by
  cases result with
  | ok a => rfl
  | error e =>
      rw [released]
      split <;> rfl

/-- Lawful throughout; what was held is held again at the end, unless the process dies, and the
process exits only with nothing held; a loss comes with an error that unwinds, and is the only
one. -/
structure Keeps (law : Law R E) (held : List R) (m : Observed (Deed R E) ε α) : Prop where
  follows : ∃ left, law.Follows held m.events left ∧
    ((∀ e, m.result = .error e → fate e ≠ .dies) → left = held)
  exits : ∀ e, m.result = .error e → fate e = .exits → held = []
  losses : lost m.events = [] ∨
    ∃ r e, lost m.events = [r] ∧ m.result = .error e ∧ fate e = .unwinds

variable {fate} {law : Law R E} {held : List R}

theorem keeps_pure (a : α) : Keeps fate law held (pure a) :=
  ⟨⟨held, rfl, fun _ => rfl⟩, nofun, .inl rfl⟩

theorem keeps_fail {e : ε} (h : fate e = .exits → held = []) :
    Keeps fate law held (fail e : Observed (Deed R E) ε α) :=
  ⟨⟨held, rfl, fun _ => rfl⟩, fun _ he => by cases he; exact h, .inl rfl⟩

theorem keeps_perform {F : Type} {f : F → E} {m : Observed F ε α}
    (hevents : ∀ e ∈ m.events, law.MayDo held (f e))
    (hexits : ∀ e, m.result = .error e → fate e = .exits → held = []) :
    Keeps fate law held (perform f m) :=
  ⟨⟨held, follows_events hevents, fun _ => rfl⟩, hexits, .inl (lost_events f m.events)⟩

theorem keeps_bind {m : Observed (Deed R E) ε α} {f : α → Observed (Deed R E) ε β}
    (hm : Keeps fate law held m) (hf : ∀ a, m.result = .ok a → Keeps fate law held (f a)) :
    Keeps fate law held (m >>= f) := by
  obtain ⟨⟨between, hfollows, hkept⟩, hexits, hlosses⟩ := hm
  cases hresult : m.result with
  | error e =>
      refine ⟨⟨between, ?_, fun h => hkept fun e' he' => ?_⟩, fun e' he' => ?_, ?_⟩
      · rwa [events_bind_of_error hresult]
      · rw [hresult] at he'
        cases he'
        exact h e (bind_of_error hresult f)
      · rw [bind_of_error hresult] at he'
        cases he'
        exact hexits e hresult
      · rw [events_bind_of_error hresult, bind_of_error hresult]
        refine hlosses.imp_right ?_
        rintro ⟨r, e', hlost, he', hunwinds⟩
        rw [hresult] at he'
        cases he'
        exact ⟨r, e, hlost, rfl, hunwinds⟩
  | ok a =>
      have hback : between = held := hkept fun e he => by rw [hresult] at he; cases he
      obtain ⟨⟨left, hafter, hleft⟩, hexits', hlosses'⟩ := hf a hresult
      rw [hback] at hfollows
      have hnone : lost m.events = [] := hlosses.resolve_right fun ⟨_, _, _, he, _⟩ => by
        rw [hresult] at he
        cases he
      refine ⟨⟨left, ?_, fun h => hleft fun e he => ?_⟩, fun e he => ?_, ?_⟩
      · rw [events_bind_of_ok hresult, follows_append]
        exact ⟨held, hfollows, hafter⟩
      · exact h e (by rw [bind_of_ok hresult, he])
      · rw [bind_of_ok hresult] at he
        exact hexits' e he
      · rw [events_bind_of_ok hresult, bind_of_ok hresult, lost_append, hnone, List.nil_append]
        exact hlosses'

theorem perform_bind {F : Type} (f : F → E) (m : Observed F ε α) (g : α → Observed F ε β) :
    (perform f (m >>= g) : Observed (Deed R E) ε β) =
      perform f m >>= fun a => perform f (g a) :=
  mapEvents_bind _ m g

/-- The rule of a scope. -/
theorem keeps_holding {r : R} {body : Observed (Deed R E) ε α} (hacquire : law.MayAcquire held r)
    (h : Keeps fate law (r :: held) body) : Keeps fate law held (holding fate r body) := by
  obtain ⟨⟨left, hfollows, hleft⟩, hexits, hlosses⟩ := h
  have hstays : ∀ e, body.result = .error e → fate e ≠ .exits := fun e he hexit =>
    absurd (hexits e he hexit) (List.cons_ne_nil _ _)
  have hrelease : law.Follows (r :: held) [.release r] held := ⟨held, rfl, rfl⟩
  have hlost : lost (holding fate r body).events = lost body.events := by
    change lost (body.events ++ released fate r body.result) = _
    rw [lost_append, lost_released, List.append_nil]
  refine ⟨?_, fun e he hexit => absurd hexit (hstays e he), by rw [hlost]; exact hlosses⟩
  cases hresult : body.result with
  | ok a =>
      have hback : left = r :: held := hleft fun e he => by rw [hresult] at he; cases he
      rw [hback] at hfollows
      refine ⟨held, ⟨hacquire, (follows_append _ _).mpr ⟨_, hfollows, ?_⟩⟩, fun _ => rfl⟩
      rw [hresult]
      exact hrelease
  | error e =>
      cases hfate : fate e with
      | exits => exact absurd hfate (hstays e hresult)
      | dies =>
          refine ⟨left, ⟨hacquire, (follows_append _ _).mpr ⟨left, hfollows, ?_⟩⟩,
            fun halive => absurd hfate (halive e hresult)⟩
          rw [hresult, released, hfate]
          exact rfl
      | unwinds =>
          have hback : left = r :: held := hleft fun e' he' => by
            rw [hresult] at he'
            cases he'
            rw [hfate]
            exact nofun
          rw [hback] at hfollows
          refine ⟨held, ⟨hacquire, (follows_append _ _).mpr ⟨_, hfollows, ?_⟩⟩, fun _ => rfl⟩
          rw [hresult, released, hfate]
          exact hrelease

/-- Renaming events and errors. -/
theorem keeps_map {F δ : Type} {f : F → E} {g : δ → ε} {m : Observed (Deed R F) δ α}
    (h : Keeps (fun e => fate (g e)) (law.comap f) held m) :
    Keeps fate law held ((m.mapEvents (Deed.map f)).mapError g) := by
  have hmap : ∀ (deeds : List (Deed R F)) (held left : List R),
      (law.comap f).Follows held deeds left → law.Follows held (deeds.map (Deed.map f)) left := by
    intro deeds
    induction deeds with
    | nil => exact fun held left h => h
    | cons deed deeds ih =>
        intro held left h
        cases deed with
        | acquire r => exact ⟨h.1, ih _ _ h.2⟩
        | event e => exact ⟨h.1, ih _ _ h.2⟩
        | release r =>
            obtain ⟨rest, hheld, hrest⟩ := h
            exact ⟨rest, hheld, ih _ _ hrest⟩
        | lose r =>
            obtain ⟨hlose, rest, hheld, hrest⟩ := h
            exact ⟨hlose, rest, hheld, ih _ _ hrest⟩
  have hresult : ∀ e, ((m.mapEvents (Deed.map f)).mapError g).result = .error e ↔
      ∃ d, m.result = .error d ∧ g d = e := by
    intro e
    change m.result.mapError g = _ ↔ _
    cases m.result <;> simp [Except.mapError]
  obtain ⟨⟨left, hfollows, hleft⟩, hexits, hlosses⟩ := h
  refine ⟨⟨left, hmap _ _ _ hfollows, fun h => hleft fun d hd => ?_⟩, fun e he hexit => ?_, ?_⟩
  · exact h (g d) ((hresult _).mpr ⟨d, hd, rfl⟩)
  · obtain ⟨d, hd, rfl⟩ := (hresult e).mp he
    exact hexits d hd hexit
  · change lost (m.events.map (Deed.map f)) = [] ∨ ∃ r e, lost (m.events.map (Deed.map f)) = [r] ∧ _
    rw [lost_map]
    refine hlosses.imp_right ?_
    rintro ⟨r, d, hlost, hd, hunwinds⟩
    exact ⟨r, g d, hlost, (hresult _).mpr ⟨d, hd, rfl⟩, hunwinds⟩

/-- A resource is held, something is done before its scope begins, and then comes the scope. -/
theorem keeps_exposed {r : R} {front : Observed (Deed R E) ε α}
    {body : α → Observed (Deed R E) ε β} (hacquire : law.MayAcquire held r)
    (hfront : Keeps fate law (r :: held) front)
    (hfails : ∀ e, front.result = .error e →
      fate e = .unwinds ∧ law.MayLose r ∧ lost front.events = [])
    (hbody : ∀ a, front.result = .ok a → Keeps fate law (r :: held) (body a)) :
    Keeps fate law held (do
      acquire r
      let a ← losing fate r front
      within fate r (body a)) := by
  cases hresult : front.result with
  | ok a =>
      have hscope : (do
          acquire r
          let a ← losing fate r front
          within fate r (body a)) = holding fate r (front >>= body) := by
        obtain ⟨events, result⟩ := front
        cases hresult
        simp [losing, within, holding, acquire, report, bind]
      rw [hscope]
      exact keeps_holding hacquire (keeps_bind hfront hbody)
  | error e =>
      obtain ⟨hunwinds, hlose, hnone⟩ := hfails e hresult
      obtain ⟨left, hfollows, hleft⟩ := hfront.follows
      have hback : left = r :: held := hleft fun e' he' => by
        rw [hresult] at he'
        cases he'
        rw [hunwinds]
        intro hdies
        cases hdies
      rw [hback] at hfollows
      have hlost : (do
          acquire r
          let a ← losing fate r front
          within fate r (body a)) = ⟨.acquire r :: (front.events ++ [.lose r]), .error e⟩ := by
        obtain ⟨events, result⟩ := front
        cases hresult
        simp [losing, acquire, report, bind, hunwinds]
      rw [hlost]
      refine ⟨⟨held, ⟨hacquire, (follows_append _ _).mpr ⟨_, hfollows, hlose, held, rfl, rfl⟩⟩,
        fun _ => rfl⟩, fun e' he' hexit => ?_, .inr ⟨r, e, ?_, rfl, hunwinds⟩⟩
      · cases he'
        rw [hunwinds] at hexit
        cases hexit
      · change lost (front.events ++ [.lose r]) = [r]
        rw [lost_append, hnone]
        rfl

/-- An event between an acquisition and a release is a scope of its own. -/
theorem event_held {F : Type} (r : R) (f : F → E) (e : F)
    (next : Observed (Deed R E) ε α) :
    (do
      acquire r
      perform f (report e)
      release r
      next) = holding fate r (perform f (report e)) >>= fun _ => next := rfl

/-- Releasing by hand on both paths is what two scopes do, when every error can be caught. -/
theorem within_both_by_hand (hfate : ∀ e, fate e = .unwinds) (outer inner : R)
    (body : Observed (Deed R E) ε α) :
    (do
      acquire inner
      let a ← catching body fun e => do
        release inner
        release outer
        fail e
      release inner
      release outer
      pure a) = within fate outer (holding fate inner body) := by
  obtain ⟨events, result⟩ := body
  cases result with
  | ok a => simp [within, holding, released, catching, acquire, release, report, bind, pure]
  | error e =>
      simp [within, holding, released, catching, acquire, release, report, bind, fail, hfate]

/-! What is left without the resources. -/

section Erase
variable {F : Type} {keep : E → Option F}

theorem erase_pure (a : α) : erase keep (pure a : Observed (Deed R E) ε α) = pure a := rfl

theorem erase_bind (m : Observed (Deed R E) ε α) (f : α → Observed (Deed R E) ε β) :
    erase keep (m >>= f) = erase keep m >>= fun a => erase keep (f a) := by
  obtain ⟨events, result⟩ := m
  cases result with
  | error e => rfl
  | ok a =>
      simp only [bind, erase, List.filterMap_append]

theorem erase_within (r : R) (body : Observed (Deed R E) ε α) :
    erase keep (within fate r body) = erase keep body := by
  have hreleased : (released fate r body.result : List (Deed R E)).filterMap (fun deed =>
      match deed with
      | .event e => keep e
      | _ => none) = [] := by
    cases body.result with
    | ok a => rfl
    | error e =>
        rw [released]
        split <;> rfl
  simp only [erase, within, List.filterMap_append, hreleased, List.append_nil]

theorem erase_holding (r : R) (body : Observed (Deed R E) ε α) :
    erase keep (holding fate r body) = erase keep body := erase_within r body

theorem erase_losing (r : R) (front : Observed (Deed R E) ε α) :
    erase keep (losing fate r front) = erase keep front := by
  obtain ⟨events, result⟩ := front
  cases result with
  | ok a => rfl
  | error e =>
      simp only [erase, losing, List.filterMap_append]
      split <;> simp

theorem erase_acquire (r : R) :
    erase keep (acquire r : Observed (Deed R E) ε Unit) = pure () := rfl

theorem erase_release (r : R) :
    erase keep (release r : Observed (Deed R E) ε Unit) = pure () := rfl

variable (keep) in
theorem erase_perform {G : Type} (f : G → E) (g : G → F) (h : ∀ e, keep (f e) = some (g e))
    (m : Observed G ε α) :
    erase keep (perform f m : Observed (Deed R E) ε α) = m.mapEvents g := by
  simp only [erase, perform, mapEvents, List.filterMap_map, Function.comp_def, h,
    List.filterMap_eq_map']

variable (keep) in
/-- Renaming events before and after. -/
theorem erase_map {G H : Type} (f : G → E) (g : H → F) {keep' : G → Option H}
    (h : ∀ e, keep (f e) = (keep' e).map g) (m : Observed (Deed R G) ε α) :
    erase keep (m.mapEvents (Deed.map f)) = (erase keep' m).mapEvents g := by
  simp only [erase, mapEvents, List.filterMap_map, List.map_filterMap]
  congr 2
  funext deed
  cases deed with
  | event e => exact h e
  | _ => rfl

end Erase

end Computations

end Scopes
