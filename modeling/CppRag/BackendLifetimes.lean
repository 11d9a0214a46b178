import CppRag.Foundation.SharedResource

/-!
`LlamaBackendGuard` and the lifetimes of the `Impl` objects that hold one: their constructors
with every way to fail, their use, and their destructors. Objects are created and destroyed
by any number of threads; the guard's mutex, its count and the calls of llama.cpp are steps of
their own. The moves of the classes hand an `Impl` over and do not touch it. The count is an `int`:
what is said is said of runs in which fewer than 2^31 guards are there at a time.
-/
namespace CppRag
open SharedResource

inductive ImplKind where
  | embedder
  | generator
  deriving DecidableEq, Repr

/-- What the constructor of an `Impl` meets. -/
structure LoadAnswers where
  /-- The options of a generator pass its checks, and its model file is there. -/
  accepted : Bool
  /-- `llama_model_load_from_file` returns a model. -/
  modelLoaded : Bool
  /-- `llama_init_from_model` returns a context. -/
  contextCreated : Bool
  /-- The model of an embedder has an output dimension and its context pools. -/
  pooled : Bool
  deriving DecidableEq, Repr

/-- Where an object is between the construction and the destruction of its guard. -/
inductive ImplPhase where
  | guarded
  | loaded
  | opened
  | alive
  /-- At `llama_free`, in the destructor or before the constructor throws. -/
  | closing
  /-- At `llama_model_free`. -/
  | unloading
  | released
  deriving DecidableEq, Repr

structure Impl where
  kind : ImplKind
  answers : LoadAnswers
  phase : ImplPhase
  deriving DecidableEq, Repr

inductive ImplCall where
  | internal
  | loadModel
  | createContext
  | use
  | freeContext
  | freeModel
  deriving DecidableEq, Repr

/-- What the constructor, the destructor and the failing constructor do next. -/
def Impl.next (impl : Impl) : Option (ImplCall × ImplPhase) :=
  match impl.phase with
  | .guarded =>
      if impl.kind = .generator ∧ impl.answers.accepted = false then some (.internal, .released)
      else if impl.answers.modelLoaded then some (.loadModel, .loaded)
      else some (.internal, .released)
  | .loaded =>
      if impl.answers.contextCreated then some (.createContext, .opened)
      else some (.internal, .unloading)
  | .opened =>
      if impl.kind = .embedder ∧ impl.answers.pooled = false then some (.internal, .closing)
      else some (.internal, .alive)
  | .closing => some (.freeContext, .unloading)
  | .unloading => some (.freeModel, .released)
  | .alive | .released => none

inductive Impl.Step : Impl → ImplCall → Impl → Prop
  | next {impl : Impl} {call : ImplCall} {phase : ImplPhase}
      (hnext : impl.next = some (call, phase)) : Step impl call { impl with phase := phase }
  | use {impl : Impl} (halive : impl.phase = .alive) : Step impl .use impl
  | destroy {impl : Impl} (halive : impl.phase = .alive) :
      Step impl .internal { impl with phase := .closing }

/-- The objects of a program, by their numbers, as users of the backend. -/
def implClient {ι : Type} (objects : ι → ImplKind × LoadAnswers) : Client ι Impl ImplCall where
  start i := ⟨(objects i).1, (objects i).2, .guarded⟩
  Step := Impl.Step
  Done impl := impl.phase = .released

/-! What an object may do with llama.cpp. -/

inductive Holding where
  | nothing
  | model
  | context
  deriving DecidableEq, Repr

/-- A context is created from a loaded model and freed before it, and only a context is used. -/
def implProtocol : Protocol Holding ImplCall where
  idle := .nothing
  next
    | holding, .internal => some holding
    | .nothing, .loadModel => some .model
    | .model, .createContext => some .context
    | .context, .use => some .context
    | .context, .freeContext => some .model
    | .model, .freeModel => some .nothing
    | _, _ => none

/-- The pointers of an object that are not null; an `Impl` with a context has its model. -/
def Impl.holding (impl : Impl) : Holding :=
  match impl.phase with
  | .guarded | .released => .nothing
  | .loaded | .unloading => .model
  | .opened | .alive | .closing => .context

section Lifetimes
variable {ι : Type} [DecidableEq ι] {objects : ι → ImplKind × LoadAnswers}

omit [DecidableEq ι] in
theorem impl_follows : (implClient objects).Follows implProtocol Impl.holding where
  start _ := rfl
  done := by
    rintro ⟨kind, answers, phase⟩ hdone
    cases hdone
    rfl
  step := by
    rintro ⟨kind, answers, phase⟩ call impl' hstep
    cases hstep with
    | use halive => cases halive; rfl
    | destroy halive => cases halive; rfl
    | next hnext =>
        cases phase with
        | guarded =>
            simp only [Impl.next] at hnext
            split at hnext
            · cases hnext; rfl
            · split at hnext <;> (cases hnext; rfl)
        | loaded =>
            simp only [Impl.next] at hnext
            split at hnext <;> (cases hnext; rfl)
        | opened =>
            simp only [Impl.next] at hnext
            split at hnext <;> (cases hnext; rfl)
        | closing => cases hnext; rfl
        | unloading => cases hnext; rfl
        | alive => cases hnext
        | released => cases hnext

/-- A bound on the steps an object takes until its guard is destroyed. -/
def ImplPhase.remaining : ImplPhase → Nat
  | .released => 0
  | .unloading => 1
  | .closing => 2
  | .alive => 3
  | .opened => 4
  | .loaded => 5
  | .guarded => 6

omit [DecidableEq ι] in
theorem impl_ends : (implClient objects).Ends fun impl => impl.phase.remaining := by
  rintro ⟨kind, answers, phase⟩
  have hnext : ∀ call phase', Impl.next ⟨kind, answers, phase⟩ = some (call, phase') →
      phase'.remaining < phase.remaining →
      ∃ event impl', (implClient objects).Step ⟨kind, answers, phase⟩ event impl' ∧
        impl'.phase.remaining < phase.remaining :=
    fun call phase' heq hless => ⟨call, _, .next heq, hless⟩
  cases phase with
  | released => exact .inl rfl
  | alive => exact .inr ⟨_, _, .destroy rfl, Nat.lt_succ_self 2⟩
  | unloading => exact .inr (hnext _ _ rfl (by decide))
  | closing => exact .inr (hnext _ _ rfl (by decide))
  | guarded =>
      by_cases hrefused : kind = .generator ∧ answers.accepted = false
      · exact .inr (hnext .internal .released (if_pos hrefused) (by decide))
      · cases hloaded : answers.modelLoaded with
        | true =>
            refine .inr (hnext .loadModel .loaded ?_ (by decide))
            simp only [Impl.next, if_neg hrefused, hloaded, if_true]
        | false =>
            refine .inr (hnext .internal .released ?_ (by decide))
            simp only [Impl.next, if_neg hrefused, hloaded, Bool.false_eq_true, if_false]
  | loaded =>
      cases hcreated : answers.contextCreated with
      | true => exact .inr (hnext .createContext .opened (if_pos hcreated) (by decide))
      | false =>
          refine .inr (hnext .internal .unloading ?_ (by decide))
          simp only [Impl.next, hcreated, Bool.false_eq_true, if_false]
  | opened =>
      by_cases hunpooled : kind = .embedder ∧ answers.pooled = false
      · exact .inr (hnext .internal .closing (if_pos hunpooled) (by decide))
      · exact .inr (hnext .internal .alive (if_neg hunpooled) (by decide))

/-- Whatever the threads do and llama.cpp answers, while fewer than 2^31 guards are there at a
time: one of them at a time holds the mutex, and the count is that of the guards; the backend is
initialised and freed in turns; every model and context is created, used and freed in order while
the backend is there; and an object that is gone has left nothing. -/
theorem lifetimes_lawful {events : List (Event ι ImplCall)} {s : State ι Impl}
    (hrun : Run (implClient objects) State.Fits .start events s) :
    (∀ i j, (s.phases i).locked = true → (s.phases j).locked = true → i = j) ∧
    (∃ guards : Finset ι, (∀ i, i ∈ guards ↔ (s.phases i).counted = true) ∧
      s.references.toInt = guards.card) ∧
    Shared.Run implProtocol (.start implProtocol) events
      (s.shared implProtocol Impl.holding) ∧
    (∀ i, s.phases i = .outside →
      (s.shared implProtocol Impl.holding).holdings i = .nothing) ∧
    ((∀ i, s.phases i = .outside) →
      s.shared implProtocol Impl.holding = .start implProtocol) := by
  have hsafe := hrun.safe safe_start
  refine ⟨fun i j hi hj => hsafe.locked_unique hi hj, hsafe.users, ?_, fun i hi => ?_,
    fun hout => hsafe.shared_of_outside hout⟩
  · have hshared := hrun.shared safe_start impl_follows
    rwa [safe_start.shared_of_outside fun _ => rfl] at hshared
  · simp only [State.shared, hi]
    rfl

/-- No interleaving is stuck: from wherever it is, all objects can be destroyed, and then
everything is freed. -/
theorem lifetimes_wound_up {events : List (Event ι ImplCall)} {s : State ι Impl}
    (hrun : Run (implClient objects) State.Fits .start events s) :
    ∃ more s', Run (implClient objects) State.Fits s more s' ∧ (∀ i, s'.phases i = .outside) ∧
      s'.shared implProtocol Impl.holding = .start implProtocol := by
  have hsafe := hrun.safe safe_start
  obtain ⟨active, hactive⟩ := hrun.finite_active ∅ fun i hi => absurd rfl hi
  have hfits := hrun.last State.fits_start
  obtain ⟨more, s', hmore, hout⟩ := hsafe.exists_run_outside hfits impl_ends active hactive
  exact ⟨more, s', hmore, hout, (hmore.safe hsafe).shared_of_outside hout⟩

end Lifetimes

/-- An embedder whose model does not pool, and a generator. -/
def pairObjects : Bool → ImplKind × LoadAnswers
  | false => (.embedder, ⟨true, true, true, false⟩)
  | true => (.generator, ⟨true, true, true, true⟩)

/-- The generator waits for the mutex while the embedder initialises the backend, and loads its
model while the embedder, whose constructor throws, frees what it had. -/
def pairEvents : List (Event Bool ImplCall) :=
  [.silent, .silent, .silent, .initialise, .silent, .silent, .silent, .silent,
    .body false .loadModel, .silent, .silent, .body false .createContext, .body true .loadModel,
    .body false .internal, .body false .freeContext, .body true .createContext,
    .body false .freeModel, .silent, .body true .internal, .silent, .silent, .body true .use]

theorem pair_cons {s s' s'' : State Bool Impl} {event : Event Bool ImplCall}
    {events : List (Event Bool ImplCall)} (hstep : Step (implClient pairObjects) s event s') :
    Run (implClient pairObjects) State.Fits s' events s'' →
      Run (implClient pairObjects) State.Fits s (event :: events) s'' :=
  .cons hstep fun users _ => Nat.lt_of_le_of_lt users.card_le_univ (by decide)

theorem pairObjects_run : ∃ s, Run (implClient pairObjects) State.Fits .start pairEvents s :=
  ⟨_, pair_cons (.enter (i := false) rfl) <| pair_cons (.enter (i := true) rfl) <|
    pair_cons (.lockIn (i := false) rfl rfl) <| pair_cons (.initialise (i := false) rfl rfl) <|
    pair_cons (.count (i := false) rfl) <| pair_cons (.unlockIn (i := false) rfl) <|
    pair_cons (.lockIn (i := true) rfl rfl) <| pair_cons (.join (i := true) rfl (by decide)) <|
    pair_cons (.body (i := false) rfl (.next rfl)) <| pair_cons (.count (i := true) rfl) <|
    pair_cons (.unlockIn (i := true) rfl) <| pair_cons (.body (i := false) rfl (.next rfl)) <|
    pair_cons (.body (i := true) rfl (.next rfl)) <|
    pair_cons (.body (i := false) rfl (.next rfl)) <|
    pair_cons (.body (i := false) rfl (.next rfl)) <|
    pair_cons (.body (i := true) rfl (.next rfl)) <|
    pair_cons (.body (i := false) rfl (.next rfl)) <| pair_cons (.leave (i := false) rfl rfl) <|
    pair_cons (.body (i := true) rfl (.next rfl)) <| pair_cons (.lockOut (i := false) rfl rfl) <|
    pair_cons (.uncount (i := false) rfl (by decide)) <|
    pair_cons (.body (i := true) rfl (.use rfl)) <| .nil _⟩

theorem lifetimes_lawful_pair :
    ∃ s, Run (implClient pairObjects) State.Fits .start pairEvents s ∧
      Shared.Run implProtocol (.start implProtocol) pairEvents
        (s.shared implProtocol Impl.holding) := by
  obtain ⟨s, hrun⟩ := pairObjects_run
  exact ⟨s, hrun, (lifetimes_lawful hrun).2.2.1⟩

theorem lifetimes_wound_up_pair :
    ∃ s, Run (implClient pairObjects) State.Fits .start pairEvents s ∧
      ∃ more s', Run (implClient pairObjects) State.Fits s more s' ∧
        s'.shared implProtocol Impl.holding = .start implProtocol := by
  obtain ⟨s, hrun⟩ := pairObjects_run
  obtain ⟨more, s', hmore, -, hfreed⟩ := lifetimes_wound_up hrun
  exact ⟨s, hrun, more, s', hmore, hfreed⟩

end CppRag
