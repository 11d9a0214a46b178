import CppRag.Foundation.Scopes
import CppRag.EmbedderRuns
import CppRag.GeneratorRuns
import CppRag.ModelLoading

/-!
What a run of the program holds and what it does with it: the backend, models and contexts, the
mapped index, samplers and batches. The law is that of llama.cpp and of the mapping, with one
model at a time. Here are `evaluate` and `generate` with the batches and the sampler they own;
without them, they are the functions of the generator. The sampler is lost when there is no room
for the response.
-/
namespace CppRag
open Observed Scopes

inductive Resource where
  | backend
  | model (kind : ImplKind)
  | context (kind : ImplKind)
  | index
  | sampler
  | batch (capacity : Nat)
  deriving DecidableEq, Repr

def Resource.isModel : Resource → Bool
  | .model _ => true
  | _ => false

inductive ProgramEvent where
  | loadModel (kind : ImplKind) (params : ModelParams)
  | createContext (kind : ImplKind) (params : ContextParams)
  /-- A use of the embedder. -/
  | embed
  | ask (event : AskEvent)
  | query (event : QueryEvent)
  /-- Standard output of `index`. -/
  | print (line : Bytes)
  deriving DecidableEq, Repr

def NoModel (held : List Resource) : Prop := ∀ kind, .model kind ∉ held

/-- What a call of the generator needs. -/
def LlamaCall.MayCall (held : List Resource) : LlamaCall → Prop
  | .access _ => True
  | .clearMemory => .context .generator ∈ held
  | .decode batch => .context .generator ∈ held ∧
      ∃ capacity rest, held = .batch capacity :: rest ∧ batch.length ≤ capacity
  | .sample | .accept _ => .context .generator ∈ held ∧ .sampler ∈ held

/-- Bytes of an index are read while it is mapped. -/
def Access.MayAccess (held : List Resource) : Access → Prop
  | .read _ _ => .index ∈ held
  | _ => True

/-- The law of a run that asks for the given contexts and may be short of room for a response. -/
def programLaw (asked : ImplKind → ContextParams → Prop) (short : Prop) :
    Law Resource ProgramEvent where
  MayAcquire held
    | .backend => True
    -- Only one model is resident at a time.
    | .model _ => .backend ∈ held ∧ NoModel held
    | .context kind => .model kind ∈ held
    | .index => True
    | .sampler => .context .generator ∈ held
    | .batch _ => .context .generator ∈ held
  MayLose r := r = .sampler ∧ short
  MayDo held
    | .loadModel _ _ => .backend ∈ held ∧ NoModel held
    | .createContext kind params => .model kind ∈ held ∧ asked kind params
    | .embed => .context .embedder ∈ held
    | .ask (.access access) => access.MayAccess held
    | .ask (.llama call) => call.MayCall held
    | .query (.access access) => access.MayAccess held
    | _ => True

/-- The law of a call of `generate`. -/
abbrev generatorLaw (asked : ImplKind → ContextParams → Prop) (short : Prop) :
    Law Resource LlamaCall :=
  (programLaw asked short).comap fun call => .ask (.llama call)

abbrev Owning (α : Type) : Type := Observed (Deed Resource LlamaCall) Exception α

/-- An exception. -/
def Exception.fate (_ : Exception) : Fate := .unwinds

theorem exception_unwinds (e : Exception) : e.fate = .unwinds := rfl

/-! The functions. -/

namespace Owned

section Generate
variable (generator : LlamaGenerator) (session : Session)

/-- The batch loop of `evaluate` from `offset` on. -/
def evaluateFrom (tokens : List LlamaToken) (offset : Nat) : Owning Unit :=
  if offset < tokens.length then do
    acquire (.batch (castInt32 (generator.batchCount tokens offset)))
    perform id (report
      (.decode (LlamaGenerator.batchAt tokens offset (generator.batchCount tokens offset))))
    release (.batch (castInt32 (generator.batchCount tokens offset)))
    perform id (failIf (session.promptDecode offset ≠ 0)
      (.runtimeError "llama.cpp failed to evaluate prompt tokens"))
    evaluateFrom tokens (offset + generator.batchCount tokens offset)
  else pure ()
termination_by tokens.length - offset
decreasing_by
  have := generator.batchCount_pos ‹offset < tokens.length›
  omega

def evaluate (tokens : List LlamaToken) : Owning Unit := do
  if generator.hasMemory then perform id (report .clearMemory)
  evaluateFrom generator session tokens 0

def generate (prompt : Bytes) (maxResponseTokens : UInt64) (stopSequences : List Bytes) :
    Owning Bytes := do
  let promptTokens ← perform id (generator.checkRequest prompt maxResponseTokens)
  evaluate generator session promptTokens
  let created ← perform id (generator.makeSampler session)
  perform id (failIf (!created) (.runtimeError "unable to create llama.cpp sampler"))
  acquire .sampler
  -- Nothing frees the sampler before the `try`.
  losing Exception.fate .sampler (perform id (ofResult
    (session.reserveResponse maxResponseTokens)))
  acquire (.batch 1)
  let response ← catching
    (perform id (generator.respond session stopSequences maxResponseTokens.toNat 0
      promptTokens.length []))
    fun error => do
      release (.batch 1)
      release .sampler
      fail error
  release (.batch 1)
  release .sampler
  pure (trimPartialStop response stopSequences)

end Generate

/-! Without the resources, the functions of the generator. -/

section Erase
variable (generator : LlamaGenerator) (session : Session)

theorem erase_perform_call {α : Type} (m : Observed LlamaCall Exception α) :
    erase some (perform id m : Owning α) = m := by
  rw [erase_perform some id id fun _ => rfl, mapEvents, List.map_id]

theorem erase_evaluateFrom (tokens : List LlamaToken) (offset : Nat) :
    erase some (evaluateFrom generator session tokens offset) =
      generator.evaluateFrom session tokens offset := by
  induction offset using LlamaGenerator.evaluateFrom.induct generator tokens with
  | case1 offset hlt ih =>
      rw [evaluateFrom, LlamaGenerator.evaluateFrom, if_pos hlt, if_pos hlt]
      simp only [erase_bind, erase_acquire, erase_release, erase_perform_call, ih,
        Observed.pure_bind]
  | case2 offset hnot =>
      rw [evaluateFrom, LlamaGenerator.evaluateFrom, if_neg hnot, if_neg hnot]
      rfl

theorem erase_evaluate (tokens : List LlamaToken) :
    erase some (evaluate generator session tokens) = generator.evaluate session tokens := by
  rw [evaluate, LlamaGenerator.evaluate]
  split
  · simp only [erase_bind, erase_perform_call, erase_evaluateFrom]
  · exact erase_evaluateFrom generator session tokens 0

/-- What is released by hand on both paths are two scopes. -/
theorem generate_eq_within (prompt : Bytes) (maxResponseTokens : UInt64)
    (stopSequences : List Bytes) :
    generate generator session prompt maxResponseTokens stopSequences = (do
      let promptTokens ← perform id (generator.checkRequest prompt maxResponseTokens)
      evaluate generator session promptTokens
      let created ← perform id (generator.makeSampler session)
      perform id (failIf (!created) (.runtimeError "unable to create llama.cpp sampler"))
      let response ← (do
        acquire .sampler
        losing Exception.fate .sampler (perform id (ofResult
          (session.reserveResponse maxResponseTokens)))
        within Exception.fate .sampler (holding Exception.fate (.batch 1)
          (perform id (generator.respond session stopSequences maxResponseTokens.toNat 0
            promptTokens.length []))))
      pure (trimPartialStop response stopSequences)) := by
  simp only [generate, ← within_both_by_hand exception_unwinds, bind_bind, Observed.pure_bind]

theorem erase_generate (prompt : Bytes) (maxResponseTokens : UInt64)
    (stopSequences : List Bytes) :
    erase some (generate generator session prompt maxResponseTokens stopSequences) =
      generator.generate session prompt maxResponseTokens stopSequences := by
  rw [generate_eq_within, LlamaGenerator.generate]
  simp only [erase_bind, erase_perform_call, erase_evaluate, erase_acquire, erase_losing,
    erase_within, erase_holding, erase_pure, bind_bind, Observed.pure_bind]

end Erase

/-! The law. -/

section Keeps
variable {generator : LlamaGenerator} {session : Session} {held : List Resource}
variable {asked : ImplKind → ContextParams → Prop} {short : Prop}

/-- Exceptions unwind, so a computation without resources keeps what is held. -/
theorem keeps_calls {α : Type} {m : Observed LlamaCall Exception α}
    (h : ∀ call ∈ m.events, call.MayCall held) :
    Keeps Exception.fate (generatorLaw asked short) held (perform id m) :=
  keeps_perform h fun _ _ => nofun

theorem keeps_evaluateFrom (hcontext : .context .generator ∈ held) {tokens : List LlamaToken}
    (hlt : tokens.length < 2 ^ 31) (offset : Nat) :
    Keeps Exception.fate (generatorLaw asked short) held
      (evaluateFrom generator session tokens offset) := by
  induction offset using LlamaGenerator.evaluateFrom.induct generator tokens with
  | case1 offset hoffset ih =>
      have hcount : castInt32 (generator.batchCount tokens offset) =
          generator.batchCount tokens offset := by
        refine castInt32_of_lt ?_
        rw [LlamaGenerator.batchCount]
        omega
      rw [evaluateFrom, if_pos hoffset, @event_held _ _ _ _ Exception.fate]
      refine keeps_bind (keeps_holding hcontext (keeps_calls fun call hcall => ?_)) fun _ _ => ?_
      · cases List.mem_singleton.mp hcall
        refine ⟨List.mem_cons_of_mem _ hcontext, _, held, rfl, ?_⟩
        rw [LlamaGenerator.length_batchAt, hcount]
      · refine keeps_bind (keeps_calls ?_) fun _ _ => ih
        exact (meets_failIf _ _).1
  | case2 offset hoffset =>
      rw [evaluateFrom, if_neg hoffset]
      exact keeps_pure ()

theorem keeps_evaluate (hcontext : .context .generator ∈ held) {tokens : List LlamaToken}
    (hlt : tokens.length < 2 ^ 31) :
    Keeps Exception.fate (generatorLaw asked short) held (evaluate generator session tokens) := by
  rw [evaluate]
  split
  · refine keeps_bind (keeps_calls fun call hcall => ?_) fun _ _ =>
      keeps_evaluateFrom hcontext hlt 0
    cases List.mem_singleton.mp hcall
    exact hcontext
  · exact keeps_evaluateFrom hcontext hlt 0

/-- The response loop needs a sampler and room for one entry. -/
theorem respond_calls (stopSequences : List Bytes)
    (hcontext : .context .generator ∈ held) (hsampler : .sampler ∈ held) :
    ∀ (remaining generated position : Nat) (response : Bytes),
      Meets (LlamaCall.MayCall (.batch 1 :: held))
        (generator.respond session stopSequences remaining generated position response)
        fun _ => True
  | 0, _, _, _ => meets_pure trivial
  | remaining + 1, generated, position, response => by
      have hcontext' := List.mem_cons_of_mem (.batch 1) hcontext
      have hsampler' := List.mem_cons_of_mem (.batch 1) hsampler
      rw [LlamaGenerator.respond]
      refine meets_bind (meets_report (Q := fun _ => True) ⟨hcontext', hsampler'⟩ trivial)
        fun _ _ => ?_
      dsimp only
      split
      · exact meets_pure trivial
      · refine meets_bind (meets_report (Q := fun _ => True) ⟨hcontext', hsampler'⟩ trivial)
          fun _ _ => ?_
        refine meets_bind (meets_ofResult _) fun piece _ => ?_
        split
        · exact meets_pure trivial
        · refine meets_bind (meets_report (Q := fun _ => True)
            ⟨hcontext', 1, held, rfl, Nat.le_refl 1⟩ trivial) fun _ _ => ?_
          exact meets_bind (meets_failIf _ _) fun _ _ =>
            respond_calls stopSequences hcontext hsampler remaining _ _ _

theorem tokenize_length {prompt : Bytes} {tokens : List LlamaToken}
    (h : generator.tokenize prompt = .ok tokens) : tokens.length < 2 ^ 31 := by
  simp only [LlamaGenerator.tokenize] at h
  split at h
  · cases h
  split at h
  · cases h
  split at h
  · cases h
  split at h
  · cases h
    decide
  split at h
  · cases h
  split at h
  · cases h
  · cases h
    rw [length_resize]
    have hcount : ∀ count : Int32, count.toInt.toNat < 2 ^ 31 := fun count => by
      have := count.toInt_lt
      omega
    exact hcount _

/-- A call of `generate` gives back its batches and its sampler, unless there is no room for the
response, and evaluates nothing that does not fit the batch it holds. -/
theorem keeps_generate (hcontext : .context .generator ∈ held) (prompt : Bytes)
    {maxResponseTokens : UInt64} (hshort : ¬session.Reserves maxResponseTokens → short)
    (stopSequences : List Bytes) :
    Keeps Exception.fate (generatorLaw asked short) held
      (generate generator session prompt maxResponseTokens stopSequences) := by
  rw [generate_eq_within]
  refine keeps_bind (keeps_calls fun call hcall => ?_) fun tokens htokens => ?_
  · rw [(generator.checkRequest_events call hcall).1]
    trivial
  have hlt := tokenize_length (generator.checkRequest_ok_iff tokens |>.mp htokens).1
  refine keeps_bind (keeps_evaluate hcontext hlt) fun _ _ => ?_
  refine keeps_bind (keeps_calls fun call hcall => ?_) fun created _ => ?_
  · rw [generator.makeSampler_events session] at hcall
    cases hcall
  refine keeps_bind (keeps_calls (meets_failIf _ _).1) fun _ _ => ?_
  refine keeps_bind ?_ fun response _ => keeps_pure _
  refine keeps_exposed hcontext (keeps_calls nofun) (fun error herror => ⟨rfl, ⟨rfl, ?_⟩, rfl⟩)
    fun _ _ => keeps_holding (List.mem_cons_of_mem _ hcontext) ?_
  · refine hshort fun hroom => ?_
    cases (Session.reserveResponse_ok_iff.mpr hroom).symm.trans herror
  exact keeps_calls (respond_calls stopSequences (List.mem_cons_of_mem _ hcontext)
    List.mem_cons_self _ _ _ _).1

end Keeps

end Owned

end CppRag
