import CppRag.OwnedPrograms

/-!
What runs of the program hold. Every command gives back what it acquires, in reverse order, on
every path that unwinds; the usage is shown with nothing held; no two models are resident at a
time; and the contexts that llama.cpp is asked for have the sizes of the options, except that of
an embedder, which is cut to 32 bits. The sampler is not given back when there is no room for the
response.
-/
namespace CppRag
open Observed Scopes

/-! The contexts. -/

section Contexts
variable {σ M C D F : Type}

/-- The sizes of the contexts that a command asks for. -/
def Requested (args : Arguments D) : ImplKind → ContextParams → Prop
  | .generator, params => params.nCtx.toNat = args.contextTokens.toNat ∧
      params.nBatch.toNat = min args.batchTokens.toNat args.contextTokens.toNat ∧
      0 < params.nBatch.toNat
  | .embedder, params =>
      params.nCtx.toNat = (embedderOptions args).contextTokens.toNat % 2 ^ 32 ∧
        params.nBatch = params.nCtx

/-- There is no room for the response that a command asks for. -/
def Short (host : LlamaHost σ D F M C) (args : Arguments D) : Prop :=
  ¬host.session.Reserves args.maxResponseTokens

theorem requested_embedder (api : LlamaApi σ M C) (args : Arguments D) :
    Requested args .embedder (embedderParams api (embedderOptions args)) :=
  ⟨UInt64.toNat_toUInt32 _, rfl⟩

theorem lt_of_not_gt_maxUInt32 {value : UInt64} (h : ¬value > maxUInt32) :
    value.toNat < 2 ^ 32 := by
  have hle := UInt64.le_iff_toNat_le.mp (UInt64.not_lt.mp h)
  have hmax : maxUInt32.toNat = 2 ^ 32 - 1 := by decide
  omega

theorem pos_of_ne_zero {value : UInt64} (h : ¬value = 0) : 0 < value.toNat :=
  Nat.pos_of_ne_zero fun hzero => h (UInt64.toNat_inj.mp hzero)

/-- The checks leave no room for a cast that changes a value. -/
theorem requested_generator {api : LlamaApi σ M C} {floats : FloatChecks F} {path : Bytes}
    {args : Arguments D} {toFloat : D → F}
    (h : checkGeneratorOptions api floats path (generatorOptions args toFloat) = .ok ()) :
    Requested args .generator (generatorParams api (generatorOptions args toFloat)) := by
  rw [checkGeneratorOptions] at h
  split at h
  · cases h
  rename_i hsizes
  simp only [not_or] at hsizes
  obtain ⟨hctx, hbatch, hctxmax, hbatchmax⟩ := hsizes
  have hctx' : args.contextTokens.toNat < 2 ^ 32 := lt_of_not_gt_maxUInt32 hctxmax
  have hbatch' : args.batchTokens.toNat < 2 ^ 32 := lt_of_not_gt_maxUInt32 hbatchmax
  have hnBatch : (if args.contextTokens < args.batchTokens then args.contextTokens
      else args.batchTokens).toUInt32.toNat =
        min args.batchTokens.toNat args.contextTokens.toNat := by
    rw [UInt64.toNat_toUInt32]
    split
    · rename_i hlt
      have hlt' := UInt64.lt_iff_toNat_lt.mp hlt
      omega
    · rename_i hnot
      have hle := UInt64.le_iff_toNat_le.mp (UInt64.not_lt.mp hnot)
      omega
  refine ⟨(UInt64.toNat_toUInt32 _).trans (Nat.mod_eq_of_lt hctx'), hnBatch, ?_⟩
  have hctxpos : 0 < args.contextTokens.toNat := pos_of_ne_zero hctx
  have hbatchpos : 0 < args.batchTokens.toNat := pos_of_ne_zero hbatch
  exact hnBatch ▸ Nat.lt_min.mpr ⟨hbatchpos, hctxpos⟩

end Contexts

/-! The rules of the commands. -/

namespace Owned

section Rules
variable {α : Type} {asked : ImplKind → ContextParams → Prop} {short : Prop}
variable {held : List Resource}

theorem keeps_attempt (result : Except Exception α) :
    Keeps Stop.fate (programLaw asked short) held (Run.attempt result) := by
  refine ⟨⟨held, rfl, fun _ => rfl⟩, fun stop hstop hexits => ?_, .inl rfl⟩
  change Stop.attempt result = _ at hstop
  cases result with
  | ok a => cases hstop
  | error e => cases hstop; cases hexits

theorem keeps_event {e : ProgramEvent} (h : (programLaw asked short).MayDo held e) :
    Keeps Stop.fate (programLaw asked short) held (Run.event e) :=
  ⟨⟨held, ⟨h, rfl⟩, fun _ => rfl⟩, nofun, .inl rfl⟩

/-- Outside of every scope a command may end in any way. -/
theorem keeps_ofResult (result : Except Stop α) :
    Keeps Stop.fate (programLaw asked short) [] (ofResult result) :=
  ⟨⟨[], rfl, fun _ => rfl⟩, fun _ _ _ => rfl, .inl rfl⟩

/-- In a scope it may do anything but exit. -/
theorem keeps_inside {result : Except Stop α}
    (h : ∀ error, result ≠ .error (.failure (.usage error))) :
    Keeps Stop.fate (programLaw asked short) held (ofResult result) := by
  refine ⟨⟨held, rfl, fun _ => rfl⟩, fun stop hstop hexits => ?_, .inl rfl⟩
  cases stop with
  | killed => cases hexits
  | failure failure =>
      cases failure with
      | exception e => cases hexits
      | usage error => exact absurd hstop (h error)

theorem mayAccess_of_index (h : .index ∈ held) (access : Access) : access.MayAccess held := by
  cases access with
  | read offset size => exact h
  | _ => trivial

theorem keeps_ask_checked (h : .index ∈ held) (m : Checked α) :
    Keeps Stop.fate (programLaw asked short) held (Run.ask (Ask.ofChecked m)) := by
  refine keeps_perform (fun event hevent => ?_) fun stop hstop hexits => ?_
  · obtain ⟨access, -, rfl⟩ := List.mem_map.mp hevent
    exact mayAccess_of_index h access
  · change (m.result.mapError _).mapError _ = _ at hstop
    cases hresult : m.result with
    | ok a => rw [hresult] at hstop; cases hstop
    | error e => rw [hresult] at hstop; cases hstop; cases hexits

theorem keeps_query_checked (h : .index ∈ held) (m : Checked α) :
    Keeps Stop.fate (programLaw asked short) held (Run.query (Query.ofChecked m)) := by
  refine keeps_perform (fun event hevent => ?_) fun stop hstop hexits => ?_
  · obtain ⟨access, -, rfl⟩ := List.mem_map.mp hevent
    exact mayAccess_of_index h access
  · change (m.result.mapError _).mapError _ = _ at hstop
    cases hresult : m.result with
    | ok a => rw [hresult] at hstop; cases hstop
    | error e => rw [hresult] at hstop; cases hstop; cases hexits

theorem keeps_ask_report {event : AskEvent} (h : (programLaw asked short).MayDo held (.ask event)) :
    Keeps Stop.fate (programLaw asked short) held (Run.ask (report event)) :=
  keeps_perform (fun _ he => by cases List.mem_singleton.mp he; exact h) nofun

/-- A check of the options, before anything is acquired. -/
theorem keeps_ask_requires (present : Bool) (error : String) :
    Keeps Stop.fate (programLaw asked short) [] (Run.ask (Ask.requires present error)) := by
  refine keeps_perform (fun event hevent => ?_) fun _ _ _ => rfl
  cases present <;> cases hevent

theorem keeps_query_requires (present : Bool) (error : String) :
    Keeps Stop.fate (programLaw asked short) [] (Run.query (Query.requires present error)) := by
  refine keeps_perform (fun event hevent => ?_) fun _ _ _ => rfl
  cases present <;> cases hevent

theorem noModel_backend (h : NoModel held) : NoModel (.backend :: held) := by
  intro kind hmem
  cases hmem with
  | tail _ hmem => exact h kind hmem

/-- The rule of an object: its use may count on a context. -/
theorem keeps_withImpl {M C A : Type} {kind : ImplKind} {parts : Construction M C A}
    {use : A → Run α} (hmodel : NoModel held)
    (hasked : parts.checks = .ok () → asked kind parts.contextParams)
    (huse : ∀ object, Keeps Stop.fate (programLaw asked short)
      (.context kind :: .model kind :: .backend :: held) (use object)) :
    Keeps Stop.fate (programLaw asked short) held (withImpl kind parts use) := by
  have hfree : .backend ∈ .backend :: held ∧ NoModel (.backend :: held) :=
    ⟨List.mem_cons_self, noModel_backend hmodel⟩
  refine keeps_holding trivial ?_
  refine keeps_bind (keeps_attempt _) fun _ hchecks => ?_
  refine keeps_bind (keeps_event hfree) fun _ _ => ?_
  refine keeps_bind (keeps_attempt _) fun model _ => keeps_holding hfree ?_
  refine keeps_bind (keeps_event ⟨List.mem_cons_self, hasked ?_⟩) fun _ _ => ?_
  · change Stop.attempt parts.checks = _ at hchecks
    cases hresult : parts.checks with
    | ok value => rfl
    | error e => rw [hresult] at hchecks; cases hchecks
  refine keeps_bind (keeps_attempt _) fun context _ => keeps_holding List.mem_cons_self ?_
  exact keeps_bind (keeps_attempt _) fun object _ => huse object

theorem ask_bind {β : Type} (m : Ask α) (f : α → Ask β) :
    Run.ask (m >>= f) = Run.ask m >>= fun a => Run.ask (f a) := by
  rw [Run.ask, mapError_bind, perform_bind]
  rfl

theorem query_bind {β : Type} (m : Query α) (f : α → Query β) :
    Run.query (m >>= f) = Run.query m >>= fun a => Run.query (f a) := by
  rw [Run.query, mapError_bind, perform_bind]
  rfl

theorem keeps_ask_pure (a : α) :
    Keeps Stop.fate (programLaw asked short) held (Run.ask (pure a)) := keeps_pure a

theorem keeps_ask_attempt (result : Except Exception α) :
    Keeps Stop.fate (programLaw asked short) held (Run.ask (Ask.attempt result)) := by
  have hattempt : Run.ask (Ask.attempt result) = Run.attempt result := by cases result <;> rfl
  exact hattempt ▸ keeps_attempt result

theorem keeps_ask_throws (condition : Bool) (error : Exception) :
    Keeps Stop.fate (programLaw asked short) held
      (Run.ask (failIf condition (.exception error))) := by
  cases condition with
  | false => exact keeps_pure ()
  | true => exact keeps_fail nofun

theorem keeps_ask_searchDown {test : Nat → Ask (Option α)}
    (h : ∀ n, Keeps Stop.fate (programLaw asked short) held (Run.ask (test n))) (n : Nat) :
    Keeps Stop.fate (programLaw asked short) held (Run.ask (searchDown test n)) := by
  induction n with
  | zero =>
      rw [searchDown, ask_bind]
      exact keeps_bind (h 0) fun found _ => keeps_ask_pure _
  | succ n ih =>
      rw [searchDown, ask_bind]
      refine keeps_bind (h (n + 1)) fun found _ => ?_
      cases found with
      | some value => exact keeps_ask_pure _
      | none => exact ih

end Rules

/-! The commands. -/

section Commands
variable {σ D F M C K : Type} [LinearOrder K] {pq : PriorityQueue (SearchResult.score (K := K))}
variable {floats : FloatOps K} {showScore : K → Bytes} {host : LlamaHost σ D F M C}
variable {args : Arguments D} {fs : FileSystem String} {held : List Resource}

theorem keeps_withEmbedder {α : Type} {use : LlamaEmbedder σ × EmbedderState σ → Run α}
    (hmodel : NoModel held)
    (huse : ∀ made, Keeps Stop.fate (programLaw (Requested args) (Short host args))
      (.context .embedder :: .model .embedder :: .backend :: held) (use made)) :
    Keeps Stop.fate (programLaw (Requested args) (Short host args)) held
      (withEmbedder host args use) :=
  keeps_withImpl hmodel (fun _ => requested_embedder host.api args) huse

theorem keeps_withGenerator {α : Type} {model : Bytes} {use : LlamaGenerator → Run α}
    (hmodel : NoModel held)
    (huse : ∀ generator, Keeps Stop.fate (programLaw (Requested args) (Short host args))
      (.context .generator :: .model .generator :: .backend :: held) (use generator)) :
    Keeps Stop.fate (programLaw (Requested args) (Short host args)) held
      (withGenerator host args model use) :=
  keeps_withImpl hmodel requested_generator huse

theorem noModel_nil : NoModel [] := nofun

theorem noModel_index : NoModel [.index] := by
  intro kind hmem
  cases List.mem_singleton.mp hmem

theorem attempt_not_usage {α : Type} (result : Except Exception α) (error : Bytes) :
    Stop.attempt result ≠ .error (.failure (.usage error)) := by
  cases result <;> exact nofun

theorem except_bind_not_usage {α β : Type} {result : Except Stop α} {f : α → Except Stop β}
    {error : Bytes} (hresult : result ≠ .error (.failure (.usage error)))
    (hf : ∀ a, f a ≠ .error (.failure (.usage error))) :
    result >>= f ≠ .error (.failure (.usage error)) := by
  cases result with
  | ok a => exact hf a
  | error stop => exact fun h => hresult (by cases h; rfl)

theorem indexInputs_not_usage (files : Files) (embedder : LlamaEmbedder σ)
    (options : ChunkOptions) (scales : List ChunkOptions) (inputs : List Bytes) (error : Bytes)
    (state : EmbedderState σ) :
    indexInputs files embedder options scales state inputs ≠
      .error (.failure (.usage error)) := by
  induction inputs generalizing state with
  | nil =>
      intro h
      cases h
  | cons input inputs ih =>
      rw [indexInputs]
      refine except_bind_not_usage (attempt_not_usage _ _) fun text => ?_
      refine except_bind_not_usage (attempt_not_usage _ _) fun chunks => ?_
      cases chunks with
      | none =>
          intro h
          cases h
      | some chunks =>
          refine except_bind_not_usage (attempt_not_usage _ _) fun embeddings => ?_
          split
          · intro h
            cases h
          · refine except_bind_not_usage (ih _) fun items h => ?_
            cases h

/-- `index` may be killed with its embedder loaded, but not end in the usage then. -/
theorem keeps_runIndex :
    Keeps Stop.fate (programLaw (Requested args) (Short host args)) [] (runIndex host args fs) := by
  refine keeps_bind (keeps_ofResult _) fun _ _ => ?_
  refine keeps_bind (keeps_ofResult _) fun _ _ => ?_
  refine keeps_bind (keeps_ofResult _) fun scales _ => ?_
  refine keeps_bind (keeps_ofResult _) fun _ _ => ?_
  refine keeps_withEmbedder noModel_nil fun made => ?_
  refine keeps_bind (keeps_event List.mem_cons_self) fun _ _ => ?_
  refine keeps_bind (keeps_inside (indexInputs_not_usage _ _ _ _ _ · _)) fun items _ => ?_
  refine keeps_bind (keeps_inside (writeItems_not_usage _ _ _ _ _)) fun line _ => ?_
  exact keeps_event trivial

omit [LinearOrder K] in
theorem keeps_printResults (index : MmapIndex) (h : .index ∈ held)
    (results : List (SearchResult K)) :
    Keeps Stop.fate (programLaw (Requested args) (Short host args)) held
      (Run.query (printResults showScore index results)) := by
  induction results with
  | nil => exact keeps_pure ()
  | cons result results ih =>
      rw [printResults, query_bind]
      refine keeps_bind (keeps_query_checked h _) fun chunk _ => ?_
      rw [query_bind]
      refine keeps_bind (keeps_perform (fun event hevent => ?_) fun _ h => ?_) fun _ _ => ih
      · cases List.mem_singleton.mp hevent
        trivial
      · cases h

theorem keeps_runQuery : Keeps Stop.fate (programLaw (Requested args) (Short host args)) []
    (runQuery pq floats showScore host args fs) := by
  refine keeps_bind (keeps_query_requires _ _) fun _ _ => ?_
  refine keeps_bind (keeps_query_requires _ _) fun _ _ => ?_
  refine keeps_bind (keeps_query_requires _ _) fun _ _ => ?_
  refine keeps_bind (keeps_query_requires _ _) fun _ _ => ?_
  refine keeps_withEmbedder noModel_nil fun made => ?_
  refine keeps_bind (keeps_attempt _) fun img _ => keeps_holding trivial ?_
  have hindex : Resource.index ∈
      [.index, .context .embedder, .model .embedder, .backend] := List.mem_cons_self
  refine keeps_bind (keeps_query_checked hindex _) fun index _ => ?_
  refine keeps_bind (keeps_event (List.mem_cons_of_mem _ List.mem_cons_self)) fun _ _ => ?_
  refine keeps_bind (keeps_attempt _) fun queryEmbedding _ => ?_
  refine keeps_bind (keeps_query_checked hindex _) fun results _ => ?_
  exact keeps_printResults index hindex results

theorem keeps_printAnswer {generator : LlamaGenerator} {prompt : Bytes}
    (hcontext : .context .generator ∈ held) :
    Keeps Stop.fate (programLaw (Requested args) (Short host args)) held
      (printAnswer host args generator prompt) := by
  refine keeps_bind (keeps_ask_report trivial) fun _ _ => ?_
  refine keeps_bind (keeps_map (keeps_generate hcontext _ id _)) fun answer _ => ?_
  exact keeps_ask_report trivial

theorem keeps_runGenerate :
    Keeps Stop.fate (programLaw (Requested args) (Short host args)) [] (runGenerate host args) := by
  refine keeps_bind (keeps_ask_requires _ _) fun _ _ => ?_
  refine keeps_bind (keeps_ask_requires _ _) fun _ _ => ?_
  refine keeps_bind (keeps_ask_requires _ _) fun _ _ => ?_
  refine keeps_bind (keeps_attempt _) fun prompt _ => ?_
  exact keeps_withGenerator noModel_nil fun generator => keeps_printAnswer List.mem_cons_self

omit [LinearOrder K] in
theorem keeps_readChunks (index : MmapIndex) (h : .index ∈ held)
    (results : List (SearchResult K)) :
    Keeps Stop.fate (programLaw (Requested args) (Short host args)) held
      (Run.ask (readChunks index results)) := by
  induction results with
  | nil => exact keeps_pure []
  | cons result results ih =>
      rw [readChunks, ask_bind]
      refine keeps_bind (keeps_ask_checked h _) fun chunk _ => ?_
      rw [ask_bind]
      refine keeps_bind (keeps_ask_report trivial) fun _ _ => ?_
      rw [ask_bind]
      exact keeps_bind ih fun chunks _ => keeps_ask_pure _

theorem keeps_trimContext (generator : LlamaGenerator) (chunks : List Chunk)
    (h : .index ∈ held) :
    Keeps Stop.fate (programLaw (Requested args) (Short host args)) held
      (Run.ask (trimContext generator (askArguments args) chunks)) := by
  rw [trimContext, ask_bind]
  refine keeps_bind (keeps_ask_searchDown (fun keep => ?_) _) fun found _ => ?_
  · rw [tryKeep, ask_bind]
    refine keeps_bind (keeps_ask_attempt _) fun prompt _ => ?_
    rw [ask_bind]
    refine keeps_bind (keeps_ask_attempt _) fun tokens _ => ?_
    rw [ask_bind]
    refine keeps_bind ?_ fun fits _ => keeps_ask_pure _
    rw [fitsContext]
    split
    · exact keeps_ask_pure _
    · rw [ask_bind]
      exact keeps_bind (keeps_ask_checked h _) fun room _ => keeps_ask_pure _
  · cases found with
    | some kept => exact keeps_ask_pure _
    | none =>
        refine keeps_fail ?_
        intro hexits
        cases hexits

theorem keeps_answerFrom (chunks : List Chunk) :
    Keeps Stop.fate (programLaw (Requested args) (Short host args)) [.index]
      (answerFrom host args chunks) := by
  rw [answerFrom]
  split
  · exact keeps_ask_report trivial
  · refine keeps_withGenerator noModel_index fun generator => ?_
    have hindex : Resource.index ∈
        [.context .generator, .model .generator, .backend, .index] := by decide
    refine keeps_bind (keeps_ask_throws _ _) fun _ _ => ?_
    refine keeps_bind (keeps_trimContext generator chunks hindex) fun kept _ => ?_
    refine keeps_bind ?_ fun _ _ => keeps_printAnswer List.mem_cons_self
    rw [noticeTrimmed]
    split
    · exact keeps_ask_report trivial
    · exact keeps_ask_pure _

theorem keeps_runAsk : Keeps Stop.fate (programLaw (Requested args) (Short host args)) []
    (runAsk pq floats host args fs) := by
  refine keeps_bind ?_ fun _ _ => ?_
  · simp only [checkAskArguments, ask_bind]
    refine keeps_bind (keeps_ask_requires _ _) fun _ _ => ?_
    refine keeps_bind (keeps_ask_requires _ _) fun _ _ => ?_
    refine keeps_bind (keeps_ask_requires _ _) fun _ _ => ?_
    refine keeps_bind (keeps_ask_requires _ _) fun _ _ => ?_
    exact keeps_bind (keeps_ask_requires _ _) fun _ _ => keeps_ask_requires _ _
  refine keeps_bind (keeps_attempt _) fun img _ => keeps_holding trivial ?_
  refine keeps_bind (keeps_ask_checked List.mem_cons_self _) fun index _ => ?_
  refine keeps_bind ?_ fun chunks _ => keeps_answerFrom chunks
  refine keeps_withEmbedder noModel_index fun made => ?_
  have hindex : Resource.index ∈
      [.context .embedder, .model .embedder, .backend, .index] := by decide
  refine keeps_bind (keeps_event List.mem_cons_self) fun _ _ => ?_
  refine keeps_bind (keeps_attempt _) fun queryEmbedding _ => ?_
  refine keeps_bind (keeps_ask_checked hindex _) fun results _ => ?_
  exact keeps_readChunks index hindex results

end Commands

/-! The program. -/

section Main
variable {σ D F M C K : Type} [LinearOrder K] (pq : PriorityQueue (SearchResult.score (K := K)))
variable (floats : FloatOps K) (showScore : K → Bytes) (host : LlamaHost σ D F M C)
variable (ops : DoubleOps D) (argv : List Bytes) (fs : FileSystem String)

/-- The sizes of the contexts that a command line asks for. -/
def RequestedBy (kind : ImplKind) (params : ContextParams) : Prop :=
  ∀ args, parse ops argv = .ok args → Requested args kind params

/-- There is no room for the response that a command line asks for. -/
def ShortBy : Prop := ∃ args, parse ops argv = .ok args ∧ Short host args

variable {argv} in
theorem programLaw_parsed {args : Arguments D} (h : parse ops argv = .ok args) :
    programLaw (RequestedBy ops argv) (ShortBy host ops argv) =
      programLaw (Requested args) (Short host args) := by
  have hrequested : RequestedBy ops argv = Requested args := by
    funext kind params
    refine propext ⟨fun hall => hall args h, fun hrequested args' h' => ?_⟩
    cases h.symm.trans h'
    exact hrequested
  have hshort : ShortBy host ops argv = Short host args := by
    refine propext ⟨?_, fun hshort => ⟨args, h, hshort⟩⟩
    rintro ⟨args', h', hshort⟩
    cases h.symm.trans h'
    exact hshort
  rw [hrequested, hshort]

theorem keeps_runCommandLine (args : Arguments D) :
    Keeps Stop.fate (programLaw (Requested args) (Short host args)) []
      (runCommandLine pq floats showScore host args fs) := by
  rw [runCommandLine]
  split
  · exact keeps_runIndex
  split
  · exact keeps_runQuery
  split
  · exact keeps_runGenerate
  split
  · exact keeps_runAsk
  · exact keeps_fail fun _ => rfl

theorem keeps_main : Keeps Stop.fate (programLaw (RequestedBy ops argv) (ShortBy host ops argv)) []
    (main pq floats showScore host fs ops argv) := by
  rw [main]
  cases hparse : parse ops argv with
  | error failure => exact keeps_fail fun _ => rfl
  | ok args =>
      rw [programLaw_parsed host ops hparse]
      exact keeps_runCommandLine pq floats showScore host fs args

/-- How a run ends the process. -/
def endedBy : Except Stop Unit → Ended
  | .ok () => .exited 0
  | .error stop => stop.ended

def Seen.output : Seen → Bytes
  | .ask (.answer text) => text ++ ascii "\n"
  | .query (.output text) => text
  | .print line => line
  | _ => []

/-- The process of a run that leaves the files `fs`. -/
def processOf (m : Observed Seen Stop Unit) (fs : FileSystem String) : Process :=
  ⟨endedBy m.result, m.events.flatMap Seen.output, fs⟩

theorem processOf_seenAsk (m : Ask Unit) :
    processOf (seenAsk m) fs = .ofResult m.result (answerOutput m.events) fs := by
  have houtput : (m.events.map Seen.ask).flatMap Seen.output = answerOutput m.events := by
    rw [List.flatMap_map, answerOutput]
    congr 1
    funext event
    cases event <;> rfl
  change (⟨endedBy (m.result.mapError .failure), (m.events.map Seen.ask).flatMap _, fs⟩ :
    Process) = _
  rw [houtput]
  cases m.result <;> rfl

theorem processOf_seenQuery (m : Query Unit) :
    processOf (seenQuery m) fs = .ofResult m.result (outputText m.events) fs := by
  have houtput : (m.events.map Seen.query).flatMap Seen.output = outputText m.events := by
    rw [List.flatMap_map, outputText]
    congr 1
    funext event
    cases event <;> rfl
  change (⟨endedBy (m.result.mapError .failure), (m.events.map Seen.query).flatMap _, fs⟩ :
    Process) = _
  rw [houtput]
  cases m.result <;> rfl

theorem processOf_runIndex (args : Arguments D) :
    processOf (erase seen? (runIndex host args fs)) (indexProcess host.toMainHost args fs).fs =
      indexProcess host.toMainHost args fs := by
  rw [erase_runIndex, indexProcess]
  cases hrun : CppRag.runIndex (indexHost host.toMainHost args) args fs with
  | mk result fs' =>
      cases result with
      | ok line => exact congrArg (fun output => Process.mk _ output _) (List.append_nil line)
      | error stop => rfl

/-- Without what it owns, a run is that of the program. -/
theorem processOf_main :
    processOf (erase seen? (main pq floats showScore host fs ops argv))
      (CppRag.main pq floats showScore host.toMainHost ops argv fs).fs =
      CppRag.main pq floats showScore host.toMainHost ops argv fs := by
  rw [main, CppRag.main]
  cases hparse : parse ops argv with
  | error failure => rfl
  | ok args =>
      simp only [runCommandLine, CppRag.runCommandLine]
      split
      · exact processOf_runIndex host fs args
      split
      · rw [erase_runQuery, processOf_seenQuery, ofResult_fs]
      split
      · rw [erase_runGenerate, processOf_seenAsk, ofResult_fs]
      split
      · rw [erase_runAsk, processOf_seenAsk, ofResult_fs]
      · rfl

theorem ended_of_dies {result : Except Stop Unit} {stop : Stop} (h : result = .error stop)
    (hdies : stop.fate = .dies) : endedBy result = .killed := by
  subst h
  cases stop with
  | killed => rfl
  | failure failure => cases failure <;> cases hdies

theorem ended_of_unwinds {result : Except Stop Unit} {stop : Stop} (h : result = .error stop)
    (hunwinds : stop.fate = .unwinds) : endedBy result = .exited 1 := by
  subst h
  cases stop with
  | killed => cases hunwinds
  | failure failure =>
      cases failure with
      | exception e => rfl
      | usage error => cases hunwinds

theorem one_model_acquired {asked : ImplKind → ContextParams → Prop} {short : Prop}
    (held : List Resource) (r : Resource) (h : (held.filter Resource.isModel).length ≤ 1)
    (hacquire : (programLaw asked short).MayAcquire held r) :
    ((r :: held).filter Resource.isModel).length ≤ 1 := by
  cases r with
  | model kind =>
      have hnone : held.filter Resource.isModel = [] := by
        refine List.filter_eq_nil_iff.mpr fun other hother => ?_
        cases other with
        | model kind => exact absurd hother (hacquire.2 kind)
        | _ => exact nofun
      rw [List.filter_cons_of_pos rfl, hnone]
      exact Nat.le_refl 1
  | _ => exact h

/-- For all command lines, models, files and outcomes: a run with its resources ends and prints
as the program does; it abides by the law of llama.cpp, of the mapping and of its options at
every step; unless it is killed it ends with nothing held, and nothing lost but, when there is no
room for the response, the sampler; and no two models are ever resident. -/
theorem main_gives_back :
    processOf (erase seen? (main pq floats showScore host fs ops argv))
        (CppRag.main pq floats showScore host.toMainHost ops argv fs).fs =
      CppRag.main pq floats showScore host.toMainHost ops argv fs ∧
    (∃ left, (programLaw (RequestedBy ops argv) (ShortBy host ops argv)).Follows []
        (main pq floats showScore host fs ops argv).events left ∧
      ((CppRag.main pq floats showScore host.toMainHost ops argv fs).ended ≠ .killed →
        left = [])) ∧
    (lost (main pq floats showScore host fs ops argv).events = [] ∨
      lost (main pq floats showScore host fs ops argv).events = [.sampler] ∧
        ShortBy host ops argv ∧
        (CppRag.main pq floats showScore host.toMainHost ops argv fs).ended = .exited 1) ∧
    ∀ before after, (main pq floats showScore host fs ops argv).events = before ++ after →
      ∃ held, (programLaw (RequestedBy ops argv) (ShortBy host ops argv)).Follows [] before held ∧
        (held.filter Resource.isModel).length ≤ 1 := by
  have hprocess := processOf_main pq floats showScore host ops argv fs
  obtain ⟨⟨left, hfollows, hleft⟩, -, hlosses⟩ :=
    keeps_main pq floats showScore host ops argv fs
  refine ⟨hprocess, ⟨left, hfollows, fun hended => hleft fun stop hstop hdies => hended ?_⟩,
    hlosses.imp_right ?_, fun before after hsplit => ?_⟩
  · rw [← hprocess]
    exact ended_of_dies hstop hdies
  · rintro ⟨r, stop, hlost, hstop, hunwinds⟩
    obtain ⟨rfl, hshort⟩ := hfollows.mayLose r (by rw [hlost]; exact List.mem_singleton_self r)
    refine ⟨hlost, hshort, ?_⟩
    rw [← hprocess]
    exact ended_of_unwinds hstop hunwinds
  · rw [hsplit, follows_append] at hfollows
    obtain ⟨held, hbefore, -⟩ := hfollows
    exact ⟨held, hbefore, hbefore.always one_model_acquired
      (fun r held h => (List.Sublist.filter _ (List.sublist_cons_self r held)).length_le.trans h)
      (Nat.zero_le 1)⟩

end Main

end Owned

end CppRag
