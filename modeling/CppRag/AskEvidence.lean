import CppRag.AskTrimming
import CppRag.CommandEvents
import CppRag.SearchQuota

/-!
What `run_ask` gives to the generator. It refuses when nothing is retrieved, but the loop
that trims the context can drop every chunk: the prompt then holds no evidence.
-/
namespace CppRag
open Observed PriorityQueue Failures

/-- The prompt is assembled from at least one of the chunks. -/
def Evidenced (args : AskArguments) (chunks : List Chunk) (prompt : Bytes) : Prop :=
  ∃ keep, 1 ≤ keep ∧ keep ≤ chunks.length ∧
    askPrompt args.systemPrompt (chunks.take keep) args.query = .ok prompt

/-- Every prompt with a chunk is too long for the context and the one without fits. -/
def ContextLost (host : AskHost) (args : AskArguments) (chunks : List Chunk) : Prop :=
  chunks ≠ [] ∧ ∃ generator, host.loadGenerator = .ok generator ∧
    args.maxResponseTokens < generator.contextSize ∧
    (∀ keep, 1 ≤ keep → keep ≤ chunks.length →
      ¬Qualifies generator args chunks keep ∧ ¬Refused generator args chunks keep) ∧
    Qualifies generator args chunks 0

section Evidence
variable {K : Type} [LinearOrder K] (pq : PriorityQueue (SearchResult.score (K := K)))
variable (ops : FloatOps K) (host : AskHost) (args : AskArguments)

/-- Whatever is given to the generator holds a retrieved chunk; a run that does not get
there refuses or fails. -/
structure AnswersFromEvidence : Prop where
  evidenced : ∀ prompt maxResponseTokens,
    .generate prompt maxResponseTokens ∈ (runAsk pq ops host args).events →
      ∃ chunks, (retrieve pq ops host args).result = .ok chunks ∧ Evidenced args chunks prompt
  otherwise : (∀ prompt maxResponseTokens,
      .generate prompt maxResponseTokens ∉ (runAsk pq ops host args).events) →
    .diagnostic refusal ∈ (runAsk pq ops host args).events ∨
      ∃ failure, (runAsk pq ops host args).result = .error failure

end Evidence

/-! Prompts of different lengths. -/

theorem askPrompt_take_inj {systemPrompt query prompt : Bytes} {chunks : List Chunk} {a b : Nat}
    (ha : a ≤ chunks.length) (hb : b ≤ chunks.length)
    (hfirst : askPrompt systemPrompt (chunks.take a) query = .ok prompt)
    (hsecond : askPrompt systemPrompt (chunks.take b) query = .ok prompt) : a = b := by
  obtain ⟨first, -, rfl, hprompt⟩ := askPrompt_ok hfirst
  obtain ⟨second, -, rfl, hsame⟩ := askPrompt_ok hsecond
  rw [hprompt] at hsame
  have htexts : assemble [] (askChunks (chunks.take a)) query =
      assemble [] (askChunks (chunks.take b)) query := by
    simpa only [userTurn, List.append_assoc, List.append_cancel_left_eq,
      List.append_cancel_right_eq] using hsame
  have hlength : (askChunks chunks).length = chunks.length := List.length_map _
  have htake : ∀ n, askChunks (chunks.take n) = (askChunks chunks).take n := fun n => List.map_take
  rw [htake, htake] at htexts
  exact assemble_take_inj (by rwa [hlength]) (by rwa [hlength]) htexts

/-! The calls of the generator. -/

/-- The call itself is the only one. -/
theorem printAnswer_generates (generator : LlamaGenerator) (session : Session)
    (args : AskArguments) (prompt other : Bytes) (maxResponseTokens : UInt64) :
    .generate other maxResponseTokens ∈ (printAnswer generator session args prompt).events ↔
      other = prompt ∧ maxResponseTokens = args.maxResponseTokens := by
  have hrest : Within (fun event => event ≠ .generate other maxResponseTokens) Failure.Spoken (do
      let answer ← Ask.ofLlama
        (generator.generate session prompt args.maxResponseTokens chatStopSequences)
      report (.answer answer)) :=
    (within_calls (fun _ => nofun) _).bind fun answer => within_report nofun
  rw [printAnswer, events_bind_of_ok (result_report _), List.mem_append]
  constructor
  · rintro (hcall | hlater)
    · cases List.mem_singleton.mp hcall
      exact ⟨rfl, rfl⟩
    · exact absurd rfl (hrest.events _ hlater)
  · rintro ⟨rfl, rfl⟩
    exact .inl (List.mem_singleton_self _)

/-! From the chunks to the generator. -/

section Answer
variable {host : AskHost} {args : AskArguments} {chunks : List Chunk}

theorem answerFrom_empty : answerFrom host args [] = report (.diagnostic refusal) := rfl

theorem answerFrom_unloaded (hsome : chunks ≠ []) {error : Exception}
    (h : host.loadGenerator = .error error) :
    answerFrom host args chunks = ⟨[], .error (.exception error)⟩ := by
  have hnonempty : chunks.isEmpty = false := List.isEmpty_eq_false_iff.mpr hsome
  rw [answerFrom, hnonempty, h]
  rfl

variable {generator : LlamaGenerator}

theorem answerFrom_loaded (hsome : chunks ≠ []) (hload : host.loadGenerator = .ok generator) :
    answerFrom host args chunks = (do
      failIf (args.maxResponseTokens ≥ generator.contextSize)
        (.exception (.runtimeError "--max-tokens must be smaller than --ctx"))
      let (keep, prompt) ← trimContext generator args chunks
      noticeTrimmed keep chunks.length
      printAnswer generator host.session args prompt) := by
  have hnonempty : chunks.isEmpty = false := List.isEmpty_eq_false_iff.mpr hsome
  rw [answerFrom, hnonempty, hload]
  rfl

theorem answerFrom_overlong (hsome : chunks ≠ []) (hload : host.loadGenerator = .ok generator)
    (h : ¬args.maxResponseTokens < generator.contextSize) :
    answerFrom host args chunks =
      ⟨[], .error (.exception (.runtimeError "--max-tokens must be smaller than --ctx"))⟩ := by
  have hge : args.maxResponseTokens ≥ generator.contextSize :=
    UInt64.le_iff_toNat_le.mpr (Nat.le_of_not_lt fun hlt => h (UInt64.lt_iff_toNat_lt.mpr hlt))
  rw [answerFrom_loaded hsome hload, decide_eq_true hge]
  rfl

variable (hsome : chunks ≠ []) (hload : host.loadGenerator = .ok generator)
variable (hlt : args.maxResponseTokens < generator.contextSize)
include hsome hload hlt

theorem answerFrom_started : answerFrom host args chunks = (do
    let (keep, prompt) ← trimContext generator args chunks
    noticeTrimmed keep chunks.length
    printAnswer generator host.session args prompt) := by
  have hge : ¬args.maxResponseTokens ≥ generator.contextSize := fun hge =>
    absurd (UInt64.lt_iff_toNat_lt.mp hlt) (Nat.not_lt.mpr (UInt64.le_iff_toNat_le.mp hge))
  rw [answerFrom_loaded hsome hload, decide_eq_false hge]
  rfl

theorem answerFrom_untrimmed {failure : Failure}
    (h : (trimContext generator args chunks).result = .error failure) :
    answerFrom host args chunks = ⟨(trimContext generator args chunks).events, .error failure⟩ := by
  rw [answerFrom_started hsome hload hlt]
  simp only [bind, h]

/-- The trimmed prompt is the one that is given to the generator. -/
theorem answerFrom_generates {keep : Nat} {prompt : Bytes}
    (h : (trimContext generator args chunks).result = .ok (keep, prompt))
    (other : Bytes) (maxResponseTokens : UInt64) :
    .generate other maxResponseTokens ∈ (answerFrom host args chunks).events ↔
      other = prompt ∧ maxResponseTokens = args.maxResponseTokens := by
  have hnotice : (noticeTrimmed keep chunks.length).result = .ok () := by
    unfold noticeTrimmed
    split <;> rfl
  rw [answerFrom_started hsome hload hlt, events_bind_of_ok h, events_bind_of_ok hnotice,
    List.mem_append, List.mem_append, printAnswer_generates]
  constructor
  · rintro (hbefore | hbefore | hcall)
    · exact ((within_trimContext _ _ _).events _ hbefore).elim
    · exact ((within_noticeTrimmed _ _).events _ hbefore).elim
    · exact hcall
  · exact fun hcall => .inr (.inr hcall)

end Answer

/-- How the part after the retrieval can go. -/
theorem answerFrom_cases (host : AskHost) (args : AskArguments) (chunks : List Chunk) :
    (.diagnostic refusal ∈ (answerFrom host args chunks).events ∧ chunks = []) ∨
      (∃ failure, (answerFrom host args chunks).result = .error failure ∧
        ∀ event ∈ (answerFrom host args chunks).events, event.Preparing) ∨
      ∃ generator keep prompt, chunks ≠ [] ∧ host.loadGenerator = .ok generator ∧
        args.maxResponseTokens < generator.contextSize ∧
        (trimContext generator args chunks).result = .ok (keep, prompt) := by
  by_cases hsome : chunks = []
  · subst hsome
    exact .inl ⟨List.mem_singleton_self _, rfl⟩
  cases hload : host.loadGenerator with
  | error error =>
      rw [answerFrom_unloaded hsome hload]
      exact .inr (.inl ⟨_, rfl, nofun⟩)
  | ok generator =>
      by_cases hlt : args.maxResponseTokens < generator.contextSize
      · cases htrim : (trimContext generator args chunks).result with
        | error failure =>
            rw [answerFrom_untrimmed hsome hload hlt htrim]
            exact .inr (.inl ⟨failure, rfl, (within_trimContext _ _ _).events⟩)
        | ok kept => exact .inr (.inr ⟨generator, kept.1, kept.2, hsome, rfl, hlt, htrim⟩)
      · rw [answerFrom_overlong hsome hload hlt]
        exact .inr (.inl ⟨_, rfl, nofun⟩)

/-- The loop ends without a chunk exactly when the context is lost. -/
theorem contextLost_iff {host : AskHost} {args : AskArguments} {chunks : List Chunk}
    {generator : LlamaGenerator} {keep : Nat} {prompt : Bytes} (hsome : chunks ≠ [])
    (hload : host.loadGenerator = .ok generator)
    (hlt : args.maxResponseTokens < generator.contextSize)
    (htrim : (trimContext generator args chunks).result = .ok (keep, prompt)) :
    ContextLost host args chunks ↔ keep = 0 := by
  obtain ⟨hkeep, hfound, habove⟩ := trimContext_ok_iff.mp htrim
  constructor
  · rintro ⟨-, loaded, hloaded, -, hnone, -⟩
    cases hload.symm.trans hloaded
    refine Nat.eq_zero_of_not_pos fun hpos => ?_
    exact (hnone keep hpos hkeep).1 ((qualifies_iff hlt).mpr ⟨prompt, hfound⟩)
  · rintro rfl
    refine ⟨hsome, generator, hload, hlt, fun k hpos hk => ?_,
      (qualifies_iff hlt).mpr ⟨prompt, hfound⟩⟩
    rw [qualifies_iff hlt, refused_iff hlt, habove k hpos hk]
    exact ⟨nofun, nofun⟩

section Evidence
variable {K : Type} [LinearOrder K] {pq : PriorityQueue (SearchResult.score (K := K))}
variable {ops : FloatOps K} {host : AskHost} {args : AskArguments}

theorem runAsk_retrieved {chunks : List Chunk}
    (h : (retrieve pq ops host args).result = .ok chunks) (prompt : Bytes)
    (maxResponseTokens : UInt64) :
    .generate prompt maxResponseTokens ∈ (runAsk pq ops host args).events ↔
      .generate prompt maxResponseTokens ∈ (answerFrom host args chunks).events := by
  rw [runAsk, events_bind_of_ok h, List.mem_append]
  exact or_iff_right fun hbefore => (within_retrieve pq ops host args).events _ hbefore

theorem not_contextLost {chunks : List Chunk} (h : AnswersFromEvidence pq ops host args)
    (hretrieved : (retrieve pq ops host args).result = .ok chunks) :
    ¬ContextLost host args chunks := by
  intro hlost
  obtain ⟨hsome, generator, hload, hlt, hnone, hzero⟩ := id hlost
  obtain ⟨prompt, hfound⟩ := (qualifies_iff hlt).mp hzero
  have htrim : (trimContext generator args chunks).result = .ok (0, prompt) := by
    refine trimContext_ok_iff.mpr ⟨Nat.zero_le _, hfound, fun k hpos hk => ?_⟩
    obtain ⟨hmiss, hgoes⟩ := hnone k hpos hk
    rw [qualifies_iff hlt] at hmiss
    rw [refused_iff hlt] at hgoes
    cases hresult : (tryKeep generator args chunks k).result with
    | error failure => exact absurd ⟨failure, hresult⟩ hgoes
    | ok found =>
        cases found with
        | none => rfl
        | some longer => exact absurd ⟨longer, hresult⟩ hmiss
  have hcall := (answerFrom_generates hsome hload hlt htrim prompt args.maxResponseTokens).mpr
    ⟨rfl, rfl⟩
  obtain ⟨found, hsame, keep, hpos, hkeep, hkept⟩ :=
    h.evidenced _ _ ((runAsk_retrieved hretrieved _ _).mpr hcall)
  cases hretrieved.symm.trans hsame
  have hprompt := (trimContext_greatest hlt htrim).2
  have hzero := askPrompt_take_inj hkeep (Nat.zero_le _) hkept hprompt
  omega

theorem evidence_of_failed {failure : Failure}
    (h : (retrieve pq ops host args).result = .error failure) :
    AnswersFromEvidence pq ops host args := by
  have hevents : (runAsk pq ops host args).events = (retrieve pq ops host args).events :=
    events_bind_of_error h _
  refine ⟨fun prompt maxResponseTokens hcall => ?_, fun _ => .inr ⟨failure, bind_of_error h _⟩⟩
  rw [hevents] at hcall
  exact ((within_retrieve _ _ _ _).events _ hcall).elim

theorem evidence_of_retrieved {chunks : List Chunk}
    (hretrieved : (retrieve pq ops host args).result = .ok chunks)
    (hkept : ¬ContextLost host args chunks) : AnswersFromEvidence pq ops host args := by
  rcases answerFrom_cases host args chunks with
    ⟨hrefused, rfl⟩ | ⟨failure, hfailure, hquiet⟩ |
      ⟨generator, keep, prompt, hsome, hload, hlt, htrim⟩
  · refine ⟨fun prompt maxResponseTokens hcall => ?_, fun _ => .inl ?_⟩
    · rw [runAsk_retrieved hretrieved, answerFrom_empty] at hcall
      cases List.mem_singleton.mp hcall
    · rw [runAsk, events_bind_of_ok hretrieved]
      exact List.mem_append_right _ hrefused
  · refine ⟨fun prompt maxResponseTokens hcall => ?_, fun _ => .inr ⟨failure, ?_⟩⟩
    · rw [runAsk_retrieved hretrieved] at hcall
      exact (hquiet _ hcall).elim
    · rw [runAsk, bind_of_ok hretrieved]
      exact hfailure
  · refine ⟨fun other maxResponseTokens hcall => ?_, fun hnone => ?_⟩
    · rw [runAsk_retrieved hretrieved, answerFrom_generates hsome hload hlt htrim] at hcall
      obtain ⟨rfl, -⟩ := hcall
      rw [contextLost_iff hsome hload hlt htrim] at hkept
      exact ⟨chunks, hretrieved, keep, Nat.pos_of_ne_zero hkept,
        (trimContext_ok_iff.mp htrim).1, (trimContext_greatest hlt htrim).2⟩
    · refine absurd ?_ (hnone prompt args.maxResponseTokens)
      rw [runAsk_retrieved hretrieved, answerFrom_generates hsome hload hlt htrim]
      exact ⟨rfl, rfl⟩

/-- For every index, query, tokenizer and budget: the command answers from evidence or not at
all, if and only if the trimming does not lose the whole context that was retrieved. -/
theorem ask_evidence_iff (pq : PriorityQueue (SearchResult.score (K := K))) (ops : FloatOps K)
    (host : AskHost) (args : AskArguments) : AnswersFromEvidence pq ops host args ↔
      ∀ chunks, (retrieve pq ops host args).result = .ok chunks →
        ¬ContextLost host args chunks := by
  constructor
  · exact fun h chunks hretrieved => not_contextLost h hretrieved
  · intro hkept
    cases hretrieved : (retrieve pq ops host args).result with
    | error failure => exact evidence_of_failed hretrieved
    | ok chunks => exact evidence_of_retrieved hretrieved (hkept chunks hretrieved)

end Evidence

section Sample

/-- Ten tokens for a prompt with a chunk, one for the prompt without. -/
def tenTokenGenerator : LlamaGenerator :=
  { oneTokenGenerator with
    llamaTokenize := fun prompt capacity =>
      let count := if prompt.length > 150 then 10 else 1
      if capacity = 0 then (-count, []) else (count, List.replicate capacity 7) }

def lostHost : AskHost where
  mapFile _ := .ok sampleImage
  embed _ := .ok [oneF]
  loadGenerator := .ok tenTokenGenerator
  session := ⟨true, fun _ => 0, fun _ => 7, fun _ => 0, .unbounded⟩
  memory := .unbounded

def lostArguments : AskArguments :=
  { oneTokenArguments with metric := .dotProduct }

def foundChunk : Chunk := ⟨[97], [100], 2, 3, 0, 1⟩

theorem counted_of_map {counted : Except Exception (Bytes × List LlamaToken)}
    {tokens : List LlamaToken} (h : counted.map Prod.snd = .ok tokens) :
    ∃ prompt, counted = .ok (prompt, tokens) := by
  cases counted with
  | error error => cases h
  | ok counted =>
      cases h
      exact ⟨counted.1, rfl⟩

theorem foundChunk_lost : ContextLost lostHost lostArguments [foundChunk] := by
  obtain ⟨prompt, hprompt⟩ := counted_of_map
    (show (promptTokens tenTokenGenerator lostArguments [foundChunk] 1).map Prod.snd =
      .ok (List.replicate 10 7) by decide +kernel)
  obtain ⟨bare, hbare⟩ := counted_of_map
    (show (promptTokens tenTokenGenerator lostArguments [foundChunk] 0).map Prod.snd = .ok [7]
      by decide +kernel)
  refine ⟨nofun, tenTokenGenerator, rfl, by decide, fun keep hpos hkeep => ?_,
    bare, [7], hbare, by decide⟩
  obtain rfl : keep = 1 := Nat.le_antisymm hkeep hpos
  refine ⟨fun ⟨found, tokens, hsame, hfits⟩ => ?_, fun ⟨error, herror⟩ => ?_⟩
  · cases hprompt.symm.trans hsame
    exact absurd hfits (by decide)
  · cases hprompt.symm.trans herror

/-- The only chunk found does not fit, and the question is answered without it. -/
theorem ask_answers_unsupported :
    ¬AnswersFromEvidence (preferring SearchResult.score ⟨0, 1, 0, 1, 0⟩) sampleOps lostHost
      lostArguments := by
  have hretrieved : (retrieve (preferring SearchResult.score ⟨0, 1, 0, 1, 0⟩) sampleOps lostHost
      lostArguments).result = .ok [foundChunk] := by
    decide +kernel
  exact fun h => not_contextLost h hretrieved foundChunk_lost

end Sample

end CppRag
