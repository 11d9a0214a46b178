import CppRag.AskCommand
import CppRag.GeneratorRuns
import CppRag.PromptTurns
import Mathlib.Order.Bounds.Basic

/-!
The loop of `run_ask` that trims the context. It keeps the longest prefix of the results
whose prompt fits, unless a longer prompt is refused before its tokens are counted.
-/
namespace CppRag
open Observed Failures

section Trimming
variable (generator : LlamaGenerator) (args : AskArguments) (chunks : List Chunk)

/-- The prompt from the first `keep` results and its tokens. -/
def promptTokens (keep : Nat) : Except Exception (Bytes × List LlamaToken) := do
  let prompt ← askPrompt args.systemPrompt (chunks.take keep) args.query
  let tokens ← generator.tokenize prompt
  pure (prompt, tokens)

/-- From 1 to `c - r` tokens. -/
def FitsWindow (tokens : List LlamaToken) : Prop :=
  1 ≤ tokens.length ∧
    tokens.length ≤ generator.contextSize.toNat - args.maxResponseTokens.toNat

instance (tokens : List LlamaToken) : Decidable (FitsWindow generator args tokens) :=
  inferInstanceAs (Decidable (_ ∧ _))

def Qualifies (keep : Nat) : Prop :=
  ∃ prompt tokens, promptTokens generator args chunks keep = .ok (prompt, tokens) ∧
    FitsWindow generator args tokens

/-- The assembly of the prompt or its tokenization throws. -/
def Refused (keep : Nat) : Prop := ∃ error, promptTokens generator args chunks keep = .error error

/-- The loop keeps the largest number of results that qualifies and throws when there is
none; the generator accepts the prompt that is kept; the budget never wraps. -/
structure TrimsMaximally : Prop where
  kept : ∀ keep prompt, (trimContext generator args chunks).result = .ok (keep, prompt) ↔
    IsGreatest {k | k ≤ chunks.length ∧ Qualifies generator args chunks k} keep ∧
      askPrompt args.systemPrompt (chunks.take keep) args.query = .ok prompt
  throws : (∃ failure, (trimContext generator args chunks).result = .error failure) ↔
    ∀ k, k ≤ chunks.length → ¬Qualifies generator args chunks k
  admitted : ∀ keep prompt, (trimContext generator args chunks).result = .ok (keep, prompt) →
    ∃ tokens, (generator.checkRequest prompt args.maxResponseTokens).result = .ok tokens
  budget_exact : ∀ event ∈ (trimContext generator args chunks).events,
    ∃ access : Access, event = .access access ∧ access.Exact 0
  checkRequest_exact : ∀ prompt,
    ∀ call ∈ (generator.checkRequest prompt args.maxResponseTokens).events,
    ∃ access : Access, call = .access access ∧ access.Exact 0

end Trimming

/-! One iteration. -/

theorem Ask.result_attempt {α : Type} (result : Except Exception α) :
    (Ask.attempt result).result = result.mapError .exception := rfl

section Iteration
variable {generator : LlamaGenerator} {args : AskArguments} {chunks : List Chunk}

theorem exact_budget (h : args.maxResponseTokens ≤ generator.contextSize) :
    (Access.sub generator.contextSize args.maxResponseTokens).Exact 0 :=
  (returns_subU64 h).1 _ (List.mem_singleton_self _)

theorem fitsContext_run (h : args.maxResponseTokens < generator.contextSize)
    (tokens : List LlamaToken) :
    Returns (fun event => ∃ access : Access, event = .access access ∧ access.Exact 0)
      (fitsContext generator args tokens) (decide (FitsWindow generator args tokens)) := by
  have hle : args.maxResponseTokens ≤ generator.contextSize :=
    UInt64.le_iff_toNat_le.mpr (Nat.le_of_lt (UInt64.lt_iff_toNat_lt.mp h))
  cases tokens with
  | nil =>
      have hnot : ¬(0 < ([] : List LlamaToken).length) := Nat.lt_irrefl 0
      rw [fitsContext, if_pos List.isEmpty_nil, decide_eq_false fun hfits => hnot hfits.1]
      exact returns_pure
  | cons token tokens =>
      have hsub := UInt64.toNat_sub_of_le _ _ hle
      rw [fitsContext, if_neg (by simp)]
      refine ⟨fun event hevent => ?_, ?_⟩
      · refine ⟨_, ?_, exact_budget hle⟩
        simpa [Ask.ofChecked, mapError, mapEvents, subU64, report, bind, pure, Except.mapError]
          using hevent
      · simp [Ask.ofChecked, mapError, mapEvents, subU64, report, bind, pure, Except.mapError,
          FitsWindow, hsub]

theorem tryKeep_refused {keep : Nat} {error : Exception}
    (h : promptTokens generator args chunks keep = .error error) :
    tryKeep generator args chunks keep = ⟨[], .error (.exception error)⟩ := by
  unfold promptTokens at h
  unfold tryKeep
  cases hprompt : askPrompt args.systemPrompt (chunks.take keep) args.query with
  | error found =>
      rw [hprompt] at h
      cases h
      rfl
  | ok prompt =>
      rw [hprompt] at h
      cases htokens : generator.tokenize prompt with
      | error found =>
          simp only [bind, Except.bind, htokens] at h
          cases h
          simp [Ask.attempt, ofResult, mapError, Except.mapError, bind, htokens]
      | ok tokens =>
          simp only [bind, Except.bind, htokens] at h
          cases h

theorem promptTokens_ok {keep : Nat} {prompt : Bytes} {tokens : List LlamaToken}
    (h : promptTokens generator args chunks keep = .ok (prompt, tokens)) :
    askPrompt args.systemPrompt (chunks.take keep) args.query = .ok prompt ∧
      generator.tokenize prompt = .ok tokens := by
  unfold promptTokens at h
  cases hprompt : askPrompt args.systemPrompt (chunks.take keep) args.query with
  | error found => rw [hprompt] at h; cases h
  | ok found =>
      rw [hprompt] at h
      cases htokens : generator.tokenize found with
      | error error => simp only [bind, Except.bind, htokens] at h; cases h
      | ok counted =>
          simp only [bind, Except.bind, htokens] at h
          cases h
          exact ⟨rfl, htokens⟩

theorem tryKeep_counted (hlt : args.maxResponseTokens < generator.contextSize) {keep : Nat}
    {prompt : Bytes} {tokens : List LlamaToken}
    (h : promptTokens generator args chunks keep = .ok (prompt, tokens)) :
    Returns (fun event => ∃ access : Access, event = .access access ∧ access.Exact 0)
      (tryKeep generator args chunks keep)
      (if FitsWindow generator args tokens then some prompt else none) := by
  obtain ⟨hprompt, htokens⟩ := promptTokens_ok h
  rw [tryKeep, hprompt]
  refine returns_bind (a := prompt) ⟨nofun, rfl⟩ (returns_bind (a := tokens) ⟨nofun, ?_⟩
    (returns_bind (fitsContext_run hlt tokens) ?_))
  · rw [Ask.result_attempt, htokens]
    rfl
  · simp only [decide_eq_true_eq]
    exact returns_pure

variable (hlt : args.maxResponseTokens < generator.contextSize)
include hlt

theorem tryKeep_some_iff {keep : Nat} {prompt : Bytes} :
    (tryKeep generator args chunks keep).result = .ok (some prompt) ↔
      ∃ tokens, promptTokens generator args chunks keep = .ok (prompt, tokens) ∧
        FitsWindow generator args tokens := by
  cases h : promptTokens generator args chunks keep with
  | error error =>
      rw [tryKeep_refused h]
      exact iff_of_false nofun fun ⟨_, hok, _⟩ => nomatch hok
  | ok counted =>
      obtain ⟨found, tokens⟩ := counted
      rw [(tryKeep_counted hlt h).2]
      constructor
      · intro hsome
        split at hsome
        · rename_i hfits
          cases hsome
          exact ⟨tokens, rfl, hfits⟩
        · cases hsome
      · rintro ⟨counted, heq, hfits⟩
        cases heq
        rw [if_pos hfits]

theorem qualifies_iff {keep : Nat} : Qualifies generator args chunks keep ↔
    ∃ prompt, (tryKeep generator args chunks keep).result = .ok (some prompt) :=
  exists_congr fun _ => (tryKeep_some_iff hlt).symm

theorem refused_iff {keep : Nat} : Refused generator args chunks keep ↔
    ∃ failure, (tryKeep generator args chunks keep).result = .error failure := by
  constructor
  · rintro ⟨error, h⟩
    exact ⟨_, by rw [tryKeep_refused h]⟩
  · rintro ⟨failure, h⟩
    cases hcounted : promptTokens generator args chunks keep with
    | error error => exact ⟨error, hcounted⟩
    | ok counted =>
        rw [(tryKeep_counted hlt hcounted).2] at h
        cases h

theorem tryKeep_exact (keep : Nat) : ∀ event ∈ (tryKeep generator args chunks keep).events,
    ∃ access : Access, event = .access access ∧ access.Exact 0 := by
  cases h : promptTokens generator args chunks keep with
  | error error =>
      rw [tryKeep_refused h]
      exact nofun
  | ok counted => exact (tryKeep_counted hlt h).1

end Iteration

/-! The loop. -/

section Loop
variable {generator : LlamaGenerator} {args : AskArguments} {chunks : List Chunk}

theorem trimContext_ok_iff {keep : Nat} {prompt : Bytes} :
    (trimContext generator args chunks).result = .ok (keep, prompt) ↔
      keep ≤ chunks.length ∧ (tryKeep generator args chunks keep).result = .ok (some prompt) ∧
        MissesAbove (tryKeep generator args chunks) keep chunks.length := by
  rw [← searchDown_some_iff, trimContext, bind_ok_iff]
  constructor
  · rintro ⟨found, hfound, hkept⟩
    cases found with
    | none => cases hkept
    | some kept => cases hkept; exact hfound
  · exact fun hfound => ⟨_, hfound, rfl⟩

/-- The loop throws what a refused prompt throws, or after the last prompt. -/
theorem trimContext_throws {failure : Failure}
    (h : (trimContext generator args chunks).result = .error failure) :
    (∃ k, k ≤ chunks.length ∧ (tryKeep generator args chunks k).result = .error failure ∧
        MissesAbove (tryKeep generator args chunks) k chunks.length) ∨
      ∀ k, k ≤ chunks.length → (tryKeep generator args chunks k).result = .ok none := by
  rcases misses_or_topmost (tryKeep generator args chunks) chunks.length with
    hall | ⟨k, hk, habove, hends⟩
  · exact .inr hall
  · left
    refine ⟨k, hk, ?_, habove⟩
    rw [trimContext] at h
    cases hfound : (tryKeep generator args chunks k).result with
    | error found =>
        rw [bind_of_error (searchDown_error_iff.mpr ⟨k, hk, hfound, habove⟩)] at h
        exact congrArg Except.error (Except.error.inj h)
    | ok found =>
        cases found with
        | none => exact absurd hfound hends
        | some prompt =>
            rw [bind_of_ok (searchDown_some_iff.mpr ⟨hk, hfound, habove⟩)] at h
            cases h

variable (hlt : args.maxResponseTokens < generator.contextSize)
include hlt

theorem trimContext_admitted {keep : Nat} {prompt : Bytes}
    (h : (trimContext generator args chunks).result = .ok (keep, prompt)) :
    ∃ tokens, (generator.checkRequest prompt args.maxResponseTokens).result = .ok tokens := by
  obtain ⟨tokens, hcounted, hfits⟩ := (tryKeep_some_iff hlt).mp (trimContext_ok_iff.mp h).2.1
  have hnat := UInt64.lt_iff_toNat_lt.mp hlt
  have hsome : tokens ≠ [] := List.length_pos_iff.mp hfits.1
  have hroom := hfits.2
  exact ⟨tokens, (LlamaGenerator.checkRequest_ok_iff tokens).mpr
    ⟨(promptTokens_ok hcounted).2, hsome, by omega⟩⟩

theorem trimContext_exact : ∀ event ∈ (trimContext generator args chunks).events,
    ∃ access : Access, event = .access access ∧ access.Exact 0 := by
  have htry (keep : Nat) : Within (fun event => ∃ access : Access, event = .access access ∧
      access.Exact 0) (fun _ => True) (tryKeep generator args chunks keep) :=
    ⟨tryKeep_exact hlt keep, fun _ _ => trivial⟩
  refine ((within_searchDown htry chunks.length).bind fun found => ?_).events
  cases found with
  | none => exact within_fail trivial
  | some kept => exact within_pure

theorem longer_of_maximal (hmaximal : TrimsMaximally generator args chunks) {k q : Nat}
    (hk : k ≤ chunks.length) (hrefused : Refused generator args chunks k)
    (hq : q ≤ chunks.length) (hqualifies : Qualifies generator args chunks q) :
    ∃ longer, k < longer ∧ longer ≤ chunks.length ∧ Qualifies generator args chunks longer := by
  cases htrim : (trimContext generator args chunks).result with
  | error failure => exact absurd hqualifies (hmaximal.throws.mp ⟨failure, htrim⟩ q hq)
  | ok kept =>
      obtain ⟨keep, prompt⟩ := kept
      obtain ⟨hkeep, hfound, habove⟩ := trimContext_ok_iff.mp htrim
      obtain ⟨failure, hfailure⟩ := (refused_iff hlt).mp hrefused
      refine ⟨keep, Nat.lt_of_not_le fun hle => ?_, hkeep, (qualifies_iff hlt).mpr ⟨_, hfound⟩⟩
      rcases Nat.lt_or_eq_of_le hle with hlater | rfl
      · rw [habove k hlater hk] at hfailure
        cases hfailure
      · rw [hfound] at hfailure
        cases hfailure

/-- What is kept qualifies, and nothing longer does. -/
theorem trimContext_greatest {keep : Nat} {prompt : Bytes}
    (h : (trimContext generator args chunks).result = .ok (keep, prompt)) :
    IsGreatest {k | k ≤ chunks.length ∧ Qualifies generator args chunks k} keep ∧
      askPrompt args.systemPrompt (chunks.take keep) args.query = .ok prompt := by
  obtain ⟨hkeep, hfound, habove⟩ := trimContext_ok_iff.mp h
  obtain ⟨tokens, hcounted, -⟩ := (tryKeep_some_iff hlt).mp hfound
  refine ⟨⟨⟨hkeep, (qualifies_iff hlt).mpr ⟨_, hfound⟩⟩, fun q hq => ?_⟩,
    (promptTokens_ok hcounted).1⟩
  obtain ⟨longer, hlonger⟩ := (qualifies_iff hlt).mp hq.2
  refine Nat.le_of_not_lt fun hlater => ?_
  rw [habove q hlater hq.1] at hlonger
  cases hlonger

theorem trimContext_throws_of_none
    (h : ∀ k, k ≤ chunks.length → ¬Qualifies generator args chunks k) :
    ∃ failure, (trimContext generator args chunks).result = .error failure := by
  cases htrim : (trimContext generator args chunks).result with
  | error failure => exact ⟨failure, rfl⟩
  | ok kept =>
      have hgreatest := (trimContext_greatest hlt htrim).1
      exact absurd hgreatest.1.2 (h _ hgreatest.1.1)

section Refusals
variable (hrefusals : ∀ k, k ≤ chunks.length → Refused generator args chunks k →
  (∃ q, q ≤ chunks.length ∧ Qualifies generator args chunks q) →
  ∃ q, k < q ∧ q ≤ chunks.length ∧ Qualifies generator args chunks q)
include hrefusals

theorem trimContext_keeps {keep : Nat} {prompt : Bytes}
    (hgreatest : IsGreatest {k | k ≤ chunks.length ∧ Qualifies generator args chunks k} keep)
    (hprompt : askPrompt args.systemPrompt (chunks.take keep) args.query = .ok prompt) :
    (trimContext generator args chunks).result = .ok (keep, prompt) := by
  obtain ⟨⟨hkeep, hqualifies⟩, hupper⟩ := hgreatest
  obtain ⟨found, tokens, hcounted, hfits⟩ := hqualifies
  have hsame := (promptTokens_ok hcounted).1
  rw [hprompt] at hsame
  cases hsame
  refine trimContext_ok_iff.mpr ⟨hkeep, (tryKeep_some_iff hlt).mpr ⟨tokens, hcounted, hfits⟩,
    fun j hlater hj => ?_⟩
  cases hresult : (tryKeep generator args chunks j).result with
  | error failure =>
      obtain ⟨q, hjq, hq, hlonger⟩ := hrefusals j hj ((refused_iff hlt).mpr ⟨_, hresult⟩)
        ⟨keep, hkeep, prompt, tokens, hcounted, hfits⟩
      have hle := hupper ⟨hq, hlonger⟩
      omega
  | ok found =>
      cases found with
      | none => rfl
      | some longer =>
          have hle := hupper ⟨hj, (qualifies_iff hlt).mpr ⟨longer, hresult⟩⟩
          omega

theorem none_of_trimContext_throws {failure : Failure}
    (h : (trimContext generator args chunks).result = .error failure) {k : Nat}
    (hk : k ≤ chunks.length) : ¬Qualifies generator args chunks k := by
  intro hqualifies
  rcases trimContext_throws h with ⟨j, hj, hfailure, habove⟩ | hall
  · obtain ⟨q, hjq, hq, hlonger⟩ :=
      hrefusals j hj ((refused_iff hlt).mpr ⟨failure, hfailure⟩) ⟨k, hk, hqualifies⟩
    obtain ⟨prompt, hfound⟩ := (qualifies_iff hlt).mp hlonger
    rw [habove q hjq hq] at hfound
    cases hfound
  · obtain ⟨prompt, hfound⟩ := (qualifies_iff hlt).mp hqualifies
    rw [hall k hk] at hfound
    cases hfound

end Refusals

/-- For every generator, options and results: trimming is maximal and agrees with the
generator if and only if every refused prompt is shorter than one that fits, when some
prompt fits at all. -/
theorem trimContext_maximal_iff : TrimsMaximally generator args chunks ↔
    ∀ k, k ≤ chunks.length → Refused generator args chunks k →
      (∃ q, q ≤ chunks.length ∧ Qualifies generator args chunks q) →
      ∃ q, k < q ∧ q ≤ chunks.length ∧ Qualifies generator args chunks q := by
  constructor
  · intro hmaximal k hk hrefused hsome
    obtain ⟨q, hq, hqualifies⟩ := hsome
    exact longer_of_maximal hlt hmaximal hk hrefused hq hqualifies
  · intro hrefusals
    refine ⟨fun keep prompt => ?_, ?_, fun keep prompt => trimContext_admitted hlt,
      trimContext_exact hlt, fun prompt call hcall => ?_⟩
    · constructor
      · exact trimContext_greatest hlt
      · rintro ⟨hgreatest, hprompt⟩
        exact trimContext_keeps hlt hrefusals hgreatest hprompt
    · constructor
      · rintro ⟨failure, hthrows⟩ k hk
        exact none_of_trimContext_throws hlt hrefusals hthrows hk
      · exact trimContext_throws_of_none hlt
    · obtain ⟨rfl, hle⟩ := LlamaGenerator.checkRequest_events call hcall
      exact ⟨_, rfl, exact_budget hle⟩

end Loop

/-! What is refused. -/

theorem length_text_le_prompt {systemPrompt query prompt : Bytes} {chunks : List Chunk}
    {chunk : Chunk} (hchunk : chunk ∈ chunks)
    (h : askPrompt systemPrompt chunks query = .ok prompt) :
    chunk.text.length ≤ prompt.length := by
  obtain ⟨userText, -, rfl, rfl⟩ := askPrompt_ok h
  have hmem : (⟨askId chunk, chunk.text⟩ : PromptChunk) ∈ askChunks chunks :=
    List.mem_map_of_mem hchunk
  have hblock := chunkBlock_length_le [] query hmem
  have htext : chunk.text.length ≤ (chunkBlock ⟨askId chunk, chunk.text⟩).length := by
    simp only [chunkBlock, List.length_append, length_escapeText, escapedSize]
    omega
  simp only [userTurn, List.length_append]
  omega

/-- A chunk beyond the limit of the tokenizer is refused with every prompt it is in. -/
theorem refused_of_large {generator : LlamaGenerator} {args : AskArguments}
    {chunks : List Chunk} {keep : Nat} {chunk : Chunk} (hchunk : chunk ∈ chunks.take keep)
    (hlarge : maxInt32 < chunk.text.length) : Refused generator args chunks keep := by
  unfold Refused promptTokens
  cases hprompt : askPrompt args.systemPrompt (chunks.take keep) args.query with
  | error error => exact ⟨error, rfl⟩
  | ok prompt =>
      have hlength := Nat.lt_of_lt_of_le hlarge (length_text_le_prompt hchunk hprompt)
      have hnonempty : prompt.isEmpty = false := by
        rw [List.isEmpty_eq_false_iff, ← List.length_pos_iff]
        exact Nat.lt_of_le_of_lt (Nat.zero_le _) hlength
      refine ⟨.lengthError "prompt is too large for llama.cpp tokenization", ?_⟩
      simp [bind, Except.bind, LlamaGenerator.tokenize, hnonempty, hlength, throw, throwThe,
        MonadExceptOf.throw]

section Witness

def oneTokenArguments : AskArguments :=
  ⟨ascii "e.gguf", ascii "q.gguf", ascii "i", ascii "q", [], 1, .cosine, 0, 1⟩

/-- Every byte is a token, and 200 tokens are a window. -/
def byteGenerator : LlamaGenerator where
  llamaTokenize text capacity :=
    if capacity = 0 then (-Int32.ofNat text.length, [])
    else (Int32.ofNat text.length, text.map fun byte => Int32.ofNat byte.toNat)
  llamaTokenToPiece _ _ := (1, [97])
  isEog _ := false
  nCtxSeq := 200
  batchTokens := 1
  batch_pos := by decide
  hasMemory := true
  greedy := true

def smallChunks : List Chunk :=
  [⟨ascii "a", ascii "b", 0, 1, 0, 1⟩, ⟨ascii "a", ascii "cd", 2, 4, 0, 2⟩]

/-- The second of two chunks is dropped: a prompt of 265 tokens becomes one of 189. -/
theorem trimContext_maximal_small :
    (trimContext byteGenerator oneTokenArguments smallChunks).result.toOption.map Prod.fst =
        some 1 ∧
      TrimsMaximally byteGenerator oneTokenArguments smallChunks := by
  refine ⟨by decide +kernel, (trimContext_maximal_iff (by decide)).mpr fun k hk hrefused _ => ?_⟩
  have hcounted : ∀ keep ∈ List.range 3,
      (promptTokens byteGenerator oneTokenArguments smallChunks keep).toOption.isSome := by
    decide +kernel
  have hsome := hcounted k (List.mem_range.mpr (Nat.lt_succ_of_le hk))
  obtain ⟨error, herror⟩ := hrefused
  rw [herror] at hsome
  cases hsome

/-- Every prompt is one token. -/
def oneTokenGenerator : LlamaGenerator where
  llamaTokenize _ capacity := if capacity = 0 then (-1, []) else (1, [7])
  llamaTokenToPiece _ _ := (1, [97])
  isEog _ := false
  nCtxSeq := 10
  batchTokens := 1
  batch_pos := by decide
  hasMemory := true
  greedy := true

/-- A chunk of `2^31` bytes. -/
def hugeChunk : Chunk := ⟨ascii "a", List.replicate (2 ^ 31) 97, 0, 2147483648, 0, 1⟩

theorem trimContext_gives_up :
    ¬TrimsMaximally oneTokenGenerator oneTokenArguments [hugeChunk] := by
  intro hmaximal
  have hrefused : Refused oneTokenGenerator oneTokenArguments [hugeChunk] 1 :=
    refused_of_large (List.mem_singleton_self _) (by
      rw [hugeChunk, List.length_replicate]
      decide)
  have hqualifies : Qualifies oneTokenGenerator oneTokenArguments [hugeChunk] 0 :=
    ⟨_, [7], rfl, by decide⟩
  obtain ⟨longer, hlater, hle, -⟩ := longer_of_maximal (by decide) hmaximal (Nat.le_refl 1)
    hrefused (Nat.zero_le _) hqualifies
  exact absurd hlater (Nat.not_lt.mpr hle)

end Witness

end CppRag
