import CppRag.GeneratorRuns
import CppRag.CommandLine

/-!
What a call of `generate` submits to `llama_decode`: the prompt in batches, then the response
tokens one by one, each at the position after the one before. A `llama_pos` has 32 bits and
a sign, so the positions are these numbers for the first 2^31 tokens.
-/
namespace CppRag
open Observed

namespace LlamaCall

def batch? : LlamaCall → Option (List BatchEntry)
  | .decode batch => some batch
  | _ => none

def batches (calls : List LlamaCall) : List (List BatchEntry) := calls.filterMap batch?

/-- All entries submitted to `llama_decode`, in order. -/
def submitted (calls : List LlamaCall) : List BatchEntry := (batches calls).flatten

/-- The tokens submitted to `llama_decode`, in order. -/
def submittedTokens (calls : List LlamaCall) : List LlamaToken :=
  (submitted calls).map BatchEntry.token

theorem submitted_append (before after : List LlamaCall) :
    submitted (before ++ after) = submitted before ++ submitted after := by
  rw [submitted, batches, List.filterMap_append, List.flatten_append, submitted, submitted,
    batches, batches]

end LlamaCall

/-- Tokens at consecutive positions from `first` on, the logits requested from the last of
`promptSize` prompt tokens on. -/
def entriesFrom (promptSize first : Nat) (tokens : List LlamaToken) : List BatchEntry :=
  (tokens.zipIdx first).map fun pair =>
    ⟨pair.1, llamaPos pair.2, [0], promptSize ≤ pair.2 + 1⟩

theorem entriesFrom_append (promptSize first : Nat) (before after : List LlamaToken) :
    entriesFrom promptSize first (before ++ after) =
      entriesFrom promptSize first before ++
        entriesFrom promptSize (first + before.length) after := by
  rw [entriesFrom, List.zipIdx_append, List.map_append, entriesFrom, entriesFrom]

theorem take_entriesFrom (promptSize first size : Nat) (tokens : List LlamaToken) :
    (entriesFrom promptSize first tokens).take size =
      entriesFrom promptSize first (tokens.take size) := by
  induction tokens generalizing first size with
  | nil => rw [List.take_nil, entriesFrom, List.zipIdx_nil, List.map_nil, List.take_nil]
  | cons token tokens ih =>
      cases size with
      | zero => rfl
      | succ size =>
          have htail := ih (first + 1) size
          simp only [entriesFrom] at htail ⊢
          rw [List.zipIdx_cons, List.map_cons, List.take_succ_cons, List.take_succ_cons,
            List.zipIdx_cons, List.map_cons, htail]

theorem length_entriesFrom (promptSize first : Nat) (tokens : List LlamaToken) :
    (entriesFrom promptSize first tokens).length = tokens.length := by
  rw [entriesFrom, List.length_map, List.length_zipIdx]

theorem tokens_entriesFrom (promptSize first : Nat) (tokens : List LlamaToken) :
    (entriesFrom promptSize first tokens).map BatchEntry.token = tokens := by
  rw [entriesFrom, List.map_map]
  exact List.zipIdx_map_fst first tokens

namespace LlamaGenerator
open LlamaCall

theorem promptEntries_eq (tokens : List LlamaToken) :
    promptEntries tokens = entriesFrom tokens.length 0 tokens := by
  refine List.ext_getElem ?_ fun i hleft hright => ?_
  · rw [length_entriesFrom, promptEntries, length_batchAt]
  · rw [length_entriesFrom] at hright
    simp only [promptEntries, batchAt, entriesFrom, List.getElem_map, List.getElem_range,
      List.getElem_zipIdx, Nat.zero_add, BatchEntry.mk.injEq, true_and]
    refine ⟨(List.getElem_eq_getD 0).symm, decide_eq_decide.mpr ?_⟩
    omega

theorem submitted_rounds (session : Session) (start count : Nat) :
    submitted ((List.range' 0 count).flatMap (session.round start)) =
      entriesFrom start start ((List.range count).map session.sampled) := by
  have hsubmitted : ∀ numbers : List Nat,
      submitted (numbers.flatMap (session.round start)) = numbers.map (session.entry start) := by
    intro numbers
    induction numbers with
    | nil => rfl
    | cons number numbers ih =>
        rw [List.flatMap_cons, submitted_append, ih]
        rfl
  rw [hsubmitted, ← List.range_eq_range']
  refine List.ext_getElem ?_ fun i hleft hright => ?_
  · rw [length_entriesFrom, List.length_map, List.length_map]
  · simp only [entriesFrom, Session.entry, List.getElem_map, List.getElem_range,
      List.getElem_zipIdx, BatchEntry.mk.injEq, true_and]
    exact (decide_eq_true (by omega)).symm

section Runs
variable (generator : LlamaGenerator) (session : Session) (stopSequences : List Bytes)

/-- Token `number` is not decoded in a call that returns. -/
def EndsAt (limit number : Nat) : Prop :=
  number = limit ∨ generator.isEog (session.sampled number) = true ∨
    ¬StopFree stopSequences (generator.textAfter session (number + 1))

/-- The number of response tokens before the budget, the end of the generation or the token
that completes a stop sequence, whichever comes first. -/
structure ResponseLength (limit count : Nat) : Prop where
  ends : EndsAt generator session stopSequences limit count
  goes : ∀ number, number < count → ¬EndsAt generator session stopSequences limit number

end Runs

variable {generator : LlamaGenerator} {session : Session} {prompt : Bytes}
variable {maxResponseTokens : UInt64} {stopSequences : List Bytes} {tokens : List LlamaToken}

/-- Full rounds, then calls that submit nothing. -/
theorem submitted_of_rounds (session : Session) (start count : Nat) (tail : List LlamaCall)
    (htail : batches tail = []) :
    submitted ((List.range' 0 count).flatMap (session.round start) ++ tail) =
        entriesFrom start start ((List.range count).map session.sampled) ∧
      ∀ batch ∈ batches ((List.range' 0 count).flatMap (session.round start) ++ tail),
        batch.length = 1 := by
  refine ⟨?_, fun batch hbatch => ?_⟩
  · rw [submitted_append, submitted_rounds, submitted, htail, List.flatten_nil, List.append_nil]
  · rw [batches, List.filterMap_append, ← batches, ← batches, htail, List.append_nil,
      batches, List.mem_filterMap] at hbatch
    obtain ⟨call, hcall, hbatch⟩ := hbatch
    obtain ⟨number, -, hcall⟩ := List.mem_flatMap.mp hcall
    simp only [Session.round, List.mem_cons, List.not_mem_nil, or_false] at hcall
    rcases hcall with rfl | rfl | rfl
    · cases hbatch
    · cases hbatch
    · cases hbatch
      rfl

/-- The response tokens are submitted one by one. -/
theorem respond_submitted (generator : LlamaGenerator) (session : Session)
    (stopSequences : List Bytes) (limit start : Nat) :
    ∃ count, count ≤ limit ∧
      submitted (generator.respond session stopSequences limit 0 start []).events =
        entriesFrom start start ((List.range count).map session.sampled) ∧
      (∀ batch ∈ batches (generator.respond session stopSequences limit 0 start []).events,
        batch.length = 1) ∧
      ∀ response, (generator.respond session stopSequences limit 0 start []).result =
          .ok response → ResponseLength generator session stopSequences limit count := by
  obtain ⟨count, tail, hending, hevents, hgoes⟩ :=
    respond_run_start generator session stopSequences limit start
  rw [hevents]
  generalize (generator.respond session stopSequences limit 0 start []).result = outcome
    at hending ⊢
  have hgoes : count ≤ limit → ∀ number, number < count →
      ¬EndsAt generator session stopSequences limit number := by
    rintro hle number hlt (rfl | heog | hstop)
    · omega
    · rw [(hgoes number hlt).not_eog] at heog
      cases heog
    · exact hstop (hgoes number hlt).stop_free
  cases hending with
  | budget h =>
      obtain ⟨hsubmitted, hsizes⟩ := submitted_of_rounds session start count [] rfl
      exact ⟨count, Nat.le_of_eq h, hsubmitted, hsizes,
        fun _ _ => ⟨.inl h, hgoes (Nat.le_of_eq h)⟩⟩
  | eog hlt h =>
      obtain ⟨hsubmitted, hsizes⟩ := submitted_of_rounds session start count [.sample] rfl
      exact ⟨count, Nat.le_of_lt hlt, hsubmitted, hsizes,
        fun _ _ => ⟨.inr (.inl h), hgoes (Nat.le_of_lt hlt)⟩⟩
  | noPiece hlt =>
      obtain ⟨hsubmitted, hsizes⟩ := submitted_of_rounds session start count
        [.sample, .accept (session.sampled count)] rfl
      exact ⟨count, Nat.le_of_lt hlt, hsubmitted, hsizes, nofun⟩
  | stop hlt _ h =>
      obtain ⟨hsubmitted, hsizes⟩ := submitted_of_rounds session start count
        [.sample, .accept (session.sampled count)] rfl
      exact ⟨count, Nat.le_of_lt hlt, hsubmitted, hsizes,
        fun _ _ => ⟨.inr (.inr h), hgoes (Nat.le_of_lt hlt)⟩⟩
  | undecoded hlt =>
      obtain ⟨hsubmitted, hsizes⟩ :=
        submitted_of_rounds session start (count + 1) [] rfl
      rw [List.range'_1_concat, List.flatMap_append, List.flatMap_singleton, List.append_nil,
        Nat.zero_add] at hsubmitted hsizes
      exact ⟨count + 1, hlt, hsubmitted, hsizes, nofun⟩

/-! The whole call. -/

theorem batches_frontCalls (front : List (List BatchEntry)) :
    batches (generator.frontCalls prompt maxResponseTokens front) = front := by
  have hchecked : batches (generator.checkRequest prompt maxResponseTokens).events = [] := by
    rw [batches, List.filterMap_eq_nil_iff]
    intro call hcall
    rw [(checkRequest_events call hcall).1]
    rfl
  have hclear : batches generator.clearCalls = [] := by
    rw [clearCalls]
    split <;> rfl
  have hfront : batches (front.map .decode) = front := by
    rw [batches, List.filterMap_map]
    exact List.filterMap_some
  rw [frontCalls, batches, List.filterMap_append, List.filterMap_append, ← batches, ← batches,
    ← batches, hchecked, hclear, hfront, List.nil_append, List.nil_append]

/-- The tokens are submitted one after the other from position 0 on, in batches of allowed
size; the logits of the last prompt token and of everything behind it are requested. -/
structure DecodedInOrder (generator : LlamaGenerator) (promptSize : Nat)
    (expected : List LlamaToken) (calls : List LlamaCall) : Prop where
  pairs : (submitted calls).map (fun entry => (entry.token, entry.pos.toInt)) =
    expected.zipIdx.map fun pair => (pair.1, (pair.2 : Int))
  logits : (submitted calls).map (fun entry => entry.logits) =
    (List.range expected.length).map fun position => decide (promptSize ≤ position + 1)
  sizes : ∀ batch ∈ batches calls, batch.length ≤ generator.batchTokens.toNat
  below : ∀ entry ∈ submitted calls, entry.pos.toInt < generator.contextSize.toNat

theorem llamaPos_toInt {position : Nat} (h : position < 2 ^ 31) :
    (llamaPos position).toInt = position := Int32.toInt_ofNat_of_lt h

/-- Consecutive numbers are the positions as long as they are in the range of a
`llama_pos`. -/
theorem pairs_entriesFrom_iff (promptSize : Nat) (expected : List LlamaToken) :
    (entriesFrom promptSize 0 expected).map (fun entry => (entry.token, entry.pos.toInt)) =
        expected.zipIdx.map (fun pair => (pair.1, (pair.2 : Int))) ↔
      expected.length ≤ 2 ^ 31 := by
  rw [entriesFrom, List.map_map, List.map_inj_left]
  constructor
  · intro h
    by_contra hlong
    have hlt : 2 ^ 31 < expected.length := by omega
    have hmem : (expected[2 ^ 31], 2 ^ 31) ∈ expected.zipIdx :=
      List.mem_zipIdx_iff_getElem?.mpr (List.getElem?_eq_getElem hlt)
    have hpos := congrArg Prod.snd (h _ hmem)
    have hrange := (llamaPos (2 ^ 31)).toInt_lt
    simp only [Function.comp_apply] at hpos
    omega
  · rintro h ⟨token, position⟩ hmem
    have hlt := List.snd_lt_of_mem_zipIdx hmem
    simp only [Function.comp_apply, Prod.mk.injEq, true_and]
    exact llamaPos_toInt (by omega)

theorem decodedInOrder_iff {promptSize : Nat} {expected : List LlamaToken}
    {calls : List LlamaCall}
    (hsubmitted : submitted calls = entriesFrom promptSize 0 expected)
    (hsizes : ∀ batch ∈ batches calls, batch.length ≤ generator.batchTokens.toNat)
    (hlength : expected.length ≤ generator.contextSize.toNat) :
    DecodedInOrder generator promptSize expected calls ↔ expected.length ≤ 2 ^ 31 := by
  refine ⟨fun h => (pairs_entriesFrom_iff promptSize expected).mp (hsubmitted ▸ h.pairs),
    fun h => ⟨?_, ?_, hsizes, ?_⟩⟩
  · rw [hsubmitted]
    exact (pairs_entriesFrom_iff promptSize expected).mpr h
  · rw [hsubmitted, entriesFrom, List.map_map, List.range_eq_range', ← List.zipIdx_map_snd 0,
      List.map_map]
    rfl
  · rw [hsubmitted, entriesFrom]
    intro entry hentry
    obtain ⟨⟨token, position⟩, hmem, rfl⟩ := List.mem_map.mp hentry
    have hlt := List.snd_lt_of_mem_zipIdx hmem
    simp only [llamaPos_toInt (show position < 2 ^ 31 by omega)]
    omega

theorem generate_submitted (session : Session) (stopSequences : List Bytes)
    (hchecked : (generator.checkRequest prompt maxResponseTokens).result = .ok tokens) :
    ∃ count expected, count ≤ maxResponseTokens.toNat ∧
      expected <+: tokens ++ (List.range count).map session.sampled ∧
      submitted (generator.generate session prompt maxResponseTokens stopSequences).events =
        entriesFrom tokens.length 0 expected ∧
      (∀ batch ∈ batches
          (generator.generate session prompt maxResponseTokens stopSequences).events,
        batch.length ≤ generator.batchTokens.toNat) ∧
      ∀ response, (generator.generate session prompt maxResponseTokens stopSequences).result =
          .ok response →
        ResponseLength generator session stopSequences maxResponseTokens.toNat count ∧
          expected = tokens ++ (List.range count).map session.sampled := by
  obtain ⟨front, hfront, hprefix, ⟨⟨error, herror⟩, -, hevents⟩ | ⟨-, hall, hevents, hresult⟩⟩ :=
    generate_run session stopSequences hchecked
  · rw [promptEntries_eq] at hprefix
    have htake := List.prefix_iff_eq_take.mp hprefix
    rw [take_entriesFrom] at htake
    refine ⟨0, tokens.take front.flatten.length, Nat.zero_le _, ?_, ?_, ?_, ?_⟩
    · exact (List.take_prefix _ _).trans (List.prefix_append _ _)
    · rw [hevents, submitted, batches_frontCalls]
      exact htake
    · rw [hevents, batches_frontCalls]
      exact hfront
    · rw [herror]
      nofun
  · obtain ⟨count, hcount, hsubmitted, hsizes, hreturned⟩ := respond_submitted generator session
      stopSequences maxResponseTokens.toNat tokens.length
    refine ⟨count, tokens ++ (List.range count).map session.sampled, hcount,
      List.prefix_refl _, ?_, ?_, fun response hresponse => ⟨?_, rfl⟩⟩
    · rw [hevents, submitted_append, hsubmitted, submitted, batches_frontCalls, hall,
        promptEntries_eq, entriesFrom_append, Nat.zero_add]
    · rw [hevents, batches, List.filterMap_append, ← batches, ← batches, batches_frontCalls]
      intro batch hbatch
      rcases List.mem_append.mp hbatch with hbatch | hbatch
      · exact hfront batch hbatch
      · rw [hsizes batch hbatch]
        exact generator.batch_pos
    · cases hlonger : (generator.respond session stopSequences maxResponseTokens.toNat 0
          tokens.length []).result with
      | error error =>
          rw [hresult, hlonger] at hresponse
          cases hresponse
      | ok longer => exact hreturned longer hlonger

/-- What a returning call submits is in order exactly when prompt and response together have
at most 2^31 tokens; what a call that fails has submitted begins such a sequence, and is in
order exactly when it has at most as many. -/
theorem decoded_in_order_iff (generator : LlamaGenerator) (session : Session) (prompt : Bytes)
    (maxResponseTokens : UInt64) (stopSequences : List Bytes) (tokens : List LlamaToken)
    (hchecked : (generator.checkRequest prompt maxResponseTokens).result = .ok tokens) :
    (∀ response, (generator.generate session prompt maxResponseTokens stopSequences).result =
        .ok response →
      ∃ count,
        ResponseLength generator session stopSequences maxResponseTokens.toNat count ∧
        (DecodedInOrder generator tokens.length
            (tokens ++ (List.range count).map session.sampled)
            (generator.generate session prompt maxResponseTokens stopSequences).events ↔
          tokens.length + count ≤ 2 ^ 31)) ∧
    ∀ error, (generator.generate session prompt maxResponseTokens stopSequences).result =
        .error error →
      (∃ count, count ≤ maxResponseTokens.toNat ∧
        submittedTokens (generator.generate session prompt maxResponseTokens
          stopSequences).events <+: tokens ++ (List.range count).map session.sampled) ∧
      (DecodedInOrder generator tokens.length
          (submittedTokens (generator.generate session prompt maxResponseTokens
            stopSequences).events)
          (generator.generate session prompt maxResponseTokens stopSequences).events ↔
        (submittedTokens (generator.generate session prompt maxResponseTokens
          stopSequences).events).length ≤ 2 ^ 31) := by
  obtain ⟨-, -, hfits⟩ := (checkRequest_ok_iff tokens).mp hchecked
  obtain ⟨count, expected, hcount, hprefix, hsubmitted, hsizes, hreturned⟩ :=
    generate_submitted session stopSequences hchecked
  have hlength := hprefix.length_le
  rw [List.length_append, List.length_map, List.length_range] at hlength
  have hiff := decodedInOrder_iff hsubmitted hsizes (by omega)
  have hexpected : submittedTokens (generator.generate session prompt maxResponseTokens
      stopSequences).events = expected := by
    rw [submittedTokens, hsubmitted, tokens_entriesFrom]
  refine ⟨fun response hresponse => ⟨count, ?_⟩, fun error _ => ?_⟩
  · obtain ⟨hends, rfl⟩ := hreturned response hresponse
    rw [List.length_append, List.length_map, List.length_range] at hiff
    exact ⟨hends, hiff⟩
  · rw [hexpected]
    exact ⟨⟨count, hcount, hprefix⟩, hiff⟩

/-- A generator that never ends the generation, with a context of `nCtxSeq` tokens. -/
def sampleEndless (nCtxSeq : UInt32) : LlamaGenerator where
  llamaTokenize _ capacity := if capacity = 0 then (-1, []) else (1, [7])
  llamaTokenToPiece _ _ := (0, [])
  isEog _ := false
  nCtxSeq := nCtxSeq
  batchTokens := 4
  batch_pos := by decide
  hasMemory := true
  greedy := true

def sampleStream : Session where
  samplerCreated := true
  promptDecode _ := 0
  sampled _ := 1
  responseDecode _ := 0
  memory := .unbounded

theorem sampleEndless_length {nCtxSeq : UInt32} {limit count : Nat}
    (h : ResponseLength (sampleEndless nCtxSeq) sampleStream [] limit count) : count = limit := by
  rcases h.ends with rfl | heog | hstop
  · rfl
  · cases heog
  · exact absurd (fun _ hstop => absurd hstop List.not_mem_nil) hstop

/-- A request that passes the checks is small enough to be reserved. -/
theorem sampleStream_reserves {nCtxSeq : UInt32} {maxResponseTokens : UInt64}
    (hchecked : ((sampleEndless nCtxSeq).checkRequest (ascii "q") maxResponseTokens).result =
      .ok [7]) : sampleStream.Reserves maxResponseTokens := by
  obtain ⟨-, -, hfits⟩ := (checkRequest_ok_iff _).mp hchecked
  rw [contextSize, UInt32.toNat_toUInt64, List.length_singleton] at hfits
  have hsize := (sampleEndless nCtxSeq).nCtxSeq.toNat_lt
  refine ⟨?_, .inr rfl⟩
  rw [UInt64.toNat_mul, maxPtrdiff, show (4 : UInt64).toNat = 4 from rfl]
  omega

theorem sampleEndless_returns {nCtxSeq : UInt32} {maxResponseTokens : UInt64}
    (hchecked :
      ((sampleEndless nCtxSeq).checkRequest (ascii "q") maxResponseTokens).result = .ok [7]) :
    ∃ response, ((sampleEndless nCtxSeq).generate sampleStream (ascii "q") maxResponseTokens
      []).result = .ok response := by
  obtain ⟨front, -, -, ⟨-, hfailed, -⟩ | ⟨-, -, -, hresult⟩⟩ :=
    generate_run sampleStream [] hchecked
  · exact absurd ⟨evaluate_ok (fun _ => rfl) _ _, rfl, sampleStream_reserves hchecked⟩ hfailed
  · obtain ⟨count, tail, hending, -, -⟩ := respond_run_start (sampleEndless nCtxSeq)
      sampleStream [] maxResponseTokens.toNat [(7 : LlamaToken)].length
    rw [hresult]
    generalize ((sampleEndless nCtxSeq).respond sampleStream [] maxResponseTokens.toNat 0
      [(7 : LlamaToken)].length []).result = outcome at hending ⊢
    cases hending with
    | noPiece _ _ h => cases h
    | undecoded _ _ _ h => exact absurd rfl h
    | _ => exact ⟨_, rfl⟩

theorem sampleEndless_admits {nCtxSeq : UInt32} {maxResponseTokens : UInt64}
    (h : maxResponseTokens.toNat + 1 ≤ nCtxSeq.toNat) :
    ((sampleEndless nCtxSeq).checkRequest (ascii "q") maxResponseTokens).result = .ok [7] := by
  refine (checkRequest_ok_iff _).mpr ⟨by rfl, by decide, ?_⟩
  rw [contextSize, UInt32.toNat_toUInt64]
  exact h

theorem decoded_in_order_three :
    DecodedInOrder (sampleEndless 8) 1 ([7] ++ (List.range 3).map sampleStream.sampled)
      ((sampleEndless 8).generate sampleStream (ascii "q") 3 []).events := by
  have hchecked : ((sampleEndless 8).checkRequest (ascii "q") 3).result = .ok [7] :=
    sampleEndless_admits (by decide)
  obtain ⟨response, hresponse⟩ := sampleEndless_returns hchecked
  obtain ⟨count, hlength, hiff⟩ :=
    (decoded_in_order_iff (sampleEndless 8) sampleStream (ascii "q") 3 [] [7] hchecked).1 response
      hresponse
  cases sampleEndless_length hlength
  exact hiff.mpr (by decide)

/-- After 2^31 tokens in a large enough context the next position is negative. -/
theorem decoded_out_of_order :
    ((sampleEndless 2147483649).checkRequest (ascii "q") 2147483648).result = .ok [7] ∧
      (∃ response, ((sampleEndless 2147483649).generate sampleStream (ascii "q") 2147483648
        []).result = .ok response) ∧
      ∃ count, ResponseLength (sampleEndless 2147483649) sampleStream [] 2147483648 count ∧
        ¬DecodedInOrder (sampleEndless 2147483649) 1
          ([7] ++ (List.range count).map sampleStream.sampled)
          ((sampleEndless 2147483649).generate sampleStream (ascii "q") 2147483648 []).events := by
  have hchecked :
      ((sampleEndless 2147483649).checkRequest (ascii "q") 2147483648).result = .ok [7] :=
    sampleEndless_admits (by decide)
  obtain ⟨response, hresponse⟩ := sampleEndless_returns hchecked
  obtain ⟨count, expected, -, -, hsubmitted, hsizes, hreturned⟩ :=
    generate_submitted sampleStream [] hchecked
  obtain ⟨hlength, rfl⟩ := hreturned response hresponse
  refine ⟨hchecked, ⟨response, hresponse⟩, count, hlength, fun horder => ?_⟩
  have hpairs := (pairs_entriesFrom_iff 1 _).mp (hsubmitted ▸ horder.pairs)
  cases sampleEndless_length hlength
  rw [List.length_append, List.length_map, List.length_range] at hpairs
  exact absurd hpairs (by decide)

end LlamaGenerator

end CppRag
