import CppRag.GeneratorRuns
import CppRag.CommandLine

/-!
The text a call of `generate` returns. It is a beginning of what the pieces make, without
any stop sequence, and nothing is sampled or decoded once a stop sequence is complete. The
trimming of an unfinished stop sequence also applies to an answer that ended by itself.
-/
namespace CppRag
open Observed

namespace LlamaCall

def isAccept : LlamaCall → Bool
  | .accept _ => true
  | _ => false

/-- What is called after the token of this number, from 0 on, was accepted. -/
def afterAccept : Nat → List LlamaCall → List LlamaCall
  | _, [] => []
  | number, call :: calls =>
      if call.isAccept then
        match number with
        | 0 => calls
        | number + 1 => afterAccept number calls
      else afterAccept number calls

def accepts (calls : List LlamaCall) : Nat := calls.countP isAccept

theorem afterAccept_append {number : Nat} {before : List LlamaCall}
    (h : accepts before ≤ number) (calls : List LlamaCall) :
    afterAccept number (before ++ calls) = afterAccept (number - accepts before) calls := by
  induction before generalizing number with
  | nil => rfl
  | cons call before ih =>
      rw [List.cons_append, afterAccept.eq_def]
      dsimp only
      by_cases haccept : call.isAccept = true
      · rw [accepts, List.countP_cons_of_pos haccept] at h ⊢
        rw [if_pos haccept]
        cases number with
        | zero => exact absurd h (Nat.not_succ_le_zero _)
        | succ number =>
            rw [Nat.add_sub_add_right]
            exact ih (Nat.le_of_succ_le_succ h)
      · rw [accepts, List.countP_cons_of_neg haccept] at h ⊢
        rw [if_neg haccept]
        exact ih h

theorem afterAccept_of_none {calls : List LlamaCall} (number : Nat)
    (h : accepts calls = 0) : afterAccept number calls = [] := by
  have happend : afterAccept number (calls ++ []) = _ := afterAccept_append (by omega) []
  rw [List.append_nil] at happend
  rw [happend]
  cases number - accepts calls <;> rfl

theorem accepts_append (before after : List LlamaCall) :
    accepts (before ++ after) = accepts before + accepts after := List.countP_append

theorem accepts_rounds (session : Session) (start first count : Nat) :
    accepts ((List.range' first count).flatMap (session.round start)) = count := by
  induction count generalizing first with
  | zero => rfl
  | succ count ih =>
      rw [List.range'_succ, List.flatMap_cons, accepts_append, ih]
      exact Nat.add_comm 1 count

end LlamaCall

namespace LlamaGenerator
open LlamaCall
variable {generator : LlamaGenerator} {session : Session} {prompt : Bytes}
variable {maxResponseTokens : UInt64} {stopSequences : List Bytes}

theorem accepts_checkRequest :
    accepts (generator.checkRequest prompt maxResponseTokens).events = 0 := by
  rw [accepts, List.countP_eq_zero]
  intro call hcall
  rw [(checkRequest_events call hcall).1]
  exact Bool.false_ne_true

theorem accepts_frontCalls (batches : List (List BatchEntry)) :
    accepts (generator.frontCalls prompt maxResponseTokens batches) = 0 := by
  have hclear : accepts generator.clearCalls = 0 := by
    rw [clearCalls]
    split <;> rfl
  have hbatches : accepts (batches.map .decode) = 0 := by
    rw [accepts, List.countP_eq_zero]
    intro call hcall
    obtain ⟨batch, -, rfl⟩ := List.mem_map.mp hcall
    exact Bool.false_ne_true
  rw [frontCalls, accepts_append, accepts_append, accepts_checkRequest, hclear, hbatches]

/-- What the loop returns, and what it calls once a stop sequence is complete. -/
theorem respond_text (generator : LlamaGenerator) (session : Session)
    (stopSequences : List Bytes) (limit start : Nat) :
    (∀ response, (generator.respond session stopSequences limit 0 start []).result =
        .ok response →
      response <+: generator.textAfter session
        (accepts (generator.respond session stopSequences limit 0 start []).events) ∧
      StopFree stopSequences response) ∧
    ∀ number, ¬StopFree stopSequences (generator.textAfter session (number + 1)) →
      afterAccept number (generator.respond session stopSequences limit 0 start []).events =
        [] := by
  obtain ⟨count, tail, hending, hevents, hgoes⟩ :=
    respond_run_start generator session stopSequences limit start
  have hfree : StopFree stopSequences (generator.textAfter session count) := by
    cases count with
    | zero => exact stopFree_nil stopSequences
    | succ count => exact (hgoes count (Nat.lt_succ_self _)).stop_free
  have hge : ∀ number, ¬StopFree stopSequences (generator.textAfter session (number + 1)) →
      count ≤ number := fun number hstop =>
    Nat.le_of_not_lt fun hlt => hstop (hgoes number hlt).stop_free
  have hcalls : ∀ number, ¬StopFree stopSequences (generator.textAfter session (number + 1)) →
      afterAccept number (generator.respond session stopSequences limit 0 start []).events =
        afterAccept (number - count) tail := by
    intro number hstop
    have hreached : accepts ((List.range' 0 count).flatMap (session.round start)) ≤ number := by
      rw [accepts_rounds]
      exact hge number hstop
    rw [hevents, afterAccept_append hreached, accepts_rounds]
  have haccepts : accepts (generator.respond session stopSequences limit 0 start []).events =
      count + accepts tail := by
    rw [hevents, accepts_append, accepts_rounds]
  rw [haccepts]
  refine ⟨fun response hresponse => ?_, fun number hstop => ?_⟩
  · rw [hresponse] at hending
    cases hending with
    | budget => exact ⟨List.prefix_refl _, hfree⟩
    | eog => exact ⟨List.prefix_refl _, hfree⟩
    | stop => exact ⟨truncateAtStop_isPrefix _ _, truncateAtStop_stopFree _ _⟩
  · rw [hcalls number hstop]
    generalize (generator.respond session stopSequences limit 0 start []).result = outcome
      at hending
    cases hending with
    | budget => exact afterAccept_of_none _ rfl
    | eog => exact afterAccept_of_none _ rfl
    | noPiece => cases number - count <;> rfl
    | stop => cases number - count <;> rfl
    | undecoded _ _ hnext _ =>
        cases hlater : number - count with
        | zero =>
            have hsame : number = count :=
              Nat.le_antisymm (Nat.sub_eq_zero_iff_le.mp hlater) (hge number hstop)
            rw [hsame] at hstop
            exact absurd hnext hstop
        | succ later => cases later <;> rfl

/-- Whatever llama.cpp samples, the answer is a beginning of the accepted pieces without any
stop sequence, and nothing is called after the token that completes one. -/
theorem generate_stops (generator : LlamaGenerator) (session : Session) (prompt : Bytes)
    (maxResponseTokens : UInt64) (stopSequences : List Bytes) :
    (∀ response, (generator.generate session prompt maxResponseTokens stopSequences).result =
        .ok response →
      response <+: generator.textAfter session
        (accepts (generator.generate session prompt maxResponseTokens stopSequences).events) ∧
      StopFree stopSequences response) ∧
    ∀ number, ¬StopFree stopSequences (generator.textAfter session (number + 1)) →
      afterAccept number
        (generator.generate session prompt maxResponseTokens stopSequences).events = [] := by
  cases hchecked : (generator.checkRequest prompt maxResponseTokens).result with
  | error error =>
      rw [generate_refused session stopSequences hchecked]
      exact ⟨nofun, fun number _ => afterAccept_of_none number accepts_checkRequest⟩
  | ok tokens =>
      obtain ⟨batches, -, -, ⟨⟨error, herror⟩, -, hevents⟩ | ⟨-, -, hevents, hresult⟩⟩ :=
        generate_run session stopSequences hchecked
      · rw [herror, hevents]
        exact ⟨nofun, fun number _ => afterAccept_of_none number (accepts_frontCalls batches)⟩
      · obtain ⟨htext, hcalls⟩ := respond_text generator session stopSequences
          maxResponseTokens.toNat tokens.length
        rw [hevents, accepts_append, accepts_frontCalls, Nat.zero_add, hresult]
        refine ⟨fun response hresponse => ?_, fun number hstop => ?_⟩
        · cases hlonger : (generator.respond session stopSequences maxResponseTokens.toNat 0
              tokens.length []).result with
          | error error =>
              rw [hlonger] at hresponse
              cases hresponse
          | ok longer =>
              rw [hlonger] at hresponse
              cases hresponse
              obtain ⟨hstart, hfree⟩ := htext longer hlonger
              have htrim := trimPartialStop_isPrefix longer stopSequences
              exact ⟨htrim.trans hstart, hfree.of_prefix htrim⟩
        · rw [afterAccept_append (by rw [accepts_frontCalls]; exact Nat.zero_le _),
            accepts_frontCalls]
          exact hcalls number hstop

/-! Answers that end by themselves. -/

/-- llama.cpp yields the pieces one by one and then ends the generation, before the budget
is used up; all its calls succeed. -/
structure Finishes (generator : LlamaGenerator) (session : Session) (prompt : Bytes)
    (maxResponseTokens : UInt64) (tokens : List LlamaToken) (pieces : List Bytes) : Prop where
  admitted : (generator.checkRequest prompt maxResponseTokens).result = .ok tokens
  evaluated : (generator.evaluate session tokens).result = .ok ()
  sampler : session.samplerCreated = true
  budget : pieces.length < maxResponseTokens.toNat
  not_eog : ∀ number, number < pieces.length →
    generator.isEog (session.sampled number) = false
  piece : ∀ number (h : number < pieces.length),
    generator.tokenPiece (session.sampled number) = .ok pieces[number]
  decoded : ∀ number, number < pieces.length → session.responseDecode number = 0
  eog : generator.isEog (session.sampled pieces.length) = true

section Finishes
variable {tokens : List LlamaToken} {pieces : List Bytes}
  (h : Finishes generator session prompt maxResponseTokens tokens pieces)
include h

theorem Finishes.textAfter_eq {count : Nat} (hcount : count ≤ pieces.length) :
    generator.textAfter session count = (pieces.take count).flatten := by
  induction count with
  | zero => rfl
  | succ count ih =>
      have hlt : count < pieces.length := hcount
      rw [textAfter_succ, ih (Nat.le_of_lt hlt), pieceOf_of_ok (h.piece count hlt),
        List.take_succ_eq_append_getElem hlt, List.flatten_append, List.flatten_singleton]

theorem Finishes.textAfter_prefix {count : Nat} (hcount : count ≤ pieces.length) :
    generator.textAfter session count <+: pieces.flatten := by
  rw [h.textAfter_eq hcount]
  refine ⟨(pieces.drop count).flatten, ?_⟩
  rw [← List.flatten_append, List.take_append_drop]

/-- The loop collects all pieces. -/
theorem Finishes.respond_result (start : Nat) (hfree : StopFree stopSequences pieces.flatten) :
    (generator.respond session stopSequences maxResponseTokens.toNat 0 start []).result =
      .ok pieces.flatten := by
  obtain ⟨count, tail, hending, -, hgoes⟩ :=
    respond_run_start generator session stopSequences maxResponseTokens.toNat start
  have hle : count ≤ pieces.length := Nat.le_of_not_lt fun hlt => by
    have hnot := (hgoes pieces.length hlt).not_eog
    rw [h.eog] at hnot
    cases hnot
  have hbudget := h.budget
  have hlast : ∀ {number : Nat}, number ≤ pieces.length → number < pieces.length ∨
      number = pieces.length := fun hnumber => Nat.lt_or_eq_of_le hnumber
  generalize (generator.respond session stopSequences maxResponseTokens.toNat 0 start []).result =
    outcome at hending
  cases hending with
  | budget hlimit => omega
  | eog _ heog =>
      rcases hlast hle with hlt | rfl
      · rw [h.not_eog count hlt] at heog
        cases heog
      · rw [h.textAfter_eq (Nat.le_refl _), List.take_length]
  | noPiece _ hnot hpiece =>
      rcases hlast hle with hlt | rfl
      · rw [h.piece count hlt] at hpiece
        cases hpiece
      · rw [h.eog] at hnot
        cases hnot
  | stop _ hnot hstop =>
      rcases hlast hle with hlt | rfl
      · exact absurd (hfree.of_prefix (h.textAfter_prefix hlt)) hstop
      · rw [h.eog] at hnot
        cases hnot
  | undecoded _ hnot _ hdecode =>
      rcases hlast hle with hlt | rfl
      · exact absurd (h.decoded count hlt) hdecode
      · rw [h.eog] at hnot
        cases hnot

/-- With room for it, what `generate` makes of a finished answer is trimmed all the same. -/
theorem Finishes.generate_ok_iff (hfree : StopFree stopSequences pieces.flatten)
    (response : Bytes) :
    (generator.generate session prompt maxResponseTokens stopSequences).result = .ok response ↔
      session.Reserves maxResponseTokens ∧
        trimPartialStop pieces.flatten stopSequences = response := by
  obtain ⟨batches, -, -, ⟨⟨error, herror⟩, hfailed, -⟩ | ⟨hready, -, -, hresult⟩⟩ :=
    generate_run session stopSequences h.admitted
  · rw [herror]
    exact iff_of_false nofun fun hroom => hfailed ⟨h.evaluated, h.sampler, hroom.1⟩
  · rw [hresult, h.respond_result tokens.length hfree]
    exact ⟨fun hok => ⟨hready.reserved, Except.ok.inj hok⟩, fun hroom => congrArg _ hroom.2⟩

end Finishes

/-- A finished answer without stop sequences is returned whole exactly when there was room for
it and it ends with no proper beginning of a stop sequence. -/
theorem generate_whole_iff {tokens : List LlamaToken} {pieces : List Bytes}
    (h : Finishes generator session prompt maxResponseTokens tokens pieces)
    (hfree : StopFree stopSequences pieces.flatten) :
    (generator.generate session prompt maxResponseTokens stopSequences).result =
        .ok pieces.flatten ↔
      session.Reserves maxResponseTokens ∧
        ∀ stop ∈ stopSequences, ∀ start, start ≠ [] → start <+: stop → start ≠ stop →
          ¬start <:+ pieces.flatten := by
  rw [h.generate_ok_iff hfree, ← trimPartialStop_eq_self_iff]

theorem samplePiece_batch_pos : 0 < (4 : UInt32).toNat := by decide

/-- A generator whose prompts are one token and whose only piece is given. -/
def samplePiece (piece : Bytes) : LlamaGenerator where
  llamaTokenize _ capacity := if capacity = 0 then (-1, []) else (1, [7])
  llamaTokenToPiece _ _ := (Int32.ofNat piece.length, piece)
  isEog token := token = 2
  nCtxSeq := 8
  batchTokens := 4
  batch_pos := samplePiece_batch_pos
  hasMemory := true
  greedy := true

/-- One token, then the end of the generation. -/
def sampleSession : Session where
  samplerCreated := true
  promptDecode _ := 0
  sampled number := if number = 0 then 1 else 2
  responseDecode _ := 0
  memory := .unbounded

theorem samplePiece_finishes {piece : Bytes}
    (hpiece : (samplePiece piece).tokenPiece 1 = .ok piece) :
    Finishes (samplePiece piece) sampleSession (ascii "q") 4 [7] [piece] where
  admitted := (checkRequest_ok_iff _).mpr ⟨by rfl, by decide, by show 4 + 1 ≤ 8; decide⟩
  evaluated := evaluate_ok (fun _ => rfl) _ _
  sampler := rfl
  budget := by
    show 1 < 4
    decide
  not_eog number hlt := by
    rw [Nat.lt_one_iff.mp hlt]
    rfl
  piece number hlt := by
    cases Nat.lt_one_iff.mp hlt
    exact hpiece
  decoded _ _ := rfl
  eog := rfl

theorem generate_whole_word :
    ((samplePiece (ascii "ok")).generate sampleSession (ascii "q") 4 chatStopSequences).result =
      .ok (ascii "ok") :=
  (generate_whole_iff (samplePiece_finishes (by decide)) (by decide)).mpr
    ⟨by decide, (trimPartialStop_eq_self_iff _ _).mp (by decide)⟩

/-- A finished answer that ends with `<` loses it. -/
theorem generate_trims_finished :
    Finishes (samplePiece (ascii "a<")) sampleSession (ascii "q") 4 [7] [ascii "a<"] ∧
      StopFree chatStopSequences [ascii "a<"].flatten ∧
      ((samplePiece (ascii "a<")).generate sampleSession (ascii "q") 4
        chatStopSequences).result = .ok (ascii "a") := by
  have hfinishes : Finishes (samplePiece (ascii "a<")) sampleSession (ascii "q") 4 [7]
      [ascii "a<"] := samplePiece_finishes (by decide)
  exact ⟨hfinishes, by decide, (hfinishes.generate_ok_iff (by decide) _).mpr
    ⟨by decide, by decide⟩⟩

end LlamaGenerator

end CppRag
