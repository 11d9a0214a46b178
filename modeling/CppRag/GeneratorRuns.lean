import CppRag.StopSequences

/-!
What a call of `generate` does. The response loop runs in rounds: a token is sampled,
accepted and decoded. It goes on while no token ends it, and there are five ways to end.
-/
namespace CppRag
open Observed

namespace LlamaGenerator
variable (generator : LlamaGenerator) (session : Session) (stopSequences : List Bytes)

/-- The text of a token; none when llama.cpp cannot give it, where `generate` stops. -/
def pieceOf (token : LlamaToken) : Bytes := (generator.tokenPiece token).toOption.getD []

/-- The concatenated pieces of the first `count` sampled tokens. -/
def textAfter (count : Nat) : Bytes :=
  (List.range count).flatMap fun number => generator.pieceOf (session.sampled number)

theorem textAfter_succ (count : Nat) : generator.textAfter session (count + 1) =
    generator.textAfter session count ++ generator.pieceOf (session.sampled count) := by
  rw [textAfter, List.range_succ, List.flatMap_append, List.flatMap_singleton, textAfter]

variable {generator} in
theorem pieceOf_of_ok {token : LlamaToken} {piece : Bytes}
    (h : generator.tokenPiece token = .ok piece) : generator.pieceOf token = piece := by
  rw [pieceOf, h]
  rfl

/-- The loop goes on after token `number`. -/
structure GoesOn (number : Nat) : Prop where
  not_eog : generator.isEog (session.sampled number) = false
  piece : generator.tokenPiece (session.sampled number) =
    .ok (generator.pieceOf (session.sampled number))
  stop_free : StopFree stopSequences (generator.textAfter session (number + 1))
  decoded : session.responseDecode number = 0

end LlamaGenerator

def Session.entry (session : Session) (start number : Nat) : BatchEntry :=
  ⟨session.sampled number, llamaPos (start + number), [0], true⟩

/-- The calls of a full round. -/
def Session.round (session : Session) (start number : Nat) : List LlamaCall :=
  [.sample, .accept (session.sampled number), .decode [session.entry start number]]

namespace LlamaGenerator
variable (generator : LlamaGenerator) (session : Session) (stopSequences : List Bytes)

/-- How the loop ends at token `number`: its last calls and its outcome. -/
inductive Ending (start limit number : Nat) : List LlamaCall → Except Exception Bytes → Prop
  | budget (h : number = limit) :
      Ending start limit number [] (.ok (generator.textAfter session number))
  | eog (hlt : number < limit) (h : generator.isEog (session.sampled number) = true) :
      Ending start limit number [.sample] (.ok (generator.textAfter session number))
  | noPiece {error : Exception} (hlt : number < limit)
      (hnot : generator.isEog (session.sampled number) = false)
      (h : generator.tokenPiece (session.sampled number) = .error error) :
      Ending start limit number [.sample, .accept (session.sampled number)] (.error error)
  | stop (hlt : number < limit) (hnot : generator.isEog (session.sampled number) = false)
      (h : ¬StopFree stopSequences (generator.textAfter session (number + 1))) :
      Ending start limit number [.sample, .accept (session.sampled number)]
        (.ok (truncateAtStop (generator.textAfter session (number + 1)) stopSequences).1)
  | undecoded (hlt : number < limit)
      (hnot : generator.isEog (session.sampled number) = false)
      (hfree : StopFree stopSequences (generator.textAfter session (number + 1)))
      (h : session.responseDecode number ≠ 0) :
      Ending start limit number (session.round start number)
        (.error (.runtimeError "llama.cpp failed to evaluate response token"))

/-! One round of the loop, by what happens in it. -/

section Round
variable {generator session stopSequences}
variable {remaining number position : Nat} {response : Bytes}

theorem respond_eog (h : generator.isEog (session.sampled number) = true) :
    generator.respond session stopSequences (remaining + 1) number position response =
      ⟨[.sample], .ok response⟩ := by
  simp only [respond, report, bind, if_pos h, pure, List.append_nil]

theorem respond_noPiece {error : Exception}
    (hnot : generator.isEog (session.sampled number) = false)
    (h : generator.tokenPiece (session.sampled number) = .error error) :
    generator.respond session stopSequences (remaining + 1) number position response =
      ⟨[.sample, .accept (session.sampled number)], .error error⟩ := by
  simp [respond, report, bind, hnot, ofResult, h]

variable {piece : Bytes} (hnot : generator.isEog (session.sampled number) = false)
  (hpiece : generator.tokenPiece (session.sampled number) = .ok piece)
include hnot hpiece

theorem respond_stop (h : ¬StopFree stopSequences (response ++ piece)) :
    generator.respond session stopSequences (remaining + 1) number position response =
      ⟨[.sample, .accept (session.sampled number)],
        .ok (truncateAtStop (response ++ piece) stopSequences).1⟩ := by
  have hstopped := truncateAtStop_stopped h
  simp [respond, report, bind, hnot, ofResult, hpiece, hstopped, pure]

theorem respond_undecoded (hfree : StopFree stopSequences (response ++ piece))
    (h : session.responseDecode number ≠ 0) :
    generator.respond session stopSequences (remaining + 1) number position response =
      ⟨[.sample, .accept (session.sampled number),
        .decode [⟨session.sampled number, llamaPos position, [0], true⟩]],
        .error (.runtimeError "llama.cpp failed to evaluate response token")⟩ := by
  simp [respond, report, bind, hnot, ofResult, hpiece, truncateAtStop_of_stopFree hfree,
    failIf, h, fail]

theorem respond_next (hfree : StopFree stopSequences (response ++ piece))
    (h : session.responseDecode number = 0) :
    generator.respond session stopSequences (remaining + 1) number position response =
      ⟨[.sample, .accept (session.sampled number),
        .decode [⟨session.sampled number, llamaPos position, [0], true⟩]] ++
        (generator.respond session stopSequences remaining (number + 1) (position + 1)
          (response ++ piece)).events,
        (generator.respond session stopSequences remaining (number + 1) (position + 1)
          (response ++ piece)).result⟩ := by
  rw [respond]
  simp [report, bind, hnot, ofResult, hpiece, truncateAtStop_of_stopFree hfree, failIf, h, pure]

end Round

variable {generator session stopSequences}

/-- The run of the loop from token `first` on, by the token at which it ends. -/
theorem respond_run (generator : LlamaGenerator) (session : Session)
    (stopSequences : List Bytes) (start first remaining : Nat)
    (hfree : StopFree stopSequences (generator.textAfter session first)) :
    ∃ count tail, Ending generator session stopSequences start (first + remaining)
        (first + count) tail (generator.respond session stopSequences remaining first
          (start + first) (generator.textAfter session first)).result ∧
      (generator.respond session stopSequences remaining first (start + first)
          (generator.textAfter session first)).events =
        (List.range' first count).flatMap (session.round start) ++ tail ∧
      ∀ number, first ≤ number → number < first + count →
        GoesOn generator session stopSequences number := by
  induction remaining generalizing first with
  | zero => exact ⟨0, [], .budget rfl, rfl, fun number hge hlt => by omega⟩
  | succ remaining ih =>
      have hlt : first < first + (remaining + 1) := by omega
      cases heog : generator.isEog (session.sampled first) with
      | true =>
          rw [respond_eog heog]
          exact ⟨0, [.sample], .eog hlt heog, rfl, fun number hge hlt => by omega⟩
      | false =>
          cases hpiece : generator.tokenPiece (session.sampled first) with
          | error error =>
              rw [respond_noPiece heog hpiece]
              exact ⟨0, _, .noPiece hlt heog hpiece, rfl, fun number hge hlt => by omega⟩
          | ok piece =>
              have htext : generator.textAfter session first ++ piece =
                  generator.textAfter session (first + 1) := by
                rw [textAfter_succ, pieceOf_of_ok hpiece]
              by_cases hstop : StopFree stopSequences (generator.textAfter session (first + 1))
              · by_cases hdecode : session.responseDecode first = 0
                · obtain ⟨count, tail, hending, hevents, hgoes⟩ := ih (first + 1) hstop
                  rw [respond_next heog hpiece (htext ▸ hstop) hdecode, htext]
                  have hlimit : first + 1 + remaining = first + (remaining + 1) := by omega
                  have hnumber : first + 1 + count = first + (count + 1) := by omega
                  rw [hlimit, hnumber] at hending
                  refine ⟨count + 1, tail, hending, ?_, ?_⟩
                  · rw [List.range'_succ, List.flatMap_cons, List.append_assoc]
                    exact congrArg (session.round start first ++ ·) hevents
                  · intro number hge hlt
                    by_cases hfirst : number = first
                    · subst hfirst
                      exact ⟨heog, by rw [pieceOf_of_ok hpiece, hpiece], hstop, hdecode⟩
                    · exact hgoes number (by omega) (by omega)
                · rw [respond_undecoded heog hpiece (htext ▸ hstop) hdecode]
                  exact ⟨0, _, .undecoded hlt heog hstop hdecode, rfl,
                    fun number hge hlt => by omega⟩
              · rw [respond_stop heog hpiece (htext ▸ hstop), htext]
                exact ⟨0, _, .stop hlt heog hstop, rfl, fun number hge hlt => by omega⟩

/-- The run of the whole loop. -/
theorem respond_run_start (generator : LlamaGenerator) (session : Session)
    (stopSequences : List Bytes) (limit start : Nat) :
    ∃ count tail, Ending generator session stopSequences start limit count tail
        (generator.respond session stopSequences limit 0 start []).result ∧
      (generator.respond session stopSequences limit 0 start []).events =
        (List.range' 0 count).flatMap (session.round start) ++ tail ∧
      ∀ number, number < count → GoesOn generator session stopSequences number := by
  obtain ⟨count, tail, hending, hevents, hgoes⟩ :=
    respond_run generator session stopSequences start 0 limit (stopFree_nil stopSequences)
  have htext : generator.textAfter session 0 = [] := rfl
  simp only [Nat.zero_add, Nat.add_zero, htext] at hending hevents hgoes
  exact ⟨count, tail, hending, hevents, fun number hlt => hgoes number (Nat.zero_le _) hlt⟩

/-! The checks. -/

section Admission
variable {generator : LlamaGenerator} {prompt : Bytes} {maxResponseTokens : UInt64}

/-- The checks pass exactly when prompt and response fit; the room is then exact. -/
theorem exceedsContext_run (generator : LlamaGenerator) (maxResponseTokens : UInt64)
    (count : Nat) :
    ((generator.exceedsContext maxResponseTokens count).result = .ok false ↔
      maxResponseTokens.toNat + count ≤ generator.contextSize.toNat) ∧
    ∀ call ∈ (generator.exceedsContext maxResponseTokens count).events,
      call = .access (.sub generator.contextSize maxResponseTokens) ∧
        maxResponseTokens ≤ generator.contextSize := by
  by_cases hover : maxResponseTokens > generator.contextSize
  · have hlt := UInt64.lt_iff_toNat_lt.mp hover
    refine ⟨iff_of_false ?_ (by omega), ?_⟩
    · simp [exceedsContext, orElse, hover]
    · simp [exceedsContext, orElse, hover, bind, pure]
  · have hle : maxResponseTokens.toNat ≤ generator.contextSize.toNat :=
      Nat.le_of_not_lt fun h => hover (UInt64.lt_iff_toNat_lt.mpr h)
    have hroom := UInt64.toNat_sub_of_le _ _ (UInt64.le_iff_toNat_le.mpr hle)
    refine ⟨?_, ?_⟩
    · simp only [exceedsContext, orElse_false_iff, subU64, mapEvents, bind, report, pure,
        Except.ok.injEq, decide_eq_false_iff_not, hover, not_false_eq_true, true_and, hroom]
      omega
    · intro call hcall
      simp only [exceedsContext, orElse, hover, subU64, mapEvents, bind, report, pure] at hcall
      simp only [decide_false, List.map_cons, List.map_nil, List.append_nil, List.nil_append,
        Bool.false_eq_true, if_false, List.mem_singleton] at hcall
      exact ⟨hcall, UInt64.le_iff_toNat_le.mpr hle⟩

theorem checkRequest_ok_iff (tokens : List LlamaToken) :
    (generator.checkRequest prompt maxResponseTokens).result = .ok tokens ↔
      generator.tokenize prompt = .ok tokens ∧ tokens ≠ [] ∧
        maxResponseTokens.toNat + tokens.length ≤ generator.contextSize.toNat := by
  rw [checkRequest, bind_ok_iff]
  constructor
  · rintro ⟨found, htokens, hrest⟩
    obtain ⟨_, hempty, hrest⟩ := (bind_ok_iff _ _ _).mp hrest
    obtain ⟨_, hfits, hrest⟩ := (bind_ok_iff _ _ _).mp hrest
    cases hrest
    rw [failIf_ok_iff] at hempty
    rw [failWhen_ok_iff, (exceedsContext_run generator maxResponseTokens _).1] at hfits
    exact ⟨htokens, by simpa using hempty, hfits⟩
  · rintro ⟨htokens, hne, hfits⟩
    refine ⟨tokens, htokens, (bind_ok_iff _ _ _).mpr ⟨(), ?_, (bind_ok_iff _ _ _).mpr
      ⟨(), ?_, rfl⟩⟩⟩
    · rw [failIf_ok_iff]
      simpa using hne
    · rw [failWhen_ok_iff, (exceedsContext_run generator maxResponseTokens _).1]
      exact hfits

/-- The checks do nothing but subtract, and the subtraction does not wrap. -/
theorem checkRequest_events : ∀ call ∈ (generator.checkRequest prompt maxResponseTokens).events,
    call = .access (.sub generator.contextSize maxResponseTokens) ∧
      maxResponseTokens ≤ generator.contextSize := by
  refine (meets_bind (R := fun _ => True) (meets_ofResult _) fun tokens _ => ?_).1
  refine meets_bind (meets_failIf _ _) fun _ _ => ?_
  refine meets_bind (meets_failWhen (A := True) _ ?_) fun _ _ => meets_pure trivial
  exact ⟨(exceedsContext_run generator maxResponseTokens tokens.length).2, fun _ _ _ => trivial⟩

end Admission

/-! The prompt batches. -/

theorem length_batchAt (tokens : List LlamaToken) (offset count : Nat) :
    (batchAt tokens offset count).length = count := by
  rw [batchAt, List.length_map, List.length_range]

theorem batchAt_add (tokens : List LlamaToken) (offset first second : Nat) :
    batchAt tokens offset (first + second) =
      batchAt tokens offset first ++ batchAt tokens (offset + first) second := by
  simp only [batchAt, List.range_add, List.map_append, List.map_map]
  congr 2
  funext i
  simp only [Function.comp_apply, Nat.add_assoc]

/-- The entries a prompt is evaluated with. -/
def promptEntries (tokens : List LlamaToken) : List BatchEntry := batchAt tokens 0 tokens.length

section Evaluation
variable {generator : LlamaGenerator} {session : Session} {tokens : List LlamaToken}
variable {offset : Nat}

theorem evaluateFrom_failed (hlt : offset < tokens.length)
    (h : session.promptDecode offset ≠ 0) :
    generator.evaluateFrom session tokens offset =
      ⟨[.decode (batchAt tokens offset (generator.batchCount tokens offset))],
        .error (.runtimeError "llama.cpp failed to evaluate prompt tokens")⟩ := by
  rw [evaluateFrom, if_pos hlt]
  simp [bind, report, failIf, h, fail]

theorem evaluateFrom_next (hlt : offset < tokens.length) (h : session.promptDecode offset = 0) :
    generator.evaluateFrom session tokens offset =
      ⟨.decode (batchAt tokens offset (generator.batchCount tokens offset)) ::
        (generator.evaluateFrom session tokens
          (offset + generator.batchCount tokens offset)).events,
        (generator.evaluateFrom session tokens
          (offset + generator.batchCount tokens offset)).result⟩ := by
  rw [evaluateFrom, if_pos hlt]
  simp [bind, report, failIf, h, pure]

/-- The batches from `offset` on: all that is left, or its beginning when one fails. -/
theorem evaluateFrom_run (generator : LlamaGenerator) (session : Session)
    (tokens : List LlamaToken) (offset : Nat) :
    ∃ batches : List (List BatchEntry),
      (generator.evaluateFrom session tokens offset).events = batches.map .decode ∧
      (∀ batch ∈ batches, batch.length ≤ generator.batchTokens.toNat) ∧
      batches.flatten <+: batchAt tokens offset (tokens.length - offset) ∧
      ((generator.evaluateFrom session tokens offset).result = .ok () →
        batches.flatten = batchAt tokens offset (tokens.length - offset)) := by
  induction offset using evaluateFrom.induct generator tokens with
  | case1 offset hlt ih =>
      have hcount : generator.batchCount tokens offset ≤ generator.batchTokens.toNat :=
        Nat.min_le_left _ _
      have hrest : tokens.length - offset = generator.batchCount tokens offset +
          (tokens.length - (offset + generator.batchCount tokens offset)) := by
        have hle : generator.batchCount tokens offset ≤ tokens.length - offset :=
          Nat.min_le_right _ _
        omega
      by_cases hdecode : session.promptDecode offset = 0
      · obtain ⟨batches, hevents, hsizes, hprefix, hall⟩ := ih
        rw [evaluateFrom_next hlt hdecode, hrest, batchAt_add]
        refine ⟨batchAt tokens offset (generator.batchCount tokens offset) :: batches,
          congrArg (_ :: ·) hevents, ?_, ?_, fun hok => ?_⟩
        · rintro batch (_ | ⟨_, hbatch⟩)
          · rwa [length_batchAt]
          · exact hsizes batch hbatch
        · rw [List.flatten_cons]
          exact (List.prefix_append_right_inj _).mpr hprefix
        · rw [List.flatten_cons, hall hok]
      · rw [evaluateFrom_failed hlt hdecode, hrest, batchAt_add]
        refine ⟨[batchAt tokens offset (generator.batchCount tokens offset)], rfl, ?_, ?_, nofun⟩
        · intro batch hbatch
          rw [List.mem_singleton.mp hbatch, length_batchAt]
          exact hcount
        · rw [List.flatten_singleton]
          exact List.prefix_append _ _
  | case2 offset hge =>
      rw [evaluateFrom, if_neg hge]
      refine ⟨[], rfl, nofun, List.nil_prefix, fun _ => ?_⟩
      rw [Nat.sub_eq_zero_of_le (Nat.le_of_not_lt hge)]
      rfl

end Evaluation

/-! The whole call. -/

def clearCalls (generator : LlamaGenerator) : List LlamaCall :=
  if generator.hasMemory then [.clearMemory] else []

/-- The memory is cleared first, when there is one. -/
theorem evaluate_eq (generator : LlamaGenerator) (session : Session)
    (tokens : List LlamaToken) :
    generator.evaluate session tokens =
      ⟨generator.clearCalls ++ (generator.evaluateFrom session tokens 0).events,
        (generator.evaluateFrom session tokens 0).result⟩ := by
  rw [evaluate, clearCalls]
  cases generator.hasMemory with
  | false => rfl
  | true => rfl

theorem evaluate_run (generator : LlamaGenerator) (session : Session)
    (tokens : List LlamaToken) : ∃ batches : List (List BatchEntry),
      (generator.evaluate session tokens).events =
        generator.clearCalls ++ batches.map .decode ∧
      (∀ batch ∈ batches, batch.length ≤ generator.batchTokens.toNat) ∧
      batches.flatten <+: promptEntries tokens ∧
      ((generator.evaluate session tokens).result = .ok () →
        batches.flatten = promptEntries tokens) := by
  obtain ⟨batches, hevents, hsizes, hprefix, hall⟩ :=
    evaluateFrom_run generator session tokens 0
  rw [evaluate_eq, hevents]
  exact ⟨batches, rfl, hsizes, hprefix, hall⟩

theorem evaluateFrom_ok {session : Session} (h : ∀ offset, session.promptDecode offset = 0)
    (generator : LlamaGenerator) (tokens : List LlamaToken) (offset : Nat) :
    (generator.evaluateFrom session tokens offset).result = .ok () := by
  induction offset using evaluateFrom.induct generator tokens with
  | case1 offset hlt ih =>
      rw [evaluateFrom_next hlt (h offset)]
      exact ih
  | case2 offset hge =>
      rw [evaluateFrom, if_neg hge]
      rfl

theorem evaluate_ok {session : Session} (h : ∀ offset, session.promptDecode offset = 0)
    (generator : LlamaGenerator) (tokens : List LlamaToken) :
    (generator.evaluate session tokens).result = .ok () := by
  rw [evaluate_eq]
  exact evaluateFrom_ok h generator tokens 0

theorem makeSampler_events (generator : LlamaGenerator) (session : Session) :
    (generator.makeSampler session).events = [] := by
  unfold makeSampler
  split
  · rfl
  · cases session.samplerCreated <;> rfl

theorem makeSampler_ok_iff {generator : LlamaGenerator} {session : Session} :
    (generator.makeSampler session).result = .ok true ↔ session.samplerCreated = true := by
  unfold makeSampler
  cases session.samplerCreated <;> cases generator.greedy <;> decide

/-- The calls before the response, with the batches that were submitted. -/
def frontCalls (generator : LlamaGenerator) (prompt : Bytes) (maxResponseTokens : UInt64)
    (batches : List (List BatchEntry)) : List LlamaCall :=
  (generator.checkRequest prompt maxResponseTokens).events ++
    (generator.clearCalls ++ batches.map .decode)

section Generate
variable {generator : LlamaGenerator} {prompt : Bytes} {maxResponseTokens : UInt64}
variable {tokens : List LlamaToken} (session : Session) (stopSequences : List Bytes)

theorem generate_refused {error : Exception}
    (h : (generator.checkRequest prompt maxResponseTokens).result = .error error) :
    generator.generate session prompt maxResponseTokens stopSequences =
      ⟨(generator.checkRequest prompt maxResponseTokens).events, .error error⟩ := by
  simp only [generate, bind, h]

/-- Nothing fails between the checks and the response. -/
structure Ready (generator : LlamaGenerator) (session : Session) (tokens : List LlamaToken)
    (maxResponseTokens : UInt64) : Prop where
  evaluated : (generator.evaluate session tokens).result = .ok ()
  sampler : session.samplerCreated = true
  reserved : session.Reserves maxResponseTokens

/-- A prompt that passes the checks is evaluated; then the call fails or responds. -/
theorem generate_run
    (hchecked : (generator.checkRequest prompt maxResponseTokens).result = .ok tokens) :
    ∃ batches : List (List BatchEntry),
      (∀ batch ∈ batches, batch.length ≤ generator.batchTokens.toNat) ∧
      batches.flatten <+: promptEntries tokens ∧
      ((∃ error, (generator.generate session prompt maxResponseTokens stopSequences).result =
            .error error) ∧
          ¬Ready generator session tokens maxResponseTokens ∧
          (generator.generate session prompt maxResponseTokens stopSequences).events =
            generator.frontCalls prompt maxResponseTokens batches ∨
        Ready generator session tokens maxResponseTokens ∧
          batches.flatten = promptEntries tokens ∧
          (generator.generate session prompt maxResponseTokens stopSequences).events =
            generator.frontCalls prompt maxResponseTokens batches ++
              (generator.respond session stopSequences maxResponseTokens.toNat 0 tokens.length
                []).events ∧
          (generator.generate session prompt maxResponseTokens stopSequences).result =
            (generator.respond session stopSequences maxResponseTokens.toNat 0 tokens.length
              []).result.map (trimPartialStop · stopSequences)) := by
  obtain ⟨batches, hevents, hsizes, hprefix, hall⟩ := evaluate_run generator session tokens
  refine ⟨batches, hsizes, hprefix, ?_⟩
  rw [generate, events_bind_of_ok hchecked, bind_of_ok hchecked]
  cases hevaluate : (generator.evaluate session tokens).result with
  | error error =>
      rw [events_bind_of_error hevaluate, bind_of_error hevaluate, hevents]
      refine .inl ⟨⟨error, rfl⟩, fun hready => ?_, rfl⟩
      rw [hready.evaluated] at hevaluate
      cases hevaluate
  | ok _ =>
      rw [events_bind_of_ok hevaluate, bind_of_ok hevaluate, hevents]
      cases hsampler : (generator.makeSampler session).result with
      | error error =>
          rw [events_bind_of_error hsampler, bind_of_error hsampler, makeSampler_events,
            List.append_nil]
          refine .inl ⟨⟨error, rfl⟩, fun hready => ?_, rfl⟩
          rw [makeSampler_ok_iff.mpr hready.sampler] at hsampler
          cases hsampler
      | ok created =>
          rw [events_bind_of_ok hsampler, bind_of_ok hsampler, makeSampler_events,
            List.nil_append]
          cases created with
          | false =>
              refine .inl ⟨⟨_, rfl⟩, fun hready => ?_, by simp [failIf, fail, bind, frontCalls]⟩
              rw [makeSampler_ok_iff.mpr hready.sampler] at hsampler
              cases hsampler
          | true =>
              cases hreserve : session.reserveResponse maxResponseTokens with
              | error error =>
                  refine .inl ⟨⟨error, ?_⟩, fun hready => ?_, ?_⟩
                  · simp [failIf, ofResult, bind, pure]
                  · rw [Session.reserveResponse_ok_iff.mpr hready.reserved] at hreserve
                    cases hreserve
                  · simp [failIf, ofResult, bind, pure, frontCalls]
              | ok _ =>
                  refine .inr ⟨⟨hevaluate, makeSampler_ok_iff.mp hsampler,
                    Session.reserveResponse_ok_iff.mp hreserve⟩, hall hevaluate, ?_, ?_⟩
                  · cases hrespond : (generator.respond session stopSequences
                      maxResponseTokens.toNat 0 tokens.length []).result <;>
                      simp [failIf, ofResult, bind, pure, hrespond, frontCalls]
                  · cases hrespond : (generator.respond session stopSequences
                      maxResponseTokens.toNat 0 tokens.length []).result <;>
                      simp [failIf, ofResult, bind, pure, hrespond, Except.map]

end Generate

end LlamaGenerator

end CppRag
