import CppRag.QueryCommand
import CppRag.Foundation.Failures

/-!
What `query` and `ask` do before they answer, and how they fail. Each part of a command is walked
through once, for its events and its errors together.
-/
namespace CppRag
open Observed Failures

/-- A failure that shows: an exception, or a usage with an error. -/
def Failure.Spoken : Failure → Prop
  | .usage error => error ≠ []
  | .exception _ => True

section Steps
variable {E F α : Type} {P : E → Prop}

theorem within_requires {present : Bool} {error : String} (h : ascii error ≠ []) :
    Within P Failure.Spoken (failIf (!present) (.usage (ascii error)) : Observed E Failure Unit) :=
  within_failIf h

theorem within_attempt (result : Except Exception α) :
    Within P Failure.Spoken ((ofResult result).mapError .exception : Observed E Failure α) :=
  within_ofResult (fun _ => trivial) result

theorem within_calls {f : F → E} (hf : ∀ call, P (f call)) (m : Observed F Exception α) :
    Within P Failure.Spoken ((m.mapEvents f).mapError .exception) :=
  within_map hf (fun _ => trivial) m

end Steps

/-! `query` -/

/-- Nothing is printed by the event. -/
def QueryEvent.Quiet (event : QueryEvent) : Prop := ∀ text, event ≠ .output text

theorem outputText_append (before after : List QueryEvent) :
    outputText (before ++ after) = outputText before ++ outputText after :=
  List.flatMap_append

theorem outputText_eq_nil {events : List QueryEvent} (h : ∀ event ∈ events, event.Quiet) :
    outputText events = [] := by
  rw [outputText, List.flatMap_eq_nil_iff]
  intro event hevent
  cases event with
  | output text => exact absurd rfl (h _ hevent text)
  | access access => rfl

/-- The usage is shown with an error, and before anything is printed. -/
def UsageFirst {α : Type} (m : Query α) : Prop :=
  ∀ error, m.result = .error (.usage error) → error ≠ [] ∧ outputText m.events = []

theorem UsageFirst.spoken {α : Type} {m : Query α} (h : UsageFirst m) :
    FailsIn Failure.Spoken m.result := by
  intro failure hfailure
  cases failure with
  | usage error => exact (h error hfailure).1
  | exception exception => trivial

theorem usageFirst_bind {α β : Type} {m : Query α} {f : α → Query β}
    (hm : Within QueryEvent.Quiet Failure.Spoken m) (hf : ∀ a, UsageFirst (f a)) :
    UsageFirst (m >>= f) := by
  intro error herror
  have hquiet := outputText_eq_nil hm.events
  cases hresult : m.result with
  | error failure =>
      rw [bind_of_error hresult] at herror
      cases herror
      rw [events_bind_of_error hresult]
      exact ⟨hm.failsIn _ hresult, hquiet⟩
  | ok a =>
      rw [bind_of_ok hresult] at herror
      rw [events_bind_of_ok hresult, outputText_append, hquiet]
      exact hf a error herror

section Query
variable {K D : Type}

/-- By induction on the results. -/
theorem within_printResults (showScore : K → Bytes) (index : MmapIndex)
    (results : List (SearchResult K)) :
    Within (fun _ => True) (fun failure => ∃ exception, failure = .exception exception)
      (printResults showScore index results) := by
  induction results with
  | nil => exact within_pure
  | cons result results ih =>
      refine (within_map (fun _ => trivial) (fun e => ⟨e, rfl⟩) _).bind fun chunk => ?_
      exact (within_report trivial).bind fun _ => ih

theorem usageFirst_printResults (showScore : K → Bytes) (index : MmapIndex)
    (results : List (SearchResult K)) : UsageFirst (printResults showScore index results) := by
  intro error herror
  obtain ⟨exception, hexception⟩ := (within_printResults _ _ _).failsIn _ herror
  cases hexception

theorem usageFirst_runQuery [LinearOrder K] (pq : PriorityQueue (SearchResult.score (K := K)))
    (floats : FloatOps K) (showScore : K → Bytes) (host : QueryHost) (args : Arguments D) :
    UsageFirst (runQuery pq floats showScore host args) := by
  refine usageFirst_bind (within_requires (by decide)) fun _ => ?_
  refine usageFirst_bind (within_requires (by decide)) fun _ => ?_
  refine usageFirst_bind (within_requires (by decide)) fun _ => ?_
  refine usageFirst_bind (within_requires (by decide)) fun _ => ?_
  refine usageFirst_bind (within_attempt _) fun embed => ?_
  refine usageFirst_bind (within_attempt _) fun img => ?_
  refine usageFirst_bind (within_calls (fun _ _ => nofun) _) fun index => ?_
  refine usageFirst_bind (within_attempt _) fun queryEmbedding => ?_
  refine usageFirst_bind (within_calls (fun _ _ => nofun) _) fun results => ?_
  exact usageFirst_printResults showScore index results

end Query

/-! `ask` -/

/-- An event from before the call of the generator. -/
def AskEvent.Preparing : AskEvent → Prop
  | .access _ | .context .. | .diagnostic _ => True
  | .generate .. | .llama _ | .answer _ => False

/-- Nothing is printed by the event. -/
def AskEvent.Quiet (event : AskEvent) : Prop := ∀ text, event ≠ .answer text

theorem AskEvent.Preparing.quiet {event : AskEvent} (h : event.Preparing) : event.Quiet := by
  rintro text rfl
  exact h

section Ask
variable {K : Type} [LinearOrder K]

theorem within_checkAskArguments (args : AskArguments) :
    Within AskEvent.Preparing Failure.Spoken (checkAskArguments args) := by
  refine (within_requires (by decide)).bind fun _ => ?_
  refine (within_requires (by decide)).bind fun _ => ?_
  refine (within_requires (by decide)).bind fun _ => ?_
  refine (within_requires (by decide)).bind fun _ => ?_
  refine (within_requires (by decide)).bind fun _ => ?_
  exact within_requires (by decide)

omit [LinearOrder K] in
/-- By induction on the results. -/
theorem within_readChunks (index : MmapIndex) (results : List (SearchResult K)) :
    Within AskEvent.Preparing Failure.Spoken (readChunks index results) := by
  induction results with
  | nil => exact within_pure
  | cons result results ih =>
      refine (within_calls (fun _ => trivial) _).bind fun chunk => ?_
      refine (within_report trivial).bind fun _ => ?_
      exact ih.bind fun chunks => within_pure

theorem within_retrieve (pq : PriorityQueue (SearchResult.score (K := K))) (floats : FloatOps K)
    (host : AskHost) (args : AskArguments) :
    Within AskEvent.Preparing Failure.Spoken (retrieve pq floats host args) := by
  refine (within_checkAskArguments args).bind fun _ => ?_
  refine (within_attempt _).bind fun img => ?_
  refine (within_calls (fun _ => trivial) _).bind fun index => ?_
  refine (within_attempt _).bind fun queryEmbedding => ?_
  exact (within_calls (fun _ => trivial) _).bind fun results => within_readChunks index results

variable (generator : LlamaGenerator) (session : Session) (args : AskArguments)
variable (chunks : List Chunk)

theorem within_tryKeep (keep : Nat) :
    Within AskEvent.Preparing Failure.Spoken (tryKeep generator args chunks keep) := by
  refine (within_attempt _).bind fun prompt => ?_
  refine (within_attempt _).bind fun tokens => ?_
  refine Within.bind ?_ fun fits => within_pure
  rw [fitsContext]
  split
  · exact within_pure
  · exact (within_calls (fun _ => trivial) _).bind fun room => within_pure

theorem within_trimContext :
    Within AskEvent.Preparing Failure.Spoken (trimContext generator args chunks) := by
  refine (within_searchDown (within_tryKeep generator args chunks) _).bind fun kept => ?_
  cases kept with
  | some kept => exact within_pure
  | none => exact within_fail trivial

theorem within_noticeTrimmed (keep total : Nat) :
    Within AskEvent.Preparing Failure.Spoken (noticeTrimmed keep total) := by
  rw [noticeTrimmed]
  split
  · exact within_report trivial
  · exact within_pure

/-- The answer is printed as the last thing. -/
theorem failsAfter_printAnswer (prompt : Bytes) :
    FailsAfter AskEvent.Quiet Failure.Spoken (printAnswer generator session args prompt) := by
  refine (within_report fun _ => nofun).failsAfter fun _ => ?_
  exact (within_calls (fun _ _ => nofun) _).failsAfter fun answer => failsAfter_report _

theorem failsAfter_answerFrom (host : AskHost) :
    FailsAfter AskEvent.Quiet Failure.Spoken (answerFrom host args chunks) := by
  have hquiet : ∀ event : AskEvent, event.Preparing → event.Quiet := fun _ h => h.quiet
  rw [answerFrom]
  split
  · exact failsAfter_report _
  · refine (within_attempt _).failsAfter fun generator => ?_
    refine (within_failIf trivial).failsAfter fun _ => ?_
    refine ((within_trimContext _ _ _).imp hquiet).failsAfter fun kept => ?_
    refine ((within_noticeTrimmed _ _).imp hquiet).failsAfter fun _ => ?_
    exact failsAfter_printAnswer _ _ _ _

theorem failsAfter_runAsk (pq : PriorityQueue (SearchResult.score (K := K)))
    (floats : FloatOps K) (host : AskHost) :
    FailsAfter AskEvent.Quiet Failure.Spoken (runAsk pq floats host args) :=
  ((within_retrieve pq floats host args).imp fun _ h => h.quiet).failsAfter fun chunks =>
    failsAfter_answerFrom args chunks host

end Ask

end CppRag
