import CppRag.OwnedResources
import CppRag.ProgramRuns

/-!
The commands with what they own. A destructor is the end of a scope: of the embedder and of the
generator, with their guard, model and context, and of the mapped index. The usage ends the
process without destructors, and so does whatever kills it. Without the scopes these are the
commands of the program.
-/
namespace CppRag
open Observed Scopes

abbrev Run (α : Type) : Type := Observed (Deed Resource ProgramEvent) Stop α

def Stop.fate : Stop → Fate
  | .failure (.usage _) => .exits
  | .failure (.exception _) => .unwinds
  | .killed => .dies

namespace Run

def attempt {α : Type} (result : Except Exception α) : Run α := ofResult (Stop.attempt result)

def event (event : ProgramEvent) : Run Unit := report (.event event)

def ask {α : Type} (m : Ask α) : Run α := perform .ask (m.mapError .failure)

def query {α : Type} (m : Query α) : Run α := perform .query (m.mapError .failure)

def llama {α : Type} (m : Owning α) : Run α :=
  (m.mapEvents (Deed.map fun call => .ask (.llama call))).mapError fun e => .failure (.exception e)

end Run

open Run

namespace Owned

/-- An `Impl`, from its constructor, which may throw at any point, to its destructor. -/
def withImpl {M C A α : Type} (kind : ImplKind) (parts : Construction M C A) (use : A → Run α) :
    Run α :=
  holding Stop.fate .backend do
    attempt parts.checks
    event (.loadModel kind parts.modelParams)
    let model ← attempt parts.loadModel
    holding Stop.fate (.model kind) do
      event (.createContext kind parts.contextParams)
      let context ← attempt (parts.createContext model)
      holding Stop.fate (.context kind) do
        let object ← attempt (parts.finish model context)
        use object

section Commands
variable {σ D F M C K : Type} [LinearOrder K] (pq : PriorityQueue (SearchResult.score (K := K)))
variable (floats : FloatOps K) (showScore : K → Bytes) (host : LlamaHost σ D F M C)
variable (args : Arguments D) (fs : FileSystem String)

def withEmbedder {α : Type} (use : LlamaEmbedder σ × EmbedderState σ → Run α) : Run α :=
  withImpl .embedder (constructEmbedder host.api args.model (embedderOptions args)) use

def withGenerator {α : Type} (model : Bytes) (use : LlamaGenerator → Run α) : Run α :=
  withImpl .generator
    (constructGenerator host.api host.floats model (generatorOptions args host.toFloat)) use

def runIndex : Run Unit := do
  ofResult (Stop.requires (!args.output.isEmpty) "--output is required")
  ofResult (Stop.requires (!args.inputs.isEmpty) "at least one --input is required")
  let scales ← ofResult ((parseScales args.scales).mapError .failure)
  ofResult (Stop.requires (!args.model.isEmpty) "--model is required")
  withEmbedder host args fun (embedder, state) => do
    event .embed
    let items ← ofResult (indexInputs host.files embedder ⟨args.chunkBytes, args.overlapBytes⟩
      scales state args.inputs)
    let line ← ofResult
      (writeItems (indexHost host.toMainHost args) args items embedder.dimensions fs).1
    event (.print line)

def runQuery : Run Unit := do
  query (Query.requires (!args.index.isEmpty) "--index is required")
  query (Query.requires (!args.query.isEmpty) "--query is required")
  query (Query.requires (args.topK ≠ 0) "--top-k must be at least 1")
  query (Query.requires (!args.model.isEmpty) "--model is required")
  withEmbedder host args fun made => do
    let img ← attempt (mapFile fs args.index)
    holding Stop.fate .index do
      let index ← query (Query.ofChecked (MmapIndex.openImage img))
      event .embed
      let queryEmbedding ← attempt (embedWith made args.query)
      let results ← query (Query.ofChecked (search pq host.memory floats index queryEmbedding
        args.topK.toNat ⟨args.metric, args.perScale.toNat⟩))
      query (printResults showScore index results)

def printAnswer (generator : LlamaGenerator) (prompt : Bytes) : Run Unit := do
  ask (report (.generate prompt args.maxResponseTokens))
  let answer ← llama
    (generate generator host.session prompt args.maxResponseTokens chatStopSequences)
  ask (report (.answer answer))

def runGenerate : Run Unit := do
  ask (Ask.requires (!args.model.isEmpty) "--model is required")
  ask (Ask.requires (!args.prompt.isEmpty) "--prompt is required")
  ask (Ask.requires (args.maxResponseTokens ≠ 0) "--max-tokens must be at least 1")
  let prompt ← attempt (generatePrompt args)
  withGenerator host args args.model fun generator => printAnswer host args generator prompt

/-- From the mapped index to the retrieved chunks; the embedder goes before they are used. -/
def retrieveFrom (index : MmapIndex) : Run (List Chunk) :=
  withEmbedder host args fun made => do
    event .embed
    let queryEmbedding ← attempt (embedWith made args.query)
    let results ← ask (Ask.ofChecked (search pq host.memory floats index queryEmbedding
      args.topK.toNat ⟨args.metric, args.perScale.toNat⟩))
    ask (readChunks index results)

def answerFrom (chunks : List Chunk) : Run Unit :=
  if chunks.isEmpty then ask (report (.diagnostic refusal))
  else
    withGenerator host args args.generator fun generator => do
      ask (failIf (args.maxResponseTokens ≥ generator.contextSize)
        (.exception (.runtimeError "--max-tokens must be smaller than --ctx")))
      let (keep, prompt) ← ask (trimContext generator (askArguments args) chunks)
      ask (noticeTrimmed keep chunks.length)
      printAnswer host args generator prompt

def runAsk : Run Unit := do
  ask (checkAskArguments (askArguments args))
  let img ← attempt (mapFile fs args.index)
  holding Stop.fate .index do
    let index ← ask (Ask.ofChecked (MmapIndex.openImage img))
    let chunks ← retrieveFrom pq floats host args index
    answerFrom host args chunks

def runCommandLine : Run Unit :=
  if args.command = ascii "index" then runIndex host args fs
  else if args.command = ascii "query" then runQuery pq floats showScore host args fs
  else if args.command = ascii "generate" then runGenerate host args
  else if args.command = ascii "ask" then runAsk pq floats host args fs
  else fail (.failure (.usage (ascii "command must be index, query, generate, or ask")))

def main (ops : DoubleOps D) (argv : List Bytes) : Run Unit :=
  match parse ops argv with
  | .error failure => fail (.failure failure)
  | .ok args => runCommandLine pq floats showScore host args fs

end Commands

/-! Without the scopes. -/

/-- What a run shows to others than llama.cpp. -/
inductive Seen where
  | ask (event : AskEvent)
  | query (event : QueryEvent)
  | print (line : Bytes)

def seen? : ProgramEvent → Option Seen
  | .ask event => some (.ask event)
  | .query event => some (.query event)
  | .print line => some (.print line)
  | _ => none

def seenAsk {α : Type} (m : Ask α) : Observed Seen Stop α := (m.mapEvents .ask).mapError .failure

def seenQuery {α : Type} (m : Query α) : Observed Seen Stop α :=
  (m.mapEvents .query).mapError .failure

section Homomorphisms
variable {α β : Type}

theorem seenAsk_bind (m : Ask α) (f : α → Ask β) :
    seenAsk (m >>= f) = seenAsk m >>= fun a => seenAsk (f a) := by
  rw [seenAsk, mapEvents_bind, mapError_bind]
  rfl

theorem seenQuery_bind (m : Query α) (f : α → Query β) :
    seenQuery (m >>= f) = seenQuery m >>= fun a => seenQuery (f a) := by
  rw [seenQuery, mapEvents_bind, mapError_bind]
  rfl

theorem seenAsk_attempt (result : Except Exception α) :
    seenAsk (Ask.attempt result) = ofResult (Stop.attempt result) := by
  cases result <;> rfl

theorem seenQuery_attempt (result : Except Exception α) :
    seenQuery (Query.attempt result) = ofResult (Stop.attempt result) := by
  cases result <;> rfl

theorem erase_ask (m : Ask α) : erase seen? (Run.ask m) = seenAsk m :=
  erase_perform seen? ProgramEvent.ask Seen.ask (fun _ => rfl) (m.mapError Stop.failure)

theorem erase_query (m : Query α) : erase seen? (Run.query m) = seenQuery m :=
  erase_perform seen? ProgramEvent.query Seen.query (fun _ => rfl) (m.mapError Stop.failure)

theorem erase_attempt (result : Except Exception α) :
    erase seen? (Run.attempt result) = ofResult (Stop.attempt result) := rfl

theorem erase_ofResult (result : Except Stop α) :
    erase seen? (ofResult result : Run α) = ofResult result := rfl

theorem attempt_bind (result : Except Exception α) (f : α → Except Exception β) :
    (ofResult (Stop.attempt (result >>= f)) : Observed Seen Stop β) =
      ofResult (Stop.attempt result) >>= fun a => ofResult (Stop.attempt (f a)) := by
  cases result <;> rfl

theorem attempt_map {γ : Type} (result : Except Exception α) (g : α → γ)
    (f : γ → Observed Seen Stop β) :
    (ofResult (Stop.attempt (result.map g)) >>= f) =
      ofResult (Stop.attempt result) >>= fun a => f (g a) := by
  cases result <;> rfl

theorem ofResult_bind (result : Except Stop α) (f : α → Except Stop β) :
    (ofResult (result >>= f) : Observed Seen Stop β) =
      ofResult result >>= fun a => ofResult (f a) := by
  cases result <;> rfl

theorem erase_llama (m : Owning α) :
    erase seen? (Run.llama m) = seenAsk (Ask.ofLlama (erase some m)) := by
  have herase : erase seen? (m.mapEvents (Deed.map fun call => .ask (.llama call))) =
      (erase some m).mapEvents fun call => Seen.ask (.llama call) :=
    erase_map seen? _ _ (fun _ => rfl) m
  have hresult := congrArg (mapError fun e => Stop.failure (.exception e)) herase
  refine Eq.trans hresult ?_
  simp only [seenAsk, Ask.ofLlama, mapEvents, mapError, List.map_map, Function.comp_def]
  cases (erase some m).result <;> rfl

theorem erase_silent {e : ProgramEvent} (h : seen? e = none) :
    erase seen? (Run.event e) = pure () := by
  simp only [erase, Run.event, report, List.filterMap_cons, h, List.filterMap_nil]
  rfl

theorem erase_withImpl {M C A : Type} (kind : ImplKind) (parts : Construction M C A)
    (use : A → Run α) :
    erase seen? (withImpl kind parts use) =
      ofResult (Stop.attempt parts.run) >>= fun object => erase seen? (use object) := by
  simp only [withImpl, erase_holding, erase_bind, erase_attempt, Construction.run, attempt_bind,
    bind_bind, erase_silent (e := .loadModel _ _) rfl, erase_silent (e := .createContext _ _) rfl,
    Observed.pure_bind]

end Homomorphisms

section Commands
variable {σ D F M C K : Type} [LinearOrder K] (pq : PriorityQueue (SearchResult.score (K := K)))
variable (floats : FloatOps K) (showScore : K → Bytes) (host : LlamaHost σ D F M C)
variable (args : Arguments D) (fs : FileSystem String)

theorem erase_printAnswer (generator : LlamaGenerator) (prompt : Bytes) :
    erase seen? (printAnswer host args generator prompt) =
      seenAsk (CppRag.printAnswer generator host.session (askArguments args) prompt) := by
  simp only [printAnswer, CppRag.printAnswer, erase_bind, erase_ask, erase_llama, erase_generate,
    seenAsk_bind]
  rfl

theorem erase_runGenerate : erase seen? (runGenerate host args) =
    seenAsk (CppRag.runGenerate host.toMainHost args) := by
  simp only [runGenerate, CppRag.runGenerate, withGenerator, erase_bind, erase_ask, erase_attempt,
    erase_withImpl, erase_printAnswer, seenAsk_bind, seenAsk_attempt]
  rfl

theorem erase_answerFrom (chunks : List Chunk) : erase seen? (answerFrom host args chunks) =
    seenAsk (CppRag.answerFrom (askHost host.toMainHost args fs) (askArguments args) chunks) := by
  rw [answerFrom, CppRag.answerFrom]
  split
  · exact erase_ask _
  · simp only [withGenerator, erase_withImpl, erase_bind, erase_ask, erase_printAnswer,
      seenAsk_bind, seenAsk_attempt]
    rfl

theorem erase_runAsk : erase seen? (runAsk pq floats host args fs) =
    seenAsk (CppRag.runAsk pq floats (askHost host.toMainHost args fs) (askArguments args)) := by
  simp only [runAsk, CppRag.runAsk, CppRag.retrieve, retrieveFrom, withEmbedder, erase_bind,
    erase_ask, erase_attempt, erase_holding, erase_withImpl, erase_answerFrom host args fs,
    seenAsk_bind, seenAsk_attempt, bind_bind, Observed.pure_bind, erase_silent (e := .embed) rfl,
    askHost, attempt_bind]
  rfl

theorem erase_runQuery : erase seen? (runQuery pq floats showScore host args fs) =
    seenQuery (CppRag.runQuery pq floats showScore (queryHost host.toMainHost args fs) args) := by
  simp only [runQuery, CppRag.runQuery, withEmbedder, erase_bind,
    erase_query, erase_attempt, erase_holding, erase_withImpl, seenQuery_bind, seenQuery_attempt,
    Observed.pure_bind, erase_silent (e := .embed) rfl, queryHost, attempt_map]
  rfl

theorem erase_runIndex : erase seen? (runIndex host args fs) =
    ofResult (CppRag.runIndex (indexHost host.toMainHost args) args fs).1 >>= fun line =>
      report (.print line) := by
  have hrun : (CppRag.runIndex (indexHost host.toMainHost args) args fs).1 =
      prepareIndex (indexHost host.toMainHost args) args >>= fun prepared =>
        (writeItems (indexHost host.toMainHost args) args prepared.1 prepared.2 fs).1 := by
    rw [CppRag.runIndex]
    cases prepareIndex (indexHost host.toMainHost args) args <;> rfl
  simp only [hrun, prepareIndex, runIndex, withEmbedder, erase_bind, erase_ofResult,
    erase_withImpl, Observed.pure_bind, erase_silent (e := .embed) rfl, ofResult_bind, bind_bind]
  rfl

end Commands

end Owned

end CppRag
