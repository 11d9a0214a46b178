import CppRag.CommandLine
import CppRag.LlamaGenerator
import CppRag.VectorSearch
import CppRag.Foundation.DescendingSearch

/-!
`run_ask`: the checks of its options, the retrieval, the refusal without evidence, the loop
that trims the context, and the call of the generator. The embedding model, the loading of
the generator and the mapping of files are parameters.
-/
namespace CppRag
open Observed

/-- What the command shows from outside, in order. -/
inductive AskEvent where
  | access (access : Access)
  /-- The line about a retrieved chunk, without its score. -/
  | context (id : Bytes) (scale scaleBytes : UInt32) (rank : Nat)
  | diagnostic (line : Bytes)
  | generate (prompt : Bytes) (maxResponseTokens : UInt64)
  | llama (call : LlamaCall)
  | answer (text : Bytes)
  deriving DecidableEq, Repr

abbrev Ask (α : Type) : Type := Observed AskEvent Failure α

/-- The options `run_ask` reads itself. -/
structure AskArguments where
  model : Bytes
  generator : Bytes
  index : Bytes
  query : Bytes
  systemPrompt : Bytes
  topK : UInt64
  metric : Metric
  perScale : UInt64
  maxResponseTokens : UInt64

/-- What the command gets from outside. -/
structure AskHost where
  mapFile : Bytes → Except Exception Image
  /-- `make_embedder` and `embed`. -/
  embed : Bytes → Except Exception (List FloatBits)
  /-- The constructor of the generator, with the options of the command. -/
  loadGenerator : Except Exception LlamaGenerator
  /-- The session of the call of `generate`. -/
  session : Session
  /-- The memory of the search. -/
  memory : Memory

namespace Ask

/-- Code of the library, which throws. -/
def ofChecked {α : Type} (m : Checked α) : Ask α := (m.mapEvents .access).mapError .exception

def attempt {α : Type} (result : Except Exception α) : Ask α :=
  (ofResult result).mapError .exception

def ofLlama {α : Type} (m : Observed LlamaCall Exception α) : Ask α :=
  (m.mapEvents .llama).mapError .exception

def requires (present : Bool) (error : String) : Ask Unit :=
  failIf (!present) (.usage (ascii error))

end Ask

open Ask

def checkAskArguments (args : AskArguments) : Ask Unit := do
  requires (!args.model.isEmpty) "--model is required (embedding model)"
  requires (!args.generator.isEmpty) "--generator is required (generation model)"
  requires (!args.index.isEmpty) "--index is required"
  requires (!args.query.isEmpty) "--query is required"
  requires (args.topK ≠ 0) "--top-k must be at least 1"
  requires (args.maxResponseTokens ≠ 0) "--max-tokens must be at least 1"

section Retrieval
variable {K : Type} [LinearOrder K]

/-- The chunks of the results, each with its line. -/
def readChunks (index : MmapIndex) : List (SearchResult K) → Ask (List Chunk)
  | [] => pure []
  | result :: results => do
      let chunk ← ofChecked (index.chunk (UInt64.ofNat result.index))
      report (.context (askId chunk) result.scale result.scaleBytes result.rankWithinScale)
      let chunks ← readChunks index results
      pure (chunk :: chunks)

variable (pq : PriorityQueue (SearchResult.score (K := K))) (ops : FloatOps K) (host : AskHost)

/-- From the options to the retrieved chunks. -/
def retrieve (args : AskArguments) : Ask (List Chunk) := do
  checkAskArguments args
  let img ← attempt (host.mapFile args.index)
  let index ← ofChecked (MmapIndex.openImage img)
  let queryEmbedding ← attempt (host.embed args.query)
  let results ← ofChecked (search pq host.memory ops index queryEmbedding args.topK.toNat
    ⟨args.metric, args.perScale.toNat⟩)
  readChunks index results

end Retrieval

section Trimming
variable (generator : LlamaGenerator) (args : AskArguments) (chunks : List Chunk)

/-- `!tokens.empty() && tokens.size() <= context_size() - max_response_tokens` -/
def fitsContext (tokens : List LlamaToken) : Ask Bool :=
  if tokens.isEmpty then pure false
  else do
    let room ← ofChecked (subU64 generator.contextSize args.maxResponseTokens)
    pure (tokens.length ≤ room.toNat)

/-- One iteration of the loop: the prompt from the first `keep` chunks, if it fits. -/
def tryKeep (keep : Nat) : Ask (Option Bytes) := do
  let prompt ← attempt (askPrompt args.systemPrompt (chunks.take keep) args.query)
  let tokens ← attempt (generator.tokenize prompt)
  let fits ← fitsContext generator args tokens
  pure (if fits then some prompt else none)

/-- How many chunks are kept, and the prompt. -/
def trimContext : Ask (Nat × Bytes) := do
  let kept ← searchDown (tryKeep generator args chunks) chunks.length
  match kept with
  | some kept => pure kept
  | none => fail (.exception (.runtimeError
      "query and system prompt exceed the model context window; raise --ctx"))

end Trimming

def refusal : Bytes := ascii "no context retrieved; refusing to answer without evidence"

def trimmedLine (keep total : Nat) : Bytes :=
  ascii "context trimmed to " ++ decimal (UInt64.ofNat keep) ++ ascii " of " ++
    decimal (UInt64.ofNat total) ++ ascii " retrieved chunks to fit --ctx"

def noticeTrimmed (keep total : Nat) : Ask Unit :=
  if keep < total then report (.diagnostic (trimmedLine keep total)) else pure ()

/-- The call of the generator, and its answer on standard output. -/
def printAnswer (generator : LlamaGenerator) (session : Session) (args : AskArguments)
    (prompt : Bytes) : Ask Unit := do
  report (.generate prompt args.maxResponseTokens)
  let answer ← ofLlama
    (generator.generate session prompt args.maxResponseTokens chatStopSequences)
  report (.answer answer)

/-- From the retrieved chunks to the answer. -/
def answerFrom (host : AskHost) (args : AskArguments) (chunks : List Chunk) : Ask Unit :=
  if chunks.isEmpty then report (.diagnostic refusal)
  else do
    let generator ← attempt host.loadGenerator
    failIf (args.maxResponseTokens ≥ generator.contextSize)
      (.exception (.runtimeError "--max-tokens must be smaller than --ctx"))
    let (keep, prompt) ← trimContext generator args chunks
    noticeTrimmed keep chunks.length
    printAnswer generator host.session args prompt

def runAsk {K : Type} [LinearOrder K] (pq : PriorityQueue (SearchResult.score (K := K)))
    (ops : FloatOps K) (host : AskHost) (args : AskArguments) : Ask Unit := do
  let chunks ← retrieve pq ops host args
  answerFrom host args chunks

end CppRag
