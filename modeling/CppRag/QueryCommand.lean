import CppRag.Arguments
import CppRag.AskCommand
import CppRag.ResultListing
import CppRag.PromptTurns

/-!
`run_query`: the checks of its options, the retrieval, and the listing of the results on
standard output. The formatting of a score is a parameter.
-/
namespace CppRag
open Observed Occurrences HeadedRecords

inductive QueryEvent where
  | access (access : Access)
  | output (text : Bytes)
  deriving DecidableEq, Repr

abbrev Query (α : Type) : Type := Observed QueryEvent Failure α

/-- What the command gets from outside. -/
structure QueryHost where
  mapFile : Bytes → Except Exception Image
  /-- The constructor of the embedder, with the options of the command, and its `embed`. -/
  loadEmbedder : Except Exception (Bytes → Except Exception (List FloatBits))
  memory : Memory

namespace Query

def ofChecked {α : Type} (m : Checked α) : Query α := (m.mapEvents .access).mapError .exception

def attempt {α : Type} (result : Except Exception α) : Query α :=
  (ofResult result).mapError .exception

def requires (present : Bool) (error : String) : Query Unit :=
  failIf (!present) (.usage (ascii error))

end Query

section Listing
variable {K : Type} (showScore : K → Bytes)

/-- The lines of a result. -/
def resultLines (result : SearchResult K) (chunk : Chunk) : Bytes :=
  ascii "score=" ++ showScore result.score ++ ascii " source=" ++ chunk.source ++
    ascii " bytes=" ++ decimal chunk.byteBegin ++ ascii "-" ++ decimal chunk.byteEnd ++
    ascii " scale=" ++ decimal result.scale.toUInt64 ++ ascii "/" ++
    decimal result.scaleBytes.toUInt64 ++ ascii " rank=" ++
    decimal (UInt64.ofNat result.rankWithinScale) ++ ascii "\n" ++ chunk.text ++ ascii "\n---\n"

def printResults (index : MmapIndex) : List (SearchResult K) → Query Unit
  | [] => pure ()
  | result :: results => do
      let chunk ← Query.ofChecked (index.chunk (UInt64.ofNat result.index))
      report (.output (resultLines showScore result chunk))
      printResults index results

end Listing

section Command
variable {K D : Type} [LinearOrder K] (pq : PriorityQueue (SearchResult.score (K := K)))
  (ops : FloatOps K) (showScore : K → Bytes) (host : QueryHost)

def runQuery (args : Arguments D) : Query Unit := do
  Query.requires (!args.index.isEmpty) "--index is required"
  Query.requires (!args.query.isEmpty) "--query is required"
  Query.requires (args.topK ≠ 0) "--top-k must be at least 1"
  Query.requires (!args.model.isEmpty) "--model is required"
  let embed ← Query.attempt host.loadEmbedder
  let img ← Query.attempt (host.mapFile args.index)
  let index ← Query.ofChecked (MmapIndex.openImage img)
  let queryEmbedding ← Query.attempt (embed args.query)
  let results ← Query.ofChecked (search pq host.memory ops index queryEmbedding
    args.topK.toNat ⟨args.metric, args.perScale.toNat⟩)
  printResults showScore index results

end Command

/-- What is written to standard output. -/
def outputText (events : List QueryEvent) : Bytes :=
  events.flatMap fun event =>
    match event with
    | .output text => text
    | .access _ => []

end CppRag
