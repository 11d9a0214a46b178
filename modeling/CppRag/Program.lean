import CppRag.AskCommand
import CppRag.IndexCommand
import CppRag.QueryCommand

/-!
`main`: the command line, the four commands and how the process ends. Loading models, reading
documents and the outcomes of the operations on files are parameters, and so are the formatting
of a score and the conversion of `double` to `float`.
-/
namespace CppRag
open Observed Interactive

structure EmbedderOptions where
  contextTokens : UInt64
  gpuLayers : Int32
  threads : Int32

structure GeneratorOptions (F : Type) where
  contextTokens : UInt64
  batchTokens : UInt64
  gpuLayers : Int32
  threads : Int32
  temperature : F
  topP : F
  seed : UInt32

/-- What the program gets from outside. -/
structure MainHost (σ D F : Type) where
  files : Files
  loadEmbedder : Bytes → EmbedderOptions → Except Exception (LlamaEmbedder σ × EmbedderState σ)
  loadGenerator : Bytes → GeneratorOptions F → Except Exception LlamaGenerator
  toFloat : D → F
  /-- The session of the call of `generate`. -/
  session : Session
  /-- The memory of the search. -/
  memory : Memory
  l2Norm : List FloatBits → FloatBits
  /-- How the operations of `write` end; the process is killed after the last of them. -/
  outcomes : List Outcome

section Hosts
variable {σ D F : Type} (host : MainHost σ D F) (args : Arguments D) (fs : FileSystem String)

def embedderOptions : EmbedderOptions where
  contextTokens := if args.embedContextTokens ≠ 0 then args.embedContextTokens
    else args.contextTokens
  gpuLayers := args.gpuLayers
  threads := args.threads

def generatorOptions (toFloat : D → F) : GeneratorOptions F where
  contextTokens := args.contextTokens
  batchTokens := args.batchTokens
  gpuLayers := args.gpuLayers
  threads := args.threads
  temperature := toFloat args.temperature
  topP := toFloat args.topP
  seed := args.seed.toUInt32

def makeEmbedder : Except Exception (LlamaEmbedder σ × EmbedderState σ) :=
  host.loadEmbedder args.model (embedderOptions args)

def makeGenerator (model : Bytes) : Except Exception LlamaGenerator :=
  host.loadGenerator model (generatorOptions args host.toFloat)

def embedWith (made : LlamaEmbedder σ × EmbedderState σ) (text : Bytes) :
    Except Exception (List FloatBits) :=
  (exec (made.1.embed text) made.2).1

def indexHost : IndexHost σ := ⟨host.files, makeEmbedder host args, host.l2Norm, host.outcomes⟩

def queryHost : QueryHost where
  mapFile := mapFile fs
  loadEmbedder := (makeEmbedder host args).map embedWith
  memory := host.memory

def askHost : AskHost where
  mapFile := mapFile fs
  embed text := do
    let made ← makeEmbedder host args
    embedWith made text
  loadGenerator := makeGenerator host args args.generator
  session := host.session
  memory := host.memory

def askArguments : AskArguments where
  model := args.model
  generator := args.generator
  index := args.index
  query := args.query
  systemPrompt := args.systemPrompt
  topK := args.topK
  metric := args.metric
  perScale := args.perScale
  maxResponseTokens := args.maxResponseTokens

/-- `args.chat ? chat_prompt(args, args.prompt) : args.prompt` -/
def generatePrompt : Except Exception Bytes :=
  if args.chat then buildChatPrompt args.systemPrompt args.prompt else pure args.prompt

def runGenerate : Ask Unit := do
  Ask.requires (!args.model.isEmpty) "--model is required"
  Ask.requires (!args.prompt.isEmpty) "--prompt is required"
  Ask.requires (args.maxResponseTokens ≠ 0) "--max-tokens must be at least 1"
  let prompt ← Ask.attempt (generatePrompt args)
  let generator ← Ask.attempt (makeGenerator host args args.model)
  printAnswer generator host.session (askArguments args) prompt

end Hosts

/-! The process. -/

/-- What a command of the second kind writes to standard output. -/
def answerOutput (events : List AskEvent) : Bytes :=
  events.flatMap fun event =>
    match event with
    | .answer text => text ++ ascii "\n"
    | _ => []

inductive Ended where
  | exited (status : Nat)
  | killed
  deriving DecidableEq, Repr

/-- `usage` exits, and everything else is caught in `main`. -/
def Failure.ended : Failure → Ended
  | .usage error => .exited (if error.isEmpty then 0 else 2)
  | .exception _ => .exited 1

def Stop.ended : Stop → Ended
  | .failure cause => cause.ended
  | .killed => .killed

/-- How the process ends, what it has written to standard output and the files it leaves. -/
structure Process where
  ended : Ended
  output : Bytes
  fs : FileSystem String

section Main
variable {σ D F K : Type} [LinearOrder K] (pq : PriorityQueue (SearchResult.score (K := K)))
variable (floats : FloatOps K) (showScore : K → Bytes) (host : MainHost σ D F)

/-- A command that leaves the files as they are. -/
def Process.ofResult (result : Except Failure Unit) (output : Bytes) (fs : FileSystem String) :
    Process :=
  match result with
  | .ok () => ⟨.exited 0, output, fs⟩
  | .error failure => ⟨failure.ended, output, fs⟩

def indexProcess (args : Arguments D) (fs : FileSystem String) : Process :=
  match runIndex (indexHost host args) args fs with
  | (.ok line, fs) => ⟨.exited 0, line, fs⟩
  | (.error stop, fs) => ⟨stop.ended, [], fs⟩

def runCommandLine (args : Arguments D) (fs : FileSystem String) : Process :=
  if args.command = ascii "index" then indexProcess host args fs
  else if args.command = ascii "query" then
    let run := runQuery pq floats showScore (queryHost host args fs) args
    .ofResult run.result (outputText run.events) fs
  else if args.command = ascii "generate" then
    let run := runGenerate host args
    .ofResult run.result (answerOutput run.events) fs
  else if args.command = ascii "ask" then
    let run := runAsk pq floats (askHost host args fs) (askArguments args)
    .ofResult run.result (answerOutput run.events) fs
  else
    .ofResult (.error (.usage (ascii "command must be index, query, generate, or ask"))) [] fs

def main (ops : DoubleOps D) (argv : List Bytes) (fs : FileSystem String) : Process :=
  match parse ops argv with
  | .error failure => .ofResult (.error failure) [] fs
  | .ok args => runCommandLine pq floats showScore host args fs

end Main

end CppRag
