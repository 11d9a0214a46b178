import CppRag.BackendLifetimes
import CppRag.Program

/-!
The constructors of the embedder and of the generator: the checks of the options, the model, the
context with its parameters, and what the object is built from. What llama.cpp returns is a
parameter, and so are the values of the parameters that the code leaves alone.
-/
namespace CppRag

inductive PoolingType where
  | unspecified | none | mean | cls | last | rank
  deriving DecidableEq, Repr

inductive AttentionType where
  | unspecified | causal | nonCausal
  deriving DecidableEq, Repr

structure ModelParams where
  nGpuLayers : Int32
  deriving DecidableEq, Repr

structure ContextParams where
  nCtx : UInt32
  nBatch : UInt32
  nUbatch : UInt32
  nThreads : Int32
  nThreadsBatch : Int32
  embeddings : Bool
  poolingType : PoolingType
  attentionType : AttentionType
  deriving DecidableEq, Repr

/-- The checks of `float` options. -/
structure FloatChecks (F : Type) where
  /-- `value >= 0.0f` -/
  atLeastZero : F → Bool
  /-- `value > 0.0f && value <= 1.0f` -/
  inUnit : F → Bool
  /-- `value > 0.0f` -/
  positive : F → Bool

/-- llama.cpp and the platform, over the models `M` and the contexts `C`. -/
structure LlamaApi (σ M C : Type) where
  modelDefaults : ModelParams
  contextDefaults : ContextParams
  hardwareConcurrency : UInt32
  isRegularFile : Bytes → Except Exception Bool
  loadModelFromFile : Bytes → ModelParams → Option M
  initFromModel : M → ContextParams → Option C
  nEmbdOut : M → Int32
  poolingType : C → PoolingType
  /-- What the vocabulary of the model and the new context answer to an embedder. -/
  embedder : M → C → LlamaEmbedder σ × EmbedderState σ
  /-- What they answer to a generator. -/
  generator : M → C → LlamaGenerator

/-- The parts of a constructor, in their order. -/
structure Construction (M C A : Type) where
  checks : Except Exception Unit
  modelParams : ModelParams
  loadModel : Except Exception M
  contextParams : ContextParams
  createContext : M → Except Exception C
  finish : M → C → Except Exception A

/-- Whether the constructor throws, and the object otherwise. -/
def Construction.run {M C A : Type} (parts : Construction M C A) : Except Exception A := do
  parts.checks
  let model ← parts.loadModel
  let context ← parts.createContext model
  parts.finish model context

def orThrow {α : Type} (error : Exception) : Option α → Except Exception α
  | none => throw error
  | some value => pure value

section Constructors
variable {σ M C F : Type} (api : LlamaApi σ M C)

/-- `options.threads`, or else the number of the machine. -/
def LlamaApi.threadCount (threads : Int32) : Int32 :=
  if threads > 0 then threads else (max 1 api.hardwareConcurrency).toInt32

def embedderParams (options : EmbedderOptions) : ContextParams :=
  { api.contextDefaults with
    nCtx := options.contextTokens.toUInt32
    nBatch := options.contextTokens.toUInt32
    nUbatch := options.contextTokens.toUInt32
    embeddings := true
    poolingType := .mean
    attentionType := .nonCausal
    nThreads := api.threadCount options.threads
    nThreadsBatch := api.threadCount options.threads }

/-- `static_cast<std::size_t>` of an `int32_t`. -/
def castSize (value : Int32) : Nat := value.toInt64.toUInt64.toNat

/-- `LlamaEmbedder::Impl` -/
def constructEmbedder (path : Bytes) (options : EmbedderOptions) :
    Construction M C (LlamaEmbedder σ × EmbedderState σ) :=
  let modelParams := { api.modelDefaults with nGpuLayers := options.gpuLayers }
  { checks := pure ()
    modelParams := modelParams
    loadModel := orThrow (.runtimeError (withPath "unable to load GGUF model: " path))
      (api.loadModelFromFile path modelParams)
    contextParams := embedderParams api options
    createContext model := orThrow
      (.runtimeError "unable to create llama.cpp embedding context")
      (api.initFromModel model (embedderParams api options))
    finish model context :=
      let dimensions := castSize (api.nEmbdOut model)
      if dimensions = 0 ∨ api.poolingType context = .none then
        throw (.runtimeError "model does not provide pooled embeddings")
      else
        let (embedder, state) := api.embedder model context
        pure ({ embedder with dimensions := dimensions }, state) }

def maxUInt32 : UInt64 := 2 ^ 32 - 1

def checkGeneratorOptions (floats : FloatChecks F) (path : Bytes) (options : GeneratorOptions F) :
    Except Exception Unit :=
  if options.contextTokens = 0 ∨ options.batchTokens = 0 ∨ options.contextTokens > maxUInt32 ∨
      options.batchTokens > maxUInt32 then
    throw (.invalidArgument "context and batch token counts must be valid uint32 values")
  else if !floats.atLeastZero options.temperature then
    throw (.invalidArgument "temperature must be a finite value >= 0")
  else if !floats.inUnit options.topP then
    throw (.invalidArgument "top_p must be in (0, 1]")
  else do
    if !(← api.isRegularFile path) then
      throw (.runtimeError (withPath "generation GGUF model file does not exist: " path))

def generatorParams (options : GeneratorOptions F) : ContextParams :=
  -- `std::min`
  let nBatch := (if options.contextTokens < options.batchTokens then options.contextTokens
    else options.batchTokens).toUInt32
  { api.contextDefaults with
    nCtx := options.contextTokens.toUInt32
    nBatch := nBatch
    nUbatch := nBatch
    nThreads := api.threadCount options.threads
    nThreadsBatch := api.threadCount options.threads }

/-- `LlamaGenerator::Impl` -/
def constructGenerator (floats : FloatChecks F) (path : Bytes) (options : GeneratorOptions F) :
    Construction M C LlamaGenerator :=
  let modelParams := { api.modelDefaults with nGpuLayers := options.gpuLayers }
  { checks := checkGeneratorOptions api floats path options
    modelParams := modelParams
    loadModel := orThrow (.runtimeError (withPath "unable to load generation GGUF model: " path))
      (api.loadModelFromFile path modelParams)
    contextParams := generatorParams api options
    createContext model := orThrow
      (.runtimeError "unable to create llama.cpp generation context")
      (api.initFromModel model (generatorParams api options))
    finish model context := pure
      { api.generator model context with greedy := !floats.positive options.temperature } }

end Constructors

/-- What the program gets from outside, with llama.cpp by its calls. -/
structure LlamaHost (σ D F M C : Type) where
  files : Files
  api : LlamaApi σ M C
  floats : FloatChecks F
  toFloat : D → F
  session : Session
  memory : Memory
  l2Norm : List FloatBits → FloatBits
  outcomes : List Outcome

def LlamaHost.toMainHost {σ D F M C : Type} (host : LlamaHost σ D F M C) : MainHost σ D F where
  files := host.files
  loadEmbedder path options := (constructEmbedder host.api path options).run
  loadGenerator path options := (constructGenerator host.api host.floats path options).run
  toFloat := host.toFloat
  session := host.session
  memory := host.memory
  l2Norm := host.l2Norm
  outcomes := host.outcomes

end CppRag
