import CppRag.LlamaGenerator
import CppRag.Foundation.Interactive

/-!
`LlamaEmbedder`: tokenization, the batch that is allocated once for all texts of a call, and
the pooled embedding of each text. llama.cpp is a parameter, its context a state that the calls
change and that stays when one of them fails. The calls are recorded in the order they are made.
-/
namespace CppRag
open Interactive

inductive EmbedderCall where
  | batchInit (capacity : Nat)
  /-- The entry at `position` of the arrays of a batch with the capacity. -/
  | write (position capacity : Nat)
  | clearMemory
  | evaluate (entries : List BatchEntry)
  | batchFree
  deriving DecidableEq, Repr

/-- A constructed embedder, over the states `σ` of its context. -/
structure LlamaEmbedder (σ : Type) where
  llamaTokenize : Bytes → Nat → Int32 × List LlamaToken
  nBatch : UInt32
  dimensions : Nat
  hasEncoder : Bool
  hasDecoder : Bool
  hasMemory : Bool
  clearMemory : σ → σ
  encode : σ → List BatchEntry → Int32 × σ
  decode : σ → List BatchEntry → Int32 × σ
  /-- `llama_get_embeddings_seq` for sequence 0; none is the null pointer. -/
  embeddingsSeq : σ → Option (Nat → FloatBits)
  /-- The arrays of a new batch, which are not initialised. -/
  allocate : Nat → List BatchEntry
  length_allocate : ∀ capacity, (allocate capacity).length = capacity
  /-- The square root of a `double` sum of squares, rounded to `float`. -/
  l2Norm : List FloatBits → FloatBits
  /-- `norm > 0.0F` -/
  positive : FloatBits → Bool
  div : FloatBits → FloatBits → FloatBits

structure EmbedderState (σ : Type) where
  context : σ
  calls : List EmbedderCall

abbrev EmbedderM (σ α : Type) : Type := Interactive (EmbedderState σ) Exception α

/-- `static_cast<std::int32_t>` of a size, as the code that gets it counts. -/
def castInt32 (size : Nat) : Nat := (Int32.ofNat size).toInt.toNat

namespace LlamaEmbedder
variable {σ : Type} (embedder : LlamaEmbedder σ)

def tokenize (text : Bytes) : Except Exception (List LlamaToken) :=
  if text.length > maxInt32 then throw (.runtimeError "input is too large to tokenize")
  else
    let (required, _) := embedder.llamaTokenize text 0
    if required = 0 then pure []
    else if required > 0 then
      throw (.runtimeError "unexpected llama.cpp tokenizer response")
    -- The negation of the least value wraps, and no vector has the size it is cast to.
    else if required = Int32.minValue then
      throw (.lengthError "cannot create std::vector larger than max_size()")
    else
      let size := (-required.toInt).toNat
      let (count, tokens) := embedder.llamaTokenize text size
      if count < 0 then throw (.runtimeError "llama.cpp tokenization failed")
      else pure (resize (resize tokens size 0) count.toInt.toNat 0)

def tokensFor (text : Bytes) : Except Exception (List LlamaToken) := do
  let tokens ← embedder.tokenize text
  if tokens.isEmpty then throw (.invalidArgument "cannot embed empty text")
  else if tokens.length > embedder.nBatch.toNat then
    throw (.runtimeError
      "input exceeds embedding context; reduce chunk size or increase --ctx")
  else pure tokens

def record (call : EmbedderCall) : EmbedderM σ Unit :=
  modify fun s => { s with calls := s.calls ++ [call] }

def entry (token : LlamaToken) (position : Nat) : BatchEntry :=
  ⟨token, llamaPos position, [0], true⟩

/-- The loop that fills the batch, from `position` on. -/
def fillFrom (position : Nat) :
    List LlamaToken → List BatchEntry → EmbedderM σ (List BatchEntry)
  | [], cells => pure cells
  | token :: tokens, cells => do
      record (.write position cells.length)
      fillFrom (position + 1) tokens (cells.set position (entry token position))

def clear : EmbedderM σ Unit :=
  if embedder.hasMemory then do
    record .clearMemory
    modify fun s => { s with context := embedder.clearMemory s.context }
  else pure ()

/-- What the batch evaluates with, `llama_encode` or `llama_decode`. -/
def run (context : σ) (entries : List BatchEntry) : Int32 × σ :=
  if embedder.hasEncoder && !embedder.hasDecoder then embedder.encode context entries
  else embedder.decode context entries

def evaluate (entries : List BatchEntry) : EmbedderM σ Int32 := do
  record (.evaluate entries)
  let s ← get
  let (result, context) := embedder.run s.context entries
  modify fun s => { s with context := context }
  pure result

def normalise (values : List FloatBits) : List FloatBits :=
  let norm := embedder.l2Norm values
  if embedder.positive norm then values.map fun value => embedder.div value norm else values

/-- The embedding, and the batch for the next text. -/
def pooled (tokens : List LlamaToken) (cells : List BatchEntry) :
    EmbedderM σ (List FloatBits × List BatchEntry) := do
  let cells ← fillFrom 0 tokens cells
  embedder.clear
  let result ← embedder.evaluate (cells.take (castInt32 tokens.length))
  if result ≠ 0 then throw (.runtimeError "llama.cpp failed to compute embedding")
  else do
    let s ← get
    match embedder.embeddingsSeq s.context with
    | none => throw (.runtimeError "llama.cpp returned no pooled embedding")
    | some values =>
        pure (embedder.normalise ((List.range embedder.dimensions).map values), cells)

def batchInit (capacity : Nat) : EmbedderM σ (List BatchEntry) := do
  record (.batchInit capacity)
  pure (embedder.allocate capacity)

def embed (text : Bytes) : EmbedderM σ (List FloatBits) := do
  let tokens ← MonadExcept.ofExcept (embedder.tokensFor text)
  let cells ← embedder.batchInit (castInt32 tokens.length)
  withCleanup
    (do
      let (embedding, _) ← embedder.pooled tokens cells
      pure embedding)
    (record .batchFree)

/-- The loop over the tokenized texts. -/
def pooledAll : List (List LlamaToken) → List BatchEntry → EmbedderM σ (List (List FloatBits))
  | [], _ => pure []
  | tokens :: tokenized, cells => do
      let (embedding, cells) ← embedder.pooled tokens cells
      let embeddings ← pooledAll tokenized cells
      pure (embedding :: embeddings)

def batchCapacity (tokenized : List (List LlamaToken)) : Nat :=
  tokenized.foldl (fun capacity tokens => max capacity tokens.length) 0

def embedAll (texts : List Bytes) : EmbedderM σ (List (List FloatBits)) := do
  let tokenized ← MonadExcept.ofExcept (texts.mapM embedder.tokensFor)
  if tokenized.isEmpty then pure []
  else do
    let cells ← embedder.batchInit (castInt32 (batchCapacity tokenized))
    withCleanup (embedder.pooledAll tokenized cells) (record .batchFree)

end LlamaEmbedder

end CppRag
