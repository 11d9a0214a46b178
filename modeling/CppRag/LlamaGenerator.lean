import CppRag.Checked
import CppRag.Foundation.Occurrences

/-!
`LlamaGenerator`: tokenization of a prompt, its evaluation in batches and the response loop
with its stop sequences. llama.cpp is a parameter: what its vocabulary and context answer is
a field of the generator, and what it answers during one call of `generate`, in the order of
the calls, is a session. Every call that changes the state of llama.cpp is reported.
-/
namespace CppRag
open Observed Occurrences

abbrev LlamaToken := Int32

abbrev LlamaPos := Int32

/-- The cast of a `size_t` position to `llama_pos`. -/
def llamaPos (position : Nat) : LlamaPos := Int32.ofNat position

structure BatchEntry where
  token : LlamaToken
  pos : LlamaPos
  seqIds : List Int32
  logits : Bool
  deriving DecidableEq, Repr

inductive LlamaCall where
  | access (access : Access)
  | clearMemory
  | decode (batch : List BatchEntry)
  | sample
  | accept (token : LlamaToken)
  deriving DecidableEq, Repr

/-- A constructed generator. A buffer that llama.cpp fills is given by its capacity; the
answer is the returned count and what was written. -/
structure LlamaGenerator where
  llamaTokenize : Bytes → Nat → Int32 × List LlamaToken
  llamaTokenToPiece : LlamaToken → Nat → Int32 × Bytes
  isEog : LlamaToken → Bool
  nCtxSeq : UInt32
  batchTokens : UInt32
  batch_pos : 0 < batchTokens.toNat
  hasMemory : Bool
  /-- `!(temperature > 0.0f)` -/
  greedy : Bool

/-- What llama.cpp answers during one call of `generate`: the results of `llama_decode` for
the prompt batches by their offsets, and for the response tokens by their numbers; and the
memory in which the call reserves room for its response. -/
structure Session where
  samplerCreated : Bool
  promptDecode : Nat → Int32
  sampled : Nat → LlamaToken
  responseDecode : Nat → Int32
  memory : Memory

/-- `response.reserve` -/
def Session.reserveResponse (session : Session) (maxResponseTokens : UInt64) :
    Except Exception Unit :=
  session.memory.reserve 1 (maxResponseTokens * 4) "basic_string::_M_create"

/-- There is room for the response. -/
def Session.Reserves (session : Session) (maxResponseTokens : UInt64) : Prop :=
  session.memory.Reserves 1 (maxResponseTokens * 4)

instance (session : Session) (maxResponseTokens : UInt64) :
    Decidable (session.Reserves maxResponseTokens) :=
  inferInstanceAs (Decidable (Memory.Reserves _ _ _))

theorem Session.reserveResponse_ok_iff {session : Session} {maxResponseTokens : UInt64} :
    session.reserveResponse maxResponseTokens = .ok () ↔ session.Reserves maxResponseTokens :=
  Memory.reserve_ok_iff

/-! Stop sequences. -/

/-- The `compare` of `trim_partial_stop`: the response ends with the beginning of `stop`. -/
def endsWithStart (response stop : Bytes) (length : Nat) : Bool :=
  response.drop (response.length - length) = stop.take length

/-- The inner loop of `trim_partial_stop`, from `length` down to above `longest`. -/
def longestFrom (response stop : Bytes) (longest : Nat) : Nat → Nat
  | 0 => longest
  | length + 1 =>
      if length + 1 > longest then
        if endsWithStart response stop (length + 1) then length + 1
        else longestFrom response stop longest length
      else longest

/-- One iteration of the outer loop. -/
def longerPartialStop (response : Bytes) (longest : Nat) (stop : Bytes) : Nat :=
  longestFrom response stop longest
    (min (if stop.isEmpty then 0 else stop.length - 1) response.length)

def longestPartialStop (response : Bytes) (stopSequences : List Bytes) : Nat :=
  stopSequences.foldl (longerPartialStop response) 0

def trimPartialStop (response : Bytes) (stopSequences : List Bytes) : Bytes :=
  let longest := longestPartialStop response stopSequences
  if longest > 0 then response.take (response.length - longest) else response

/-- One iteration of the loop of `truncate_at_stop`; no position is `npos`. -/
def earlierStop (response : Bytes) (earliest : Option Nat) (stop : Bytes) : Option Nat :=
  if stop.isEmpty then earliest
  else
    match find stop response, earliest with
    | none, earliest => earliest
    | some position, none => some position
    | some position, some earliest =>
        if position < earliest then some position else some earliest

def earliestStop (response : Bytes) (stopSequences : List Bytes) : Option Nat :=
  stopSequences.foldl (earlierStop response) none

def truncateAtStop (response : Bytes) (stopSequences : List Bytes) : Bytes × Bool :=
  match earliestStop response stopSequences with
  | none => (response, false)
  | some earliest => (response.take earliest, true)

/-! Tokens. -/

/-- `std::vector::resize` and `std::string::resize`. -/
def resize {α : Type} (values : List α) (size : Nat) (value : α) : List α :=
  values.take size ++ List.replicate (size - values.length) value

/-- The largest `std::int32_t`. -/
def maxInt32 : Nat := 2 ^ 31 - 1

namespace LlamaGenerator

def contextSize (generator : LlamaGenerator) : UInt64 := generator.nCtxSeq.toUInt64

def tokenPiece (generator : LlamaGenerator) (token : LlamaToken) : Except Exception Bytes :=
  let (count, buffer) := generator.llamaTokenToPiece token 256
  if count ≥ 0 then pure (resize buffer count.toInt.toNat 0)
  -- The negation of the least value wraps, and no string has the size it is cast to.
  else if count = Int32.minValue then throw (.lengthError "basic_string::_M_create")
  else
    let size := (-count.toInt).toNat
    let (count, piece) := generator.llamaTokenToPiece token size
    if count < 0 then throw (.runtimeError "llama.cpp failed to decode response token")
    else pure (resize (resize piece size 0) count.toInt.toNat 0)

def tokenize (generator : LlamaGenerator) (prompt : Bytes) :
    Except Exception (List LlamaToken) :=
  if prompt.isEmpty then throw (.invalidArgument "prompt cannot be empty")
  else if prompt.length > maxInt32 then
    throw (.lengthError "prompt is too large for llama.cpp tokenization")
  else
    let (required, _) := generator.llamaTokenize prompt 0
    if required = Int32.minValue then
      throw (.lengthError "tokenized prompt exceeds llama.cpp limits")
    else if required = 0 then pure []
    else if required > 0 then
      throw (.runtimeError "unexpected llama.cpp tokenizer response")
    else
      let size := (-required.toInt).toNat
      let (count, tokens) := generator.llamaTokenize prompt size
      if count < 0 then throw (.runtimeError "llama.cpp prompt tokenization failed")
      else pure (resize (resize tokens size 0) count.toInt.toNat 0)

def batchAt (tokens : List LlamaToken) (offset count : Nat) : List BatchEntry :=
  (List.range count).map fun i =>
    ⟨tokens.getD (offset + i) 0, llamaPos (offset + i), [0], offset + i + 1 = tokens.length⟩

/-- The number of tokens in the batch at `offset`. -/
def batchCount (generator : LlamaGenerator) (tokens : List LlamaToken) (offset : Nat) : Nat :=
  min generator.batchTokens.toNat (tokens.length - offset)

theorem batchCount_pos (generator : LlamaGenerator) {tokens : List LlamaToken} {offset : Nat}
    (h : offset < tokens.length) : 0 < generator.batchCount tokens offset := by
  have hbatch := generator.batch_pos
  rw [batchCount]
  omega

/-- The batch loop of `evaluate` from `offset` on. -/
def evaluateFrom (generator : LlamaGenerator) (session : Session) (tokens : List LlamaToken)
    (offset : Nat) : Observed LlamaCall Exception Unit :=
  if offset < tokens.length then do
    report (.decode (batchAt tokens offset (generator.batchCount tokens offset)))
    failIf (session.promptDecode offset ≠ 0)
      (.runtimeError "llama.cpp failed to evaluate prompt tokens")
    evaluateFrom generator session tokens (offset + generator.batchCount tokens offset)
  else pure ()
termination_by tokens.length - offset
decreasing_by
  have := generator.batchCount_pos ‹offset < tokens.length›
  omega

def evaluate (generator : LlamaGenerator) (session : Session) (tokens : List LlamaToken) :
    Observed LlamaCall Exception Unit := do
  if generator.hasMemory then report .clearMemory
  evaluateFrom generator session tokens 0

/-- Whether the sampler is not null. -/
def makeSampler (generator : LlamaGenerator) (session : Session) :
    Observed LlamaCall Exception Bool :=
  if generator.greedy then pure session.samplerCreated
  else do
    failIf (!session.samplerCreated)
      (.runtimeError "unable to create llama.cpp sampler chain")
    pure true

/-- The response loop with `remaining` more tokens to generate. -/
def respond (generator : LlamaGenerator) (session : Session) (stopSequences : List Bytes) :
    Nat → Nat → Nat → Bytes → Observed LlamaCall Exception Bytes
  | 0, _, _, response => pure response
  | remaining + 1, generated, position, response => do
      report .sample
      let token := session.sampled generated
      if generator.isEog token then pure response
      else do
        report (.accept token)
        let piece ← ofResult (generator.tokenPiece token)
        let (response, stopped) := truncateAtStop (response ++ piece) stopSequences
        if stopped then pure response
        else do
          report (.decode [⟨token, llamaPos position, [0], true⟩])
          failIf (session.responseDecode generated ≠ 0)
            (.runtimeError "llama.cpp failed to evaluate response token")
          respond generator session stopSequences remaining (generated + 1) (position + 1)
            response

/-- The context-window check of `generate` for a prompt of `count` tokens. -/
def exceedsContext (generator : LlamaGenerator) (maxResponseTokens : UInt64) (count : Nat) :
    Observed LlamaCall Exception Bool :=
  orElse (pure (maxResponseTokens > generator.contextSize)) do
    let room ← mapEvents .access (subU64 generator.contextSize maxResponseTokens)
    pure (count > room.toNat)

/-- The checks of `generate` before anything is evaluated. -/
def checkRequest (generator : LlamaGenerator) (prompt : Bytes) (maxResponseTokens : UInt64) :
    Observed LlamaCall Exception (List LlamaToken) := do
  let promptTokens ← ofResult (generator.tokenize prompt)
  failIf promptTokens.isEmpty (.runtimeError "prompt produced no tokens")
  failWhen (generator.exceedsContext maxResponseTokens promptTokens.length)
    (.lengthError "prompt and requested response exceed the model context window")
  pure promptTokens

def generate (generator : LlamaGenerator) (session : Session) (prompt : Bytes)
    (maxResponseTokens : UInt64) (stopSequences : List Bytes) :
    Observed LlamaCall Exception Bytes := do
  let promptTokens ← generator.checkRequest prompt maxResponseTokens
  generator.evaluate session promptTokens
  let created ← generator.makeSampler session
  failIf (!created) (.runtimeError "unable to create llama.cpp sampler")
  ofResult (session.reserveResponse maxResponseTokens)
  let response ← generator.respond session stopSequences maxResponseTokens.toNat 0
    promptTokens.length []
  pure (trimPartialStop response stopSequences)

end LlamaGenerator

end CppRag
