import CppRag.Basic
import CppRag.Foundation.Characters
import Mathlib.Data.UInt

/-!
`build_rag_prompt` and `build_chat_prompt`: the size computation with its overflow
check, the byte budget with its unsigned subtraction, the escaping of chunk text and
the assembly of both prompts.

Sizes of strings are natural numbers: a `string_view` has fewer than 2^63 bytes, so
even an escaped size fits in 64 bits. Sums of sizes are checked as the code checks them.
-/
namespace CppRag
open Characters

/-- The bytes of an ASCII literal. -/
def ascii (literal : String) : Bytes := literal.toList.map fun c => UInt8.ofNat c.toNat

def kSystemHeader : Bytes := ascii "[SYSTEM PROMPT]\n"
def kContextHeader : Bytes := ascii "\n\n[RETRIEVED CONTEXT]\n"
def kContextHeaderPlain : Bytes := ascii "[RETRIEVED CONTEXT]\n"
def kChunkPrefix : Bytes := ascii "[Chunk ID: "
def kChunkSuffix : Bytes := ascii "]\n"
def kContextBegin : Bytes := ascii "<<<BEGIN RETRIEVED CHUNK>>>\n"
def kContextEnd : Bytes := ascii "\n<<<END RETRIEVED CHUNK>>>"
def kQueryHeader : Bytes := ascii "[USER QUERY]\n"
def kSectionBreak : Bytes := ascii "\n\n"

def kChatStart : Bytes := ascii "<|im_start|>"
def kChatEnd : Bytes := ascii "<|im_end|>"
def kChatSystemRole : Bytes := ascii "system\n"
def kChatUserRole : Bytes := ascii "user\n"
def kChatAssistantRole : Bytes := ascii "assistant\n"

structure PromptChunk where
  id : Bytes
  text : Bytes
  deriving DecidableEq, Repr

/-- The largest `size_t`. -/
def maxSize : Nat := 2 ^ 64 - 1

def addSize (total amount : Nat) : Except Exception Nat :=
  if amount > maxSize - total then .error (.lengthError "assembled prompt is too large")
  else .ok (total + amount)

def needsEscape (current next : UInt8) : Bool :=
  if current = less ∧ (next = less ∨ next = bar) then true
  else if current = greater ∧ next = greater then true
  else current = bar ∧ next = greater

/-- How many neighbours of a text need a space between them. -/
def escapeCount : Bytes → Nat
  | current :: next :: text =>
      (if needsEscape current next then 1 else 0) + escapeCount (next :: text)
  | _ => 0

def escapedSize (text : Bytes) : Nat := text.length + escapeCount text

/-- What `append_escaped` appends. -/
def escapeText : Bytes → Bytes
  | current :: next :: text =>
      if needsEscape current next then current :: space :: escapeText (next :: text)
      else current :: escapeText (next :: text)
  | text => text

def chunkSize (chunk : PromptChunk) : Except Exception Nat := do
  let size ← addSize 0 kChunkPrefix.length
  let size ← addSize size chunk.id.length
  let size ← addSize size kChunkSuffix.length
  let size ← addSize size kContextBegin.length
  let size ← addSize size (escapedSize chunk.text)
  let size ← addSize size kContextEnd.length
  addSize size kSectionBreak.length

/-- The loop of `fit_chunks`: how many more chunks fit after `used` bytes. -/
def fitFrom (maxBytes used : UInt64) : List PromptChunk → Except Exception Nat
  | [] => pure 0
  | chunk :: chunks => do
      let size ← chunkSize chunk
      if UInt64.ofNat size > maxBytes - used then pure 0
      else do
        let included ← fitFrom maxBytes (used + UInt64.ofNat size) chunks
        pure (included + 1)

def fitChunks (chunks : List PromptChunk) (maxBytes : UInt64) (headerSize : Nat) :
    Except Exception Nat :=
  if maxBytes = 0 then pure chunks.length
  else fitFrom maxBytes (UInt64.ofNat headerSize) chunks

def contextHeader (systemPrompt : Bytes) : Bytes :=
  if systemPrompt.isEmpty then kContextHeaderPlain else kContextHeader

def addChunkSizes (required : Nat) : List PromptChunk → Except Exception Nat
  | [] => pure required
  | chunk :: chunks => do
      let size ← chunkSize chunk
      let required ← addSize required size
      addChunkSizes required chunks

/-- The size reserved for a prompt; its checks come before any byte is appended. -/
def requiredSize (systemPrompt : Bytes) (chunks : List PromptChunk) (userQuery : Bytes) :
    Except Exception Nat := do
  let required ←
    if systemPrompt.isEmpty then pure 0
    else do
      let required ← addSize 0 kSystemHeader.length
      addSize required systemPrompt.length
  let required ← addSize required (contextHeader systemPrompt).length
  let required ← addChunkSizes required chunks
  let required ← addSize required kQueryHeader.length
  addSize required userQuery.length

def chunkBlock (chunk : PromptChunk) : Bytes :=
  kChunkPrefix ++ chunk.id ++ kChunkSuffix ++ kContextBegin ++ escapeText chunk.text ++
    kContextEnd ++ kSectionBreak

def systemSection (systemPrompt : Bytes) : Bytes :=
  if systemPrompt.isEmpty then [] else kSystemHeader ++ systemPrompt

def assemble (systemPrompt : Bytes) (chunks : List PromptChunk) (userQuery : Bytes) : Bytes :=
  systemSection systemPrompt ++ contextHeader systemPrompt ++ chunks.flatMap chunkBlock ++
    kQueryHeader ++ userQuery

def buildRagPrompt (systemPrompt : Bytes) (chunks : List PromptChunk) (userQuery : Bytes)
    (maxBytes : UInt64) : Except Exception Bytes := do
  let included ← fitChunks chunks maxBytes (contextHeader systemPrompt).length
  let _ ← requiredSize systemPrompt (chunks.take included) userQuery
  pure (assemble systemPrompt (chunks.take included) userQuery)

def chatRequiredSize (systemPrompt userText : Bytes) : Except Exception Nat := do
  let required ← addSize 0 (kChatStart.length + kChatSystemRole.length)
  let required ← addSize required systemPrompt.length
  let required ← addSize required (kChatEnd.length + 1)
  let required ← addSize required (kChatStart.length + kChatUserRole.length)
  let required ← addSize required userText.length
  let required ← addSize required (kChatEnd.length + 1)
  addSize required (kChatStart.length + kChatAssistantRole.length)

def buildChatPrompt (systemPrompt userText : Bytes) : Except Exception Bytes := do
  let _ ← chatRequiredSize systemPrompt userText
  pure (kChatStart ++ kChatSystemRole ++ systemPrompt ++ kChatEnd ++ [newline] ++
    kChatStart ++ kChatUserRole ++ userText ++ kChatEnd ++ [newline] ++
    kChatStart ++ kChatAssistantRole)

/-- `std::to_string` of an unsigned value. -/
def decimal (value : UInt64) : Bytes :=
  (Nat.toDigits 10 value.toNat).map fun c => UInt8.ofNat c.toNat

/-- The id `run_ask` gives a retrieved chunk: source, `:`, begin, `-`, end. -/
def askId (chunk : Chunk) : Bytes :=
  chunk.source ++ ascii ":" ++ decimal chunk.byteBegin ++ ascii "-" ++ decimal chunk.byteEnd

def askChunks (chunks : List Chunk) : List PromptChunk :=
  chunks.map fun chunk => ⟨askId chunk, chunk.text⟩

/-- The prompt `run_ask` assembles from the chunks it keeps. -/
def askPrompt (systemPrompt : Bytes) (chunks : List Chunk) (query : Bytes) :
    Except Exception Bytes := do
  let userText ← buildRagPrompt [] (askChunks chunks) query 0
  buildChatPrompt systemPrompt userText

end CppRag
