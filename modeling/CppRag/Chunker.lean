import CppRag.Checked
import CppRag.Foundation.Utf8

/-!
`chunk_text`: the two snaps to code point boundaries, the search for a whitespace break and
the loop with its clamped overlap. Character reads and `size_t` arithmetic are reported; the
loop gets a number of steps it may take and has no value when it needs more.
-/
namespace CppRag
open Observed Slice

/-- A `std::string_view`: no object has more than `PTRDIFF_MAX` bytes. -/
structure StringView where
  bytes : Bytes
  length_lt : bytes.length < 2 ^ 63

def StringView.size (text : StringView) : UInt64 := UInt64.ofNat text.bytes.length

theorem StringView.toNat_size (text : StringView) : text.size.toNat = text.bytes.length :=
  UInt64.toNat_ofNat_of_lt' (Nat.lt_trans text.length_lt (by decide))

structure ChunkOptions where
  maxBytes : UInt64
  overlapBytes : UInt64
  deriving DecidableEq, Repr

def charAt (text : StringView) (position : UInt64) : Checked UInt8 := do
  report (.read position.toNat 1)
  pure (text.bytes.getD position.toNat 0)

def substr (text : StringView) (position count : UInt64) : Checked Bytes := do
  report (.read position.toNat count.toNat)
  pure (slice text.bytes position.toNat count.toNat)

def isUtf8Continuation (value : UInt8) : Bool := Utf8.IsContinuation value

/-- `std::isspace` in the `"C"` locale, which the program never changes. -/
def isSpace (value : UInt8) : Bool := value = 32 || (9 ≤ value && value ≤ 13)

/-- `std::tolower` in the `"C"` locale. -/
def toLower (c : UInt8) : UInt8 := if 65 ≤ c && c ≤ 90 then c + 32 else c

def advanceToCodepoint (text : StringView) (position : UInt64) : Checked UInt64 :=
  if position < text.size then do
    let value ← charAt text position
    if isUtf8Continuation value then do
      report (.add position 1)
      advanceToCodepoint text (position + 1)
    else pure position
  else pure position
termination_by text.size.toNat - position.toNat
decreasing_by
  have hlt := UInt64.lt_iff_toNat_lt.mp ‹position < text.size›
  rw [toNat_succ_of_lt ‹position < text.size›]
  omega

/-- The first loop of `choose_end`: `safe_end` back to a code point boundary. -/
def retreatToCodepoint (text : StringView) (begin safeEnd : UInt64) : Checked UInt64 :=
  if begin < safeEnd then do
    let value ← charAt text safeEnd
    if isUtf8Continuation value then do
      report (.sub safeEnd 1)
      retreatToCodepoint text begin (safeEnd - 1)
    else pure safeEnd
  else pure safeEnd
termination_by safeEnd.toNat
decreasing_by
  have hlt := UInt64.lt_iff_toNat_lt.mp ‹begin < safeEnd›
  rw [toNat_pred_of_lt ‹begin < safeEnd›]
  omega

/-- The second loop of `choose_end`: a cursor just after a whitespace byte. -/
def findBreak (text : StringView) (earliestBreak cursor : UInt64) : Checked (Option UInt64) :=
  if earliestBreak < cursor then do
    let index ← subU64 cursor 1
    let ch ← charAt text index
    if ch = 10 || isSpace ch then pure (some cursor)
    else do
      report (.sub cursor 1)
      findBreak text earliestBreak (cursor - 1)
  else pure none
termination_by cursor.toNat
decreasing_by
  have hlt := UInt64.lt_iff_toNat_lt.mp ‹earliestBreak < cursor›
  rw [toNat_pred_of_lt ‹earliestBreak < cursor›]
  omega

def chooseEnd (text : StringView) (begin maxBytes : UInt64) : Checked UInt64 := do
  let limit ← addU64 begin maxBytes
  let hardEnd := min text.size limit
  if hardEnd = text.size then pure hardEnd
  else do
    let safeEnd ← retreatToCodepoint text begin hardEnd
    let earliestBreak ← addU64 begin (maxBytes / 2)
    let found ← findBreak text earliestBreak safeEnd
    pure (found.getD (if begin < safeEnd then safeEnd else hardEnd))

/-- The loop of `chunk_text` from `begin` on, for at most `steps` iterations. -/
def chunkFrom (text : StringView) (source : Bytes) (options : ChunkOptions) (steps : Nat)
    (begin : UInt64) : Checked (Option (List Chunk)) :=
  if begin < text.size then
    match steps with
    | 0 => pure none
    | steps + 1 => do
        let last ← chooseEnd text begin options.maxBytes
        let length ← subU64 last begin
        let content ← substr text begin length
        let chunk : Chunk := ⟨source, content, begin, last, 0, options.maxBytes.toUInt32⟩
        if last = text.size then pure (some [chunk])
        else do
          let length ← subU64 last begin
          let room ← subU64 length 1
          let overlap := min options.overlapBytes room
          let start ← subU64 last overlap
          let next ← advanceToCodepoint text start
          let chunks ← chunkFrom text source options steps next
          pure (chunks.map (chunk :: ·))
  else pure (some [])

def chunkText (text : StringView) (source : Bytes) (options : ChunkOptions) (steps : Nat) :
    Checked (Option (List Chunk)) := do
  failIf (options.maxBytes = 0 || 4294967295 < options.maxBytes)
    (.invalidArgument "chunk max_bytes must fit the index format")
  failIf (options.maxBytes ≤ options.overlapBytes)
    (.invalidArgument "chunk overlap_bytes must be smaller than max_bytes")
  chunkFrom text source options steps 0

/-- The options `chunk_text` does not refuse. -/
structure ChunkOptions.Accepted (options : ChunkOptions) : Prop where
  max_le : options.maxBytes.toNat < 2 ^ 32
  overlap_lt : options.overlapBytes.toNat < options.maxBytes.toNat

theorem ChunkOptions.Accepted.max_pos {options : ChunkOptions} (h : options.Accepted) :
    0 < options.maxBytes.toNat :=
  Nat.lt_of_le_of_lt (Nat.zero_le _) h.overlap_lt

theorem ChunkOptions.Accepted.max_ok {options : ChunkOptions} (h : options.Accepted) :
    (options.maxBytes = 0 || 4294967295 < options.maxBytes) = false := by
  have hle := h.max_le
  have hlt := h.overlap_lt
  rw [Bool.or_eq_false_iff, decide_eq_false_iff_not, decide_eq_false_iff_not]
  refine ⟨?_, ?_⟩
  · intro hzero
    rw [hzero] at hlt
    exact absurd hlt (Nat.not_lt_zero _)
  · rw [UInt64.lt_iff_toNat_lt, show (4294967295 : UInt64).toNat = 4294967295 from rfl]
    omega

theorem ChunkOptions.Accepted.overlap_ok {options : ChunkOptions} (h : options.Accepted) :
    decide (options.maxBytes ≤ options.overlapBytes) = false := by
  rw [decide_eq_false_iff_not, UInt64.le_iff_toNat_le]
  exact Nat.not_le.mpr h.overlap_lt

theorem chunkText_of_accepted {options : ChunkOptions} (h : options.Accepted)
    (text : StringView) (source : Bytes) (steps : Nat) :
    (chunkText text source options steps).result =
      (chunkFrom text source options steps 0).result := by
  rw [chunkText, h.max_ok, h.overlap_ok]
  rfl

end CppRag
