import CppRag.LlamaEmbedder

/-!
What a text costs and gives: the calls made for it, and the embedding read from the context
they leave.
-/
namespace CppRag
open Interactive

theorem castInt32_of_lt {size : Nat} (h : size < 2 ^ 31) : castInt32 size = size := by
  rw [castInt32, Int32.toInt_ofNat_of_lt h, Int.toNat_natCast]

theorem length_resize {α : Type} (values : List α) (size : Nat) (value : α) :
    (resize values size value).length = size := by
  simp only [resize, List.length_append, List.length_take, List.length_replicate]
  omega

namespace LlamaEmbedder
variable {σ : Type} (embedder : LlamaEmbedder σ)

theorem tokenize_length {text : Bytes} {tokens : List LlamaToken}
    (h : embedder.tokenize text = .ok tokens) : tokens.length < 2 ^ 31 := by
  simp only [tokenize] at h
  split at h
  · cases h
  split at h
  · cases h
    decide
  split at h
  · cases h
  split at h
  · cases h
  split at h
  · cases h
  · cases h
    rw [length_resize]
    have hcount : ∀ count : Int32, count.toInt.toNat < 2 ^ 31 := fun count => by
      have := count.toInt_lt
      omega
    exact hcount _

structure Embeddable (tokens : List LlamaToken) : Prop where
  nonempty : tokens ≠ []
  le_batch : tokens.length ≤ embedder.nBatch.toNat
  lt_int32 : tokens.length < 2 ^ 31

theorem tokensFor_embeddable {text : Bytes} {tokens : List LlamaToken}
    (h : embedder.tokensFor text = .ok tokens) : embedder.Embeddable tokens := by
  rw [tokensFor] at h
  cases htokens : embedder.tokenize text with
  | error error =>
      rw [htokens] at h
      cases h
  | ok found =>
      rw [htokens] at h
      change (if _ then _ else _) = _ at h
      split at h
      · cases h
      · rename_i hempty
        split at h
        · cases h
        · rename_i hle
          cases h
          exact ⟨by simpa using hempty, by omega, tokenize_length embedder htokens⟩

/-! The batch. -/

def entries (tokens : List LlamaToken) : List BatchEntry :=
  tokens.mapIdx fun position token => entry token position

/-- The batch after the loop that fills it. -/
def fill (position : Nat) : List LlamaToken → List BatchEntry → List BatchEntry
  | [], cells => cells
  | token :: tokens, cells =>
      fill (position + 1) tokens (cells.set position (entry token position))

@[simp] theorem length_fill (position : Nat) (tokens : List LlamaToken)
    (cells : List BatchEntry) : (fill position tokens cells).length = cells.length := by
  induction tokens generalizing position cells with
  | nil => rfl
  | cons token tokens ih => rw [fill, ih, List.length_set]

/-- What the batch held before does not reach the entries it is evaluated with. -/
theorem take_fill (position : Nat) (tokens : List LlamaToken) (cells : List BatchEntry)
    (h : position + tokens.length ≤ cells.length) :
    (fill position tokens cells).take (position + tokens.length) =
      cells.take position ++ tokens.mapIdx fun i token => entry token (position + i) := by
  induction tokens generalizing position cells with
  | nil => simp [fill]
  | cons token tokens ih =>
      rw [List.length_cons] at h
      have hset : (cells.set position (entry token position)).take (position + 1) =
          cells.take position ++ [entry token position] := by
        rw [List.take_add_one, List.getElem?_set_self (by omega), List.take_set_of_le (by omega)]
        rfl
      rw [fill, List.length_cons, show position + (tokens.length + 1) =
        position + 1 + tokens.length by omega, ih _ _ (by rw [List.length_set]; omega), hset,
        List.mapIdx_cons, List.append_assoc, List.singleton_append]
      simp only [Nat.add_zero, Nat.add_right_comm position 1, Nat.add_assoc]

theorem take_fill_zero {tokens : List LlamaToken} {cells : List BatchEntry}
    (h : tokens.length ≤ cells.length) :
    (fill 0 tokens cells).take tokens.length = entries tokens := by
  have hfill := take_fill 0 tokens cells (by omega)
  simp only [Nat.zero_add, List.take_zero, List.nil_append] at hfill
  exact hfill

def writes (position count capacity : Nat) : List EmbedderCall :=
  (List.range' position count).map fun i => .write i capacity

theorem exec_record (call : EmbedderCall) (s : EmbedderState σ) :
    exec (record call) s = (.ok (), { s with calls := s.calls ++ [call] }) := rfl

theorem exec_fillFrom (position : Nat) (tokens : List LlamaToken) (cells : List BatchEntry)
    (s : EmbedderState σ) :
    exec (fillFrom position tokens cells) s =
      (.ok (fill position tokens cells),
        { s with calls := s.calls ++ writes position tokens.length cells.length }) := by
  induction tokens generalizing position cells s with
  | nil => simp [fillFrom, fill, writes]
  | cons token tokens ih =>
      rw [fillFrom, exec_bind_ok (exec_record _ s), ih]
      simp [fill, writes, List.range'_succ]

/-! One text. -/

/-- The context a text is evaluated in. -/
def prepared (context : σ) : σ :=
  if embedder.hasMemory then embedder.clearMemory context else context

def clearCalls : List EmbedderCall := if embedder.hasMemory then [.clearMemory] else []

theorem exec_clear (s : EmbedderState σ) :
    exec embedder.clear s =
      (.ok (), ⟨embedder.prepared s.context, s.calls ++ embedder.clearCalls⟩) := by
  cases hmemory : embedder.hasMemory with
  | true =>
      rw [clear, if_pos hmemory, exec_bind_ok (exec_record _ s), exec_modify]
      simp [prepared, clearCalls, hmemory]
  | false => simp [clear, prepared, clearCalls, hmemory]

theorem exec_evaluate (batch : List BatchEntry) (s : EmbedderState σ) :
    exec (embedder.evaluate batch) s =
      (.ok (embedder.run s.context batch).1,
        ⟨(embedder.run s.context batch).2, s.calls ++ [.evaluate batch]⟩) := rfl

/-- The embedding after an evaluation, from its result and the context it leaves. -/
def outcome (answer : Int32 × σ) : Except Exception (List FloatBits) :=
  if answer.1 ≠ 0 then throw (.runtimeError "llama.cpp failed to compute embedding")
  else
    match embedder.embeddingsSeq answer.2 with
    | none => throw (.runtimeError "llama.cpp returned no pooled embedding")
    | some values => pure (embedder.normalise ((List.range embedder.dimensions).map values))

/-- The evaluation of a text's tokens, in any context. -/
def answer (context : σ) (tokens : List LlamaToken) : Int32 × σ :=
  embedder.run (embedder.prepared context) (entries tokens)

def textCalls (capacity : Nat) (tokens : List LlamaToken) : List EmbedderCall :=
  writes 0 tokens.length capacity ++ embedder.clearCalls ++ [.evaluate (entries tokens)]

theorem exec_pooled {tokens : List LlamaToken} {cells : List BatchEntry}
    (hfits : tokens.length ≤ cells.length) (hlt : tokens.length < 2 ^ 31)
    (s : EmbedderState σ) :
    exec (embedder.pooled tokens cells) s =
      ((embedder.outcome (embedder.answer s.context tokens)).map (·, fill 0 tokens cells),
        ⟨(embedder.answer s.context tokens).2,
          s.calls ++ embedder.textCalls cells.length tokens⟩) := by
  rw [pooled, exec_bind_ok (exec_fillFrom 0 tokens cells s), exec_bind_ok (exec_clear _ _),
    castInt32_of_lt hlt, take_fill_zero hfits, exec_bind_ok (exec_evaluate _ _ _)]
  change exec (if (embedder.answer s.context tokens).1 ≠ 0 then _ else _)
    (⟨(embedder.answer s.context tokens).2, _⟩ : EmbedderState σ) = _
  simp only [textCalls, ← List.append_assoc]
  rcases embedder.answer s.context tokens with ⟨result, context⟩
  by_cases hresult : result = 0
  · subst hresult
    rw [if_neg (by simp), exec_bind_ok (exec_get _), outcome, if_neg (by simp)]
    cases embedder.embeddingsSeq context with
    | none => rfl
    | some values => rfl
  · rw [if_pos hresult, outcome, if_pos hresult]
    rfl

end LlamaEmbedder

end CppRag
