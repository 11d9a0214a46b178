import CppRag.PromptTurns
import CppRag.Chunker

/-!
The sizes of the prompts as the code computes them, in a `size_t` with a check before each
addition. They refine the sizes over the natural numbers, which are the lengths of what is
assembled.
-/
namespace CppRag
open Observed

/-- A chunk whose strings are objects of the program. -/
structure PromptChunkView where
  id : StringView
  text : StringView

def PromptChunkView.chunk (view : PromptChunkView) : PromptChunk := ⟨view.id.bytes, view.text.bytes⟩

namespace SizeT

/-- `std::numeric_limits<std::size_t>::max()` -/
def maxValue : UInt64 := 18446744073709551615

/-- The `size()` of a constant. -/
def ofConstant (constant : Bytes) : UInt64 := UInt64.ofNat constant.length

def addSize (total amount : UInt64) : Checked UInt64 := do
  let room ← subU64 maxValue total
  failIf (amount > room) (.lengthError "assembled prompt is too large")
  addU64 total amount

def escapedFrom (size : UInt64) : Bytes → Checked UInt64
  | current :: next :: text => do
      let size ← if needsEscape current next then addU64 size 1 else pure size
      escapedFrom size (next :: text)
  | _ => pure size

def escapedSize (text : StringView) : Checked UInt64 := escapedFrom text.size text.bytes

def chunkSize (chunk : PromptChunkView) : Checked UInt64 := do
  let size ← addSize 0 (ofConstant kChunkPrefix)
  let size ← addSize size chunk.id.size
  let size ← addSize size (ofConstant kChunkSuffix)
  let size ← addSize size (ofConstant kContextBegin)
  let escaped ← escapedSize chunk.text
  let size ← addSize size escaped
  let size ← addSize size (ofConstant kContextEnd)
  addSize size (ofConstant kSectionBreak)

def addChunk (required : UInt64) (chunk : PromptChunkView) : Checked UInt64 := do
  let size ← chunkSize chunk
  addSize required size

def addChunkSizes (required : UInt64) (chunks : List PromptChunkView) : Checked UInt64 :=
  chunks.foldlM addChunk required

def requiredSize (systemPrompt : StringView) (chunks : List PromptChunkView)
    (userQuery : StringView) : Checked UInt64 := do
  let required ←
    if systemPrompt.bytes.isEmpty then pure 0
    else do
      let required ← addSize 0 (ofConstant kSystemHeader)
      addSize required systemPrompt.size
  let required ← addSize required (ofConstant (contextHeader systemPrompt.bytes))
  let required ← addChunkSizes required chunks
  let required ← addSize required (ofConstant kQueryHeader)
  addSize required userQuery.size

def chatRequiredSize (systemPrompt userText : StringView) : Checked UInt64 := do
  let front ← addU64 (ofConstant kChatStart) (ofConstant kChatSystemRole)
  let required ← addSize 0 front
  let required ← addSize required systemPrompt.size
  let turn ← addU64 (ofConstant kChatEnd) 1
  let required ← addSize required turn
  let front ← addU64 (ofConstant kChatStart) (ofConstant kChatUserRole)
  let required ← addSize required front
  let required ← addSize required userText.size
  let turn ← addU64 (ofConstant kChatEnd) 1
  let required ← addSize required turn
  let front ← addU64 (ofConstant kChatStart) (ofConstant kChatAssistantRole)
  addSize required front

/-! The refinement. -/

/-- No operation wraps, and the result is a natural number's or the same exception. -/
structure Computes (m : Checked UInt64) (size : Except Exception Nat) : Prop where
  no_wrap : ∀ access ∈ m.events, access.Exact 0
  result : m.result.map UInt64.toNat = size

theorem Computes.bind {m : Checked UInt64} {f : UInt64 → Checked UInt64}
    {size : Except Exception Nat} {g : Nat → Except Exception Nat} (hm : Computes m size)
    (hf : ∀ value, Computes (f value) (g value.toNat)) : Computes (m >>= f) (size >>= g) := by
  obtain ⟨hexact, hresult⟩ := hm
  cases hvalue : m.result with
  | error error =>
      rw [hvalue] at hresult
      subst hresult
      refine ⟨by rwa [events_bind_of_error hvalue], ?_⟩
      rw [bind_of_error hvalue]
      rfl
  | ok value =>
      rw [hvalue] at hresult
      subst hresult
      refine ⟨fun access haccess => ?_, ?_⟩
      · rw [events_bind_of_ok hvalue] at haccess
        exact (List.mem_append.mp haccess).elim (hexact access) ((hf value).no_wrap access)
      · rw [bind_of_ok hvalue]
        exact (hf value).result

theorem Computes.of_returns {m : Checked UInt64} {value : UInt64} {size : Nat}
    (h : Returns (Access.Exact 0) m value) (hsize : value.toNat = size) :
    Computes m (.ok size) :=
  ⟨h.1, by rw [h.2, ← hsize]; rfl⟩

theorem maxSize_lt : maxSize < 2 ^ 64 := by decide

theorem toNat_maxValue : maxValue.toNat = maxSize := by decide

theorem le_maxValue (value : UInt64) : value ≤ maxValue := by
  have hlt := value.toNat_lt
  have hmax : maxSize = 2 ^ 64 - 1 := rfl
  rw [UInt64.le_iff_toNat_le, toNat_maxValue]
  omega

theorem Computes.after {α : Type} {m : Checked α} {value : α} {f : α → Checked UInt64}
    {size : Except Exception Nat} (hm : Returns (Access.Exact 0) m value)
    (hf : Computes (f value) size) : Computes (m >>= f) size := by
  refine ⟨fun access haccess => ?_, ?_⟩
  · rw [events_bind_of_ok hm.2] at haccess
    exact (List.mem_append.mp haccess).elim (hm.1 access) (hf.no_wrap access)
  · rw [bind_of_ok hm.2]
    exact hf.result

theorem computes_refusal {condition : Bool} (h : condition = true) (error : Exception)
    (next : Checked UInt64) :
    Computes (failIf condition error >>= fun _ => next) (.error error) := by
  rw [h]
  exact ⟨nofun, rfl⟩

theorem gt_room_iff {limit total : UInt64} (hle : total ≤ limit) (amount : UInt64) :
    amount > limit - total ↔ limit.toNat < total.toNat + amount.toNat := by
  have hnat := UInt64.le_iff_toNat_le.mp hle
  rw [gt_iff_lt, UInt64.lt_iff_toNat_lt, UInt64.toNat_sub_of_le _ _ hle]
  omega

theorem computes_addSize {total amount : UInt64} {sum extra : Nat} (htotal : total.toNat = sum)
    (hamount : amount.toNat = extra) :
    Computes (addSize total amount) (CppRag.addSize sum extra) := by
  subst htotal hamount
  have hle := le_maxValue total
  have hmax := toNat_maxValue
  have hadds : CppRag.addSize total.toNat amount.toNat = _ :=
    adds_addSize amount.toNat total.toNat (by rw [← hmax]; exact UInt64.le_iff_toNat_le.mp hle)
  rw [addSize]
  -- with the limit a variable the kernel does not evaluate the room left
  generalize maxValue = limit at hle hmax ⊢
  have hroom := gt_room_iff hle amount
  rw [hmax] at hroom
  refine .after (returns_subU64 hle) ?_
  by_cases h : total.toNat + amount.toNat ≤ maxSize
  · have hlt := Nat.lt_of_le_of_lt h maxSize_lt
    rw [if_pos h] at hadds
    rw [hadds]
    refine .after (returns_failIf ?_) (.of_returns (returns_addU64 hlt) ?_)
    · exact decide_eq_false fun hlarge => Nat.not_lt.mpr h (hroom.mp hlarge)
    · rw [UInt64.toNat_add, Nat.mod_eq_of_lt hlt]
  · rw [if_neg h] at hadds
    rw [hadds]
    exact computes_refusal (decide_eq_true (hroom.mpr (Nat.not_le.mp h))) _ _

theorem escapeCount_le (text : Bytes) : escapeCount text ≤ text.length := by
  induction text using escapeCount.induct with
  | case1 current next text ih =>
      rw [escapeCount, List.length_cons]
      split <;> omega
  | case2 text hshort =>
      rw [escapeCount]
      · exact Nat.zero_le _
      · exact hshort

theorem returns_escapedFrom {size : UInt64} {text : Bytes}
    (h : size.toNat + escapeCount text < 2 ^ 64) :
    ∃ escaped, Returns (Access.Exact 0) (escapedFrom size text) escaped ∧
      escaped.toNat = size.toNat + escapeCount text := by
  induction text using escapeCount.induct generalizing size with
  | case1 current next text ih =>
      rw [escapedFrom]
      rw [escapeCount] at h ⊢
      by_cases hescape : needsEscape current next = true
      · simp only [if_pos hescape] at h ⊢
        have hsum : (size + 1).toNat = size.toNat + 1 := by
          rw [UInt64.toNat_add, show (1 : UInt64).toNat = 1 from rfl, Nat.mod_eq_of_lt (by omega)]
        obtain ⟨escaped, hreturns, htotal⟩ := ih (show (size + 1).toNat + _ < _ by omega)
        have hone : Returns (Access.Exact 0) (addU64 size 1) (size + 1) :=
          returns_addU64 (show size.toNat + 1 < 2 ^ 64 by omega)
        exact ⟨escaped, returns_bind hone hreturns, by omega⟩
      · simp only [if_neg hescape, Nat.zero_add] at h ⊢
        obtain ⟨escaped, hreturns, htotal⟩ := ih h
        exact ⟨escaped, returns_bind returns_pure hreturns, htotal⟩
  | case2 text hshort =>
      refine ⟨size, ?_, ?_⟩
      · rw [escapedFrom]
        · exact returns_pure
        · exact hshort
      · rw [escapeCount, Nat.add_zero]
        exact hshort

theorem returns_escapedSize (text : StringView) :
    ∃ escaped, Returns (Access.Exact 0) (escapedSize text) escaped ∧
      escaped.toNat = CppRag.escapedSize text.bytes := by
  have hcount := escapeCount_le text.bytes
  have hlt := text.length_lt
  obtain ⟨escaped, hreturns, hsize⟩ := returns_escapedFrom
    (show text.size.toNat + escapeCount text.bytes < 2 ^ 64 by rw [text.toNat_size]; omega)
  exact ⟨escaped, hreturns, by rw [hsize, text.toNat_size, CppRag.escapedSize]⟩

theorem toNat_ofConstant {constant : Bytes} (h : constant.length < 64) :
    (ofConstant constant).toNat = constant.length :=
  UInt64.toNat_ofNat_of_lt' (Nat.lt_trans h (by decide))

theorem computes_chunkSize (view : PromptChunkView) :
    Computes (chunkSize view) (CppRag.chunkSize view.chunk) := by
  obtain ⟨escaped, hreturns, hescaped⟩ := returns_escapedSize view.text
  rw [chunkSize, CppRag.chunkSize]
  refine .bind (computes_addSize rfl (toNat_ofConstant (by decide))) fun size => ?_
  refine .bind (computes_addSize rfl view.id.toNat_size) fun size => ?_
  refine .bind (computes_addSize rfl (toNat_ofConstant (by decide))) fun size => ?_
  refine .bind (computes_addSize rfl (toNat_ofConstant (by decide))) fun size => ?_
  refine .after hreturns (.bind (computes_addSize rfl hescaped) fun size => ?_)
  refine .bind (computes_addSize rfl (toNat_ofConstant (by decide))) fun size => ?_
  exact computes_addSize rfl (toNat_ofConstant (by decide))

theorem computes_addChunk (required : UInt64) (chunk : PromptChunkView) :
    Computes (addChunk required chunk)
      (CppRag.chunkSize chunk.chunk >>= CppRag.addSize required.toNat) := by
  rw [addChunk]
  exact .bind (computes_chunkSize chunk) fun size => computes_addSize rfl rfl

theorem computes_addChunkSizes (required : UInt64) (chunks : List PromptChunkView) :
    Computes (addChunkSizes required chunks)
      (CppRag.addChunkSizes required.toNat (chunks.map PromptChunkView.chunk)) := by
  unfold addChunkSizes
  induction chunks generalizing required with
  | nil => exact .of_returns returns_pure rfl
  | cons chunk chunks ih =>
      have hcons : CppRag.addChunkSizes required.toNat ((chunk :: chunks).map PromptChunkView.chunk) =
          (CppRag.chunkSize chunk.chunk >>= CppRag.addSize required.toNat) >>= fun total =>
            CppRag.addChunkSizes total (chunks.map PromptChunkView.chunk) := by
        rw [List.map_cons, CppRag.addChunkSizes, bind_assoc]
      rw [List.foldlM_cons, hcons]
      exact .bind (computes_addChunk required chunk) ih

theorem computes_requiredSize (systemPrompt : StringView) (chunks : List PromptChunkView)
    (userQuery : StringView) : Computes (requiredSize systemPrompt chunks userQuery)
      (CppRag.requiredSize systemPrompt.bytes (chunks.map PromptChunkView.chunk)
        userQuery.bytes) := by
  have hheader : (contextHeader systemPrompt.bytes).length < 64 := by
    unfold contextHeader
    split <;> decide
  have hrest : ∀ required : UInt64, Computes
      (do
        let required ← addSize required (ofConstant (contextHeader systemPrompt.bytes))
        let required ← addChunkSizes required chunks
        let required ← addSize required (ofConstant kQueryHeader)
        addSize required userQuery.size)
      (do
        let required ← CppRag.addSize required.toNat (contextHeader systemPrompt.bytes).length
        let required ← CppRag.addChunkSizes required (chunks.map PromptChunkView.chunk)
        let required ← CppRag.addSize required kQueryHeader.length
        CppRag.addSize required userQuery.bytes.length) := by
    intro required
    refine .bind (computes_addSize rfl (toNat_ofConstant hheader)) fun required => ?_
    refine .bind (computes_addChunkSizes required chunks) fun required => ?_
    refine .bind (computes_addSize rfl (toNat_ofConstant (by decide))) fun required => ?_
    exact computes_addSize rfl userQuery.toNat_size
  rw [requiredSize, CppRag.requiredSize]
  split
  · exact .bind (.of_returns returns_pure rfl) hrest
  · refine .bind (computes_addSize rfl (toNat_ofConstant (by decide))) fun required => ?_
    exact .bind (computes_addSize rfl systemPrompt.toNat_size) hrest

/-- The unchecked addition of two constants. -/
theorem returns_addConstants {lhs rhs : UInt64} {a b : Nat} (ha : lhs.toNat = a)
    (hb : rhs.toNat = b) (h : a + b < 128) :
    Returns (Access.Exact 0) (addU64 lhs rhs) (lhs + rhs) ∧ (lhs + rhs).toNat = a + b := by
  subst ha hb
  have hsum : lhs.toNat + rhs.toNat < 2 ^ 64 := Nat.lt_trans h (by decide)
  exact ⟨returns_addU64 hsum, by rw [UInt64.toNat_add, Nat.mod_eq_of_lt hsum]⟩

theorem computes_chatRequiredSize (systemPrompt userText : StringView) :
    Computes (chatRequiredSize systemPrompt userText)
      (CppRag.chatRequiredSize systemPrompt.bytes userText.bytes) := by
  have hstart : (ofConstant kChatStart).toNat = kChatStart.length := toNat_ofConstant (by decide)
  obtain ⟨hsystem, hsystemSize⟩ := returns_addConstants hstart
    (toNat_ofConstant (show kChatSystemRole.length < 64 by decide)) (by decide)
  obtain ⟨huser, huserSize⟩ := returns_addConstants hstart
    (toNat_ofConstant (show kChatUserRole.length < 64 by decide)) (by decide)
  obtain ⟨hassistant, hassistantSize⟩ := returns_addConstants hstart
    (toNat_ofConstant (show kChatAssistantRole.length < 64 by decide)) (by decide)
  obtain ⟨hend, hendSize⟩ := returns_addConstants
    (toNat_ofConstant (show kChatEnd.length < 64 by decide)) (show (1 : UInt64).toNat = 1 from rfl)
    (by decide)
  rw [chatRequiredSize, CppRag.chatRequiredSize]
  refine .after hsystem (.bind (computes_addSize rfl hsystemSize) fun required => ?_)
  refine .bind (computes_addSize rfl systemPrompt.toNat_size) fun required => ?_
  refine .after hend (.bind (computes_addSize rfl hendSize) fun required => ?_)
  refine .after huser (.bind (computes_addSize rfl huserSize) fun required => ?_)
  refine .bind (computes_addSize rfl userText.toNat_size) fun required => ?_
  refine .after hend (.bind (computes_addSize rfl hendSize) fun required => ?_)
  exact .after hassistant (computes_addSize rfl hassistantSize)

theorem Computes.returns {m : Checked UInt64} {size : Nat} (h : Computes m (.ok size)) :
    ∃ value, Returns (Access.Exact 0) m value ∧ value.toNat = size := by
  have hresult := h.result
  cases hvalue : m.result with
  | error error =>
      rw [hvalue] at hresult
      cases hresult
  | ok value =>
      rw [hvalue] at hresult
      exact ⟨value, ⟨h.no_wrap, hvalue⟩, Except.ok.inj hresult⟩

end SizeT

/-- The size of the chat prompt is the size of what is appended. -/
theorem chatRequiredSize_eq (systemPrompt userText : Bytes) :
    chatRequiredSize systemPrompt userText =
      if (systemTurn systemPrompt ++ userTurn userText ++
          (kChatStart ++ kChatAssistantRole)).length ≤ maxSize then
        .ok (systemTurn systemPrompt ++ userTurn userText ++
          (kChatStart ++ kChatAssistantRole)).length
      else .error tooLarge := by
  have hadds := (adds_addSize (kChatStart.length + kChatSystemRole.length)).bind <|
    (adds_addSize systemPrompt.length).bind <| (adds_addSize (kChatEnd.length + 1)).bind <|
    (adds_addSize (kChatStart.length + kChatUserRole.length)).bind <|
    (adds_addSize userText.length).bind <| (adds_addSize (kChatEnd.length + 1)).bind <|
    adds_addSize (kChatStart.length + kChatAssistantRole.length)
  have hlen : (systemTurn systemPrompt ++ userTurn userText ++
      (kChatStart ++ kChatAssistantRole)).length =
      kChatStart.length + kChatSystemRole.length + (systemPrompt.length +
        (kChatEnd.length + 1 + (kChatStart.length + kChatUserRole.length + (userText.length +
          (kChatEnd.length + 1 + (kChatStart.length + kChatAssistantRole.length)))))) := by
    simp only [systemTurn, userTurn, List.length_append, List.length_singleton]
    omega
  have h := hadds 0 (Nat.zero_le _)
  rw [Nat.zero_add] at h
  rw [hlen]
  exact h

theorem ragRequiredSize_ok {systemPrompt : Bytes} {chunks : List PromptChunk}
    {userQuery : Bytes} {maxBytes : UInt64} {prompt : Bytes}
    (h : buildRagPrompt systemPrompt chunks userQuery maxBytes = .ok prompt) :
    ∃ included, fitChunks chunks maxBytes (contextHeader systemPrompt).length = .ok included ∧
      requiredSize systemPrompt (chunks.take included) userQuery = .ok prompt.length := by
  obtain ⟨included, hfit, rfl⟩ := buildRagPrompt_ok h
  refine ⟨included, hfit, ?_⟩
  rw [buildRagPrompt, hfit] at h
  rw [requiredSize_eq]
  by_cases hlarge : (assemble systemPrompt (chunks.take included) userQuery).length ≤ maxSize
  · rw [if_pos hlarge]
  · simp only [bind, Except.bind, requiredSize_eq, if_neg hlarge] at h
    cases h

theorem chatRequiredSize_ok {systemPrompt userText prompt : Bytes}
    (h : buildChatPrompt systemPrompt userText = .ok prompt) :
    chatRequiredSize systemPrompt userText = .ok prompt.length := by
  have hprompt := buildChatPrompt_ok h
  rw [buildChatPrompt] at h
  rw [chatRequiredSize_eq, ← hprompt] at h ⊢
  by_cases hlarge : prompt.length ≤ maxSize
  · rw [if_pos hlarge]
  · rw [if_neg hlarge] at h
    cases h

/-! The prompts that are returned. -/

/-- Every precomputed size is the mathematical sum of its parts and the length of what is
appended for it: of the whole prompt, of one chunk, and of the chat prompt. -/
theorem prompt_sizes_exact :
    (∀ (systemPrompt : StringView) (chunks : List PromptChunkView) (userQuery : StringView)
      (maxBytes : UInt64) (prompt : Bytes),
      buildRagPrompt systemPrompt.bytes (chunks.map PromptChunkView.chunk) userQuery.bytes
        maxBytes = .ok prompt →
      ∃ included required,
        fitChunks (chunks.map PromptChunkView.chunk) maxBytes
          (contextHeader systemPrompt.bytes).length = .ok included ∧
        Returns (Access.Exact 0)
          (SizeT.requiredSize systemPrompt (chunks.take included) userQuery) required ∧
        required.toNat = prompt.length) ∧
    (∀ (chunk : PromptChunkView) (size : UInt64), (SizeT.chunkSize chunk).result = .ok size →
      Returns (Access.Exact 0) (SizeT.chunkSize chunk) size ∧
      size.toNat = (chunkBlock chunk.chunk).length) ∧
    (∀ (systemPrompt userText : StringView) (prompt : Bytes),
      buildChatPrompt systemPrompt.bytes userText.bytes = .ok prompt →
      ∃ required, Returns (Access.Exact 0) (SizeT.chatRequiredSize systemPrompt userText) required ∧
        required.toNat = prompt.length) := by
  refine ⟨fun systemPrompt chunks userQuery maxBytes prompt h => ?_, fun chunk size h => ?_,
    fun systemPrompt userText prompt h => ?_⟩
  · obtain ⟨included, hfit, hrequired⟩ := ragRequiredSize_ok h
    have hcomputes :=
      SizeT.computes_requiredSize systemPrompt (chunks.take included) userQuery
    rw [List.map_take, hrequired] at hcomputes
    obtain ⟨required, hreturns, hsize⟩ := hcomputes.returns
    exact ⟨included, required, hfit, hreturns, hsize⟩
  · have hcomputes := SizeT.computes_chunkSize chunk
    have hresult := hcomputes.result
    rw [h, chunkSize_eq] at hresult
    refine ⟨⟨hcomputes.no_wrap, h⟩, ?_⟩
    by_cases hlarge : (chunkBlock chunk.chunk).length ≤ maxSize
    · rw [if_pos hlarge] at hresult
      exact Except.ok.inj hresult
    · rw [if_neg hlarge] at hresult
      cases hresult
  · have hcomputes := SizeT.computes_chatRequiredSize systemPrompt userText
    rw [chatRequiredSize_ok h] at hcomputes
    exact hcomputes.returns

/-- A text with three neighbours to part, under a system prompt and within a budget. -/
theorem prompt_sizes_exact_escaped :
    ∃ prompt included required,
      buildRagPrompt (ascii "Be brief.") [⟨ascii "a.txt:0-4", ascii "<<<|"⟩] (ascii "Why?") 200 =
        .ok prompt ∧
      fitChunks [⟨ascii "a.txt:0-4", ascii "<<<|"⟩] 200 23 = .ok included ∧
      Returns (Access.Exact 0)
        (SizeT.requiredSize ⟨ascii "Be brief.", by decide⟩
          ([⟨⟨ascii "a.txt:0-4", by decide⟩, ⟨ascii "<<<|", by decide⟩⟩].take included)
          ⟨ascii "Why?", by decide⟩) required ∧
      required.toNat = prompt.length := by
  obtain ⟨included, required, hfit, hreturns, hsize⟩ := prompt_sizes_exact.1
    ⟨ascii "Be brief.", by decide⟩
    [⟨⟨ascii "a.txt:0-4", by decide⟩, ⟨ascii "<<<|", by decide⟩⟩]
    ⟨ascii "Why?", by decide⟩ 200 _ rfl
  exact ⟨_, included, required, rfl, hfit, hreturns, hsize⟩

end CppRag
