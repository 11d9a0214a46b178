import CppRag.UnsignedOptions
import CppRag.Foundation.Delimited

/-!
What a prompt of `run_ask` tells the model. The system prompt, the sources and places of the
chunks, their escaped texts and the query are read back from the bytes: two asks are sent as
one prompt exactly when they agree on all of these. A system prompt may not end its own turn,
and a source may not close its own id.
-/
namespace CppRag
open Characters Occurrences Delimited

/-! The id of a chunk. -/

theorem decimal_injective {first second : UInt64} (h : decimal first = decimal second) :
    first = second := by
  have hread := sizeValue_decimal [] first
  rw [h, sizeValue_decimal] at hread
  exact (Except.ok.inj hread).symm

theorem askId_eq (chunk : Chunk) :
    askId chunk =
      (chunk.source ++ 58 :: decimal chunk.byteBegin) ++ 45 :: decimal chunk.byteEnd := by
  have hcolon : ascii ":" = [58] := rfl
  have hdash : ascii "-" = [45] := rfl
  simp only [askId, hcolon, hdash, List.append_assoc, List.cons_append, List.nil_append]

/-- Source and places are read from the end of the id, where no source reaches. -/
theorem askId_inj {first second : Chunk} (h : askId first = askId second) :
    first.source = second.source ∧ first.byteBegin = second.byteBegin ∧
      first.byteEnd = second.byteEnd := by
  rw [askId_eq, askId_eq] at h
  obtain ⟨hfront, hend⟩ := unique_last (byte_notMem_decimal (by decide) _)
    (byte_notMem_decimal (by decide) _) h
  obtain ⟨hsource, hbegin⟩ := unique_last (byte_notMem_decimal (by decide) _)
    (byte_notMem_decimal (by decide) _) hfront
  exact ⟨hsource, decimal_injective hbegin, decimal_injective hend⟩

/-! One block. -/

/-- What ends the id of a block and opens its text. -/
def idEnd : Bytes := kChunkSuffix ++ kContextBegin

/-- No system prompt ends its turn and no source ends its id. -/
structure KeepsDelimiters (systemPrompt : Bytes) (chunks : List Chunk) : Prop where
  system : ¬kChatEnd <:+: systemPrompt
  sources : ∀ chunk ∈ chunks, ¬idEnd <:+: chunk.source

theorem endsAt_system {systemPrompt : Bytes} (h : ¬kChatEnd <:+: systemPrompt) :
    EndsAt kChatEnd systemPrompt := endsAt_of_head (by decide) h

theorem endsAt_id {chunk : Chunk} (h : ¬idEnd <:+: chunk.source) :
    EndsAt idEnd (askId chunk) := by
  refine endsAt_of_head (by decide) ?_
  have hbracket : (93 : UInt8) ∉ decimal chunk.byteBegin ++ 45 :: decimal chunk.byteEnd := by
    rw [List.mem_append, List.mem_cons, not_or, not_or]
    exact ⟨byte_notMem_decimal (by decide) _, by decide, byte_notMem_decimal (by decide) _⟩
  change ¬idEnd <:+: askId chunk
  rw [askId_eq, List.append_assoc, List.cons_append, infix_separator_iff (by decide) (by decide),
    not_or]
  exact ⟨h, fun hinside => hbracket (hinside.subset (by decide))⟩

theorem endsAt_text (text : Bytes) : EndsAt kContextEnd (escapeText text) := by
  refine endsAt_of_head (by decide) fun hinside => ?_
  exact structural_endMarker.not_infix (plain_escapeText text)
    ((List.suffix_cons newline endMarker).isInfix.trans hinside)

/-- What a block shows of a chunk. -/
def shown (chunk : Chunk) : Bytes × UInt64 × UInt64 × Bytes :=
  (chunk.source, chunk.byteBegin, chunk.byteEnd, escapeText chunk.text)

theorem shown_eq_iff (first second : Chunk) : shown first = shown second ↔
    askId first = askId second ∧ escapeText first.text = escapeText second.text := by
  constructor
  · intro h
    obtain ⟨hsource, hrest⟩ := Prod.mk.inj h
    obtain ⟨hbegin, hrest⟩ := Prod.mk.inj hrest
    obtain ⟨hend, htext⟩ := Prod.mk.inj hrest
    rw [askId, askId, hsource, hbegin, hend]
    exact ⟨rfl, htext⟩
  · rintro ⟨hid, htext⟩
    obtain ⟨hsource, hbegin, hend⟩ := askId_inj hid
    rw [shown, shown, hsource, hbegin, hend, htext]

theorem block_append (chunk : Chunk) (rest : Bytes) :
    chunkBlock ⟨askId chunk, chunk.text⟩ ++ rest =
      kChunkPrefix ++ (askId chunk ++ (idEnd ++ (escapeText chunk.text ++
        (kContextEnd ++ (kSectionBreak ++ rest))))) := by
  simp only [chunkBlock, idEnd, List.append_assoc]

/-- A block is read from its front, whatever follows it. -/
theorem block_read {first second : Chunk} {rest rest' : Bytes}
    (hfirst : ¬idEnd <:+: first.source) (hsecond : ¬idEnd <:+: second.source)
    (h : chunkBlock ⟨askId first, first.text⟩ ++ rest =
      chunkBlock ⟨askId second, second.text⟩ ++ rest') :
    shown first = shown second ∧ rest = rest' := by
  rw [block_append, block_append] at h
  obtain ⟨hid, hafter⟩ := (endsAt_id hfirst).unique (endsAt_id hsecond)
    (List.append_cancel_left h)
  obtain ⟨htext, hlater⟩ := (endsAt_text _).unique (endsAt_text _) hafter
  exact ⟨(shown_eq_iff first second).mpr ⟨hid, htext⟩, List.append_cancel_left hlater⟩

/-! All blocks. -/

def blocks (chunks : List Chunk) : Bytes := (askChunks chunks).flatMap chunkBlock

theorem blocks_cons (chunk : Chunk) (chunks : List Chunk) :
    blocks (chunk :: chunks) = chunkBlock ⟨askId chunk, chunk.text⟩ ++ blocks chunks := rfl

theorem assemble_blocks (chunks : List Chunk) (query : Bytes) :
    assemble [] (askChunks chunks) query =
      kContextHeaderPlain ++ (blocks chunks ++ (kQueryHeader ++ query)) := by
  rw [assemble, blocks]
  simp only [systemSection, contextHeader, List.isEmpty_nil, if_true, List.nil_append,
    List.append_assoc]

/-- A block does not begin as the query does. -/
theorem block_ne_query (chunk : Chunk) (rest query : Bytes) :
    chunkBlock ⟨askId chunk, chunk.text⟩ ++ rest ≠ kQueryHeader ++ query := by
  intro h
  rw [block_append] at h
  have hsecond := congrArg (fun bytes => bytes[1]?) h
  simp only [List.getElem?_append_left (show 1 < kChunkPrefix.length by decide),
    List.getElem?_append_left (show 1 < kQueryHeader.length by decide)] at hsecond
  exact absurd hsecond (by decide)

/-- The blocks and the query behind them; by induction on the chunks of one ask. -/
theorem blocks_read {chunks chunks' : List Chunk} {query query' : Bytes}
    (hsources : ∀ chunk ∈ chunks, ¬idEnd <:+: chunk.source)
    (hsources' : ∀ chunk ∈ chunks', ¬idEnd <:+: chunk.source)
    (h : blocks chunks ++ (kQueryHeader ++ query) = blocks chunks' ++ (kQueryHeader ++ query')) :
    chunks.map shown = chunks'.map shown ∧ query = query' := by
  induction chunks generalizing chunks' with
  | nil =>
      cases chunks' with
      | nil => exact ⟨rfl, List.append_cancel_left h⟩
      | cons second chunks' =>
          rw [blocks_cons, List.append_assoc] at h
          exact absurd h.symm (block_ne_query second _ query)
  | cons first chunks ih =>
      cases chunks' with
      | nil =>
          rw [blocks_cons, List.append_assoc] at h
          exact absurd h (block_ne_query first _ query')
      | cons second chunks' =>
          rw [blocks_cons, blocks_cons, List.append_assoc, List.append_assoc] at h
          rw [List.forall_mem_cons] at hsources hsources'
          obtain ⟨hshown, hrest⟩ := block_read hsources.1 hsources'.1 h
          obtain ⟨hchunks, hquery⟩ := ih hsources.2 hsources'.2 hrest
          exact ⟨by rw [List.map_cons, List.map_cons, hshown, hchunks], hquery⟩

theorem blocks_congr {chunks chunks' : List Chunk} (h : chunks.map shown = chunks'.map shown) :
    blocks chunks = blocks chunks' := by
  induction chunks generalizing chunks' with
  | nil =>
      cases chunks' with
      | nil => rfl
      | cons second chunks' => cases h
  | cons first chunks ih =>
      cases chunks' with
      | nil => cases h
      | cons second chunks' =>
          obtain ⟨hshown, hrest⟩ := List.cons.inj h
          obtain ⟨hid, htext⟩ := (shown_eq_iff first second).mp hshown
          rw [blocks_cons, blocks_cons, chunkBlock, chunkBlock, hid, htext, ih hrest]

/-! The prompt. -/

/-- Both size checks are about the bytes that are appended. -/
theorem askPrompt_congr {systemPrompt : Bytes} {chunks chunks' : List Chunk}
    {query query' : Bytes}
    (h : assemble [] (askChunks chunks) query = assemble [] (askChunks chunks') query') :
    askPrompt systemPrompt chunks query = askPrompt systemPrompt chunks' query' := by
  have hrag : ∀ chunks query, buildRagPrompt [] chunks query 0 =
      if (assemble [] chunks query).length ≤ maxSize then .ok (assemble [] chunks query)
      else .error tooLarge := by
    intro chunks query
    rw [buildRagPrompt, fitChunks, if_pos rfl]
    simp only [pure_bind, List.take_length, requiredSize_eq]
    split <;> rfl
  rw [askPrompt, askPrompt, hrag, hrag, h]

/-- Two user turns between the turn delimiters. -/
theorem turns_read {systemPrompt systemPrompt' userText userText' : Bytes}
    (hsystem : ¬kChatEnd <:+: systemPrompt) (hsystem' : ¬kChatEnd <:+: systemPrompt')
    (h : systemTurn systemPrompt ++ userTurn userText ++ (kChatStart ++ kChatAssistantRole) =
      systemTurn systemPrompt' ++ userTurn userText' ++ (kChatStart ++ kChatAssistantRole)) :
    systemPrompt = systemPrompt' ∧ userText = userText' := by
  have hturns := List.append_cancel_right h
  simp only [systemTurn, userTurn, List.append_assoc] at hturns
  obtain ⟨hprompt, hafter⟩ := (endsAt_system hsystem).unique (endsAt_system hsystem')
    (List.append_cancel_left (List.append_cancel_left hturns))
  have huser := List.append_cancel_left (List.append_cancel_left (List.append_cancel_left hafter))
  exact ⟨hprompt, List.append_cancel_right huser⟩

/-- Another ask has the same prompt exactly when it has the same system prompt and query and
its chunks show the same. -/
theorem askPrompt_exact (systemPrompt systemPrompt' : Bytes) (chunks chunks' : List Chunk)
    (query query' prompt : Bytes) (hkeeps : KeepsDelimiters systemPrompt chunks)
    (hkeeps' : KeepsDelimiters systemPrompt' chunks')
    (hprompt : askPrompt systemPrompt chunks query = .ok prompt) :
    askPrompt systemPrompt' chunks' query' = .ok prompt ↔
      systemPrompt = systemPrompt' ∧ chunks.map shown = chunks'.map shown ∧ query = query' := by
  constructor
  · intro hprompt'
    obtain ⟨userText, -, htext, rfl⟩ := askPrompt_ok hprompt
    obtain ⟨userText', -, htext', hsame⟩ := askPrompt_ok hprompt'
    obtain ⟨hsystem, huser⟩ := turns_read hkeeps.system hkeeps'.system hsame
    rw [htext, htext', assemble_blocks, assemble_blocks] at huser
    obtain ⟨hchunks, hquery⟩ := blocks_read hkeeps.sources hkeeps'.sources
      (List.append_cancel_left huser)
    exact ⟨hsystem, hchunks, hquery⟩
  · rintro ⟨rfl, hchunks, rfl⟩
    rw [← hprompt]
    refine askPrompt_congr ?_
    rw [assemble_blocks, assemble_blocks, blocks_congr hchunks]

/-- The escaping loses where a document had the space itself. -/
theorem askPrompt_exact_space :
    ∃ prompt, askPrompt (ascii "s") [⟨ascii "a.md", ascii "<<", 0, 2, 0, 0⟩] (ascii "q") =
        .ok prompt ∧
      askPrompt (ascii "s") [⟨ascii "a.md", ascii "< <", 0, 2, 1, 7⟩] (ascii "q") =
        .ok prompt := by
  have hkeeps : ∀ text index total,
      KeepsDelimiters (ascii "s") [⟨ascii "a.md", text, 0, 2, index, total⟩] :=
    fun _ _ _ => ⟨by decide,
      List.forall_mem_singleton.mpr (show ¬idEnd <:+: ascii "a.md" by decide)⟩
  have hprompt : askPrompt (ascii "s") [⟨ascii "a.md", ascii "<<", 0, 2, 0, 0⟩] (ascii "q") =
      .ok (samplePrompt ⟨ascii "a.md", ascii "<<", 0, 2, 0, 0⟩) := by decide +kernel
  refine ⟨_, hprompt, ?_⟩
  exact (askPrompt_exact _ _ _ _ _ _ _ (hkeeps _ _ _) (hkeeps _ _ _) hprompt).mpr
    ⟨rfl, by decide, rfl⟩

end CppRag
