import CppRag.PromptBuilder
import CppRag.IndexAcceptance
import Mathlib.Data.Nat.Find

/-!
The byte budget of the retrieved-context section. The checked sums are the sizes of what
is appended, the loop takes chunks while they fit in the room left, and with a budget
that covers the header this is the longest prefix that fits. A smaller budget makes the
room wrap around.
-/
namespace CppRag

/-! Checked sums. -/

def tooLarge : Exception := .lengthError "assembled prompt is too large"

/-- `f` adds `amount` to a total, or reports that the sum exceeds a `size_t`. -/
def Adds (f : Nat → Except Exception Nat) (amount : Nat) : Prop :=
  ∀ total, total ≤ maxSize →
    f total = if total + amount ≤ maxSize then .ok (total + amount) else .error tooLarge

theorem adds_addSize (amount : Nat) : Adds (fun total => addSize total amount) amount := by
  intro total htotal
  simp only [addSize]
  by_cases h : total + amount ≤ maxSize
  · rw [if_pos h, if_neg (by omega)]
  · rw [if_neg h, if_pos (by omega)]
    rfl

theorem Adds.bind {f g : Nat → Except Exception Nat} {a b : Nat} (hf : Adds f a)
    (hg : Adds g b) : Adds (fun total => f total >>= g) (a + b) := by
  intro total htotal
  simp only [hf total htotal]
  by_cases h : total + a ≤ maxSize
  · rw [if_pos h, ← Nat.add_assoc]
    exact hg _ h
  · rw [if_neg h, if_neg (by omega)]
    rfl

theorem length_escapeText (text : Bytes) : (escapeText text).length = escapedSize text := by
  unfold escapedSize
  induction text using escapeText.induct with
  | case1 current next text hescape ih =>
      rw [escapeText, if_pos hescape, escapeCount, if_pos hescape]
      simp only [List.length_cons] at ih ⊢
      omega
  | case2 current next text hescape ih =>
      rw [escapeText, if_neg hescape, escapeCount, if_neg hescape]
      simp only [List.length_cons] at ih ⊢
      omega
  | case3 text hshort =>
      cases text with
      | nil => rfl
      | cons current text =>
          cases text with
          | nil => rfl
          | cons next text => exact absurd rfl (hshort current next text)

/-- The size of a chunk is the size of what is appended for it. -/
theorem chunkSize_eq (chunk : PromptChunk) : chunkSize chunk =
    if (chunkBlock chunk).length ≤ maxSize then .ok (chunkBlock chunk).length
    else .error tooLarge := by
  have hadds := (adds_addSize kChunkPrefix.length).bind <|
    (adds_addSize chunk.id.length).bind <| (adds_addSize kChunkSuffix.length).bind <|
    (adds_addSize kContextBegin.length).bind <|
    (adds_addSize (escapedSize chunk.text)).bind <|
    (adds_addSize kContextEnd.length).bind (adds_addSize kSectionBreak.length)
  have hlen : (chunkBlock chunk).length = kChunkPrefix.length + (chunk.id.length +
      (kChunkSuffix.length + (kContextBegin.length + (escapedSize chunk.text +
        (kContextEnd.length + kSectionBreak.length))))) := by
    simp only [chunkBlock, List.length_append, length_escapeText]
    omega
  rw [hlen, ← Nat.zero_add (kChunkPrefix.length + _)]
  exact hadds 0 (Nat.zero_le _)

theorem adds_addChunkSizes (chunks : List PromptChunk) :
    Adds (fun total => addChunkSizes total chunks) (chunks.flatMap chunkBlock).length := by
  induction chunks with
  | nil =>
      intro total htotal
      rw [List.flatMap_nil, List.length_nil, Nat.add_zero, if_pos htotal]
      rfl
  | cons chunk chunks ih =>
      rw [List.flatMap_cons, List.length_append]
      intro total htotal
      have hstep := (adds_addSize (chunkBlock chunk).length).bind ih total htotal
      by_cases hblock : (chunkBlock chunk).length ≤ maxSize
      · rw [← hstep]
        simp only [addChunkSizes, chunkSize_eq, if_pos hblock]
        rfl
      · rw [if_neg (by omega)]
        simp only [addChunkSizes, chunkSize_eq, if_neg hblock]
        rfl

/-- The checks before the assembly pass exactly when the prompt fits in a `size_t`. -/
theorem requiredSize_eq (systemPrompt : Bytes) (chunks : List PromptChunk)
    (userQuery : Bytes) : requiredSize systemPrompt chunks userQuery =
      if (assemble systemPrompt chunks userQuery).length ≤ maxSize then
        .ok (assemble systemPrompt chunks userQuery).length
      else .error tooLarge := by
  have hrest := (adds_addSize (contextHeader systemPrompt).length).bind <|
    (adds_addChunkSizes chunks).bind <| (adds_addSize kQueryHeader.length).bind
      (adds_addSize userQuery.length)
  have hlen : (assemble systemPrompt chunks userQuery).length =
      (systemSection systemPrompt).length + ((contextHeader systemPrompt).length +
        ((chunks.flatMap chunkBlock).length + (kQueryHeader.length + userQuery.length))) := by
    simp only [assemble, List.length_append]
    omega
  rw [hlen]
  unfold requiredSize systemSection
  by_cases hempty : systemPrompt.isEmpty = true
  · rw [if_pos hempty, if_pos hempty, List.length_nil, Nat.zero_add]
    have h := hrest 0 (Nat.zero_le _)
    rw [Nat.zero_add] at h
    exact h
  · rw [if_neg hempty, if_neg hempty, List.length_append]
    have h := ((adds_addSize kSystemHeader.length).bind
      (adds_addSize systemPrompt.length)).bind hrest 0 (Nat.zero_le _)
    rw [Nat.zero_add] at h
    exact h

/-! The loop. -/

/-- How many chunks fit one after the other in `room` bytes. -/
def fitCount (room : Nat) : List PromptChunk → Nat
  | [] => 0
  | chunk :: chunks =>
      if (chunkBlock chunk).length > room then 0
      else fitCount (room - (chunkBlock chunk).length) chunks + 1

/-- The loop takes what fits in `max_bytes - used` as the code computes it, or stops at a
chunk whose size is not a `size_t`. -/
theorem fitFrom_cases (maxBytes used : UInt64) (chunks : List PromptChunk) :
    fitFrom maxBytes used chunks = .ok (fitCount (maxBytes - used).toNat chunks) ∨
      fitFrom maxBytes used chunks = .error tooLarge ∧
        ∃ chunk ∈ chunks, maxSize < (chunkBlock chunk).length := by
  induction chunks generalizing used with
  | nil => exact .inl rfl
  | cons chunk chunks ih =>
      unfold fitFrom fitCount
      rw [chunkSize_eq]
      by_cases hsize : (chunkBlock chunk).length ≤ maxSize
      · have hnat : (UInt64.ofNat (chunkBlock chunk).length).toNat = (chunkBlock chunk).length :=
          UInt64.toNat_ofNat_of_lt' (by
            have : maxSize = 2 ^ 64 - 1 := rfl
            rw [UInt64.size]
            omega)
        rw [if_pos hsize]
        by_cases hroom : (chunkBlock chunk).length > (maxBytes - used).toNat
        · rw [if_pos hroom]
          refine .inl (if_pos ?_)
          rwa [gt_iff_lt, UInt64.lt_iff_toNat_lt, hnat]
        · have hnext : (maxBytes - (used + UInt64.ofNat (chunkBlock chunk).length)).toNat =
              (maxBytes - used).toNat - (chunkBlock chunk).length := by
            have hsub : maxBytes - (used + UInt64.ofNat (chunkBlock chunk).length) =
                maxBytes - used - UInt64.ofNat (chunkBlock chunk).length := by
              rw [UInt64.sub_eq_iff_eq_add, UInt64.add_comm used, ← UInt64.add_assoc,
                UInt64.sub_add_cancel, UInt64.sub_add_cancel]
            rw [hsub, toNat_sub_of_toNat_le (by rw [hnat]; omega), hnat]
          have hfits : ¬UInt64.ofNat (chunkBlock chunk).length > maxBytes - used := by
            rwa [gt_iff_lt, UInt64.lt_iff_toNat_lt, hnat]
          simp only [bind, Except.bind, if_neg hroom, if_neg hfits]
          rcases ih (used + UInt64.ofNat (chunkBlock chunk).length) with hok | ⟨herr, hlarge⟩
          · rw [hok, hnext]
            exact .inl rfl
          · rw [herr]
            obtain ⟨large, hmem, hlarge⟩ := hlarge
            exact .inr ⟨rfl, large, List.mem_cons_of_mem chunk hmem, hlarge⟩
      · rw [if_neg hsize]
        exact .inr ⟨rfl, chunk, List.mem_cons_self, by omega⟩

def blocksLength (count : Nat) (chunks : List PromptChunk) : Nat :=
  ((chunks.take count).flatMap chunkBlock).length

theorem blocksLength_cons (count : Nat) (chunk : PromptChunk) (chunks : List PromptChunk) :
    blocksLength (count + 1) (chunk :: chunks) =
      (chunkBlock chunk).length + blocksLength count chunks := by
  rw [blocksLength, List.take_succ_cons, List.flatMap_cons, List.length_append, blocksLength]

theorem fitCount_le_length (room : Nat) (chunks : List PromptChunk) :
    fitCount room chunks ≤ chunks.length := by
  induction chunks generalizing room with
  | nil => exact Nat.le_refl 0
  | cons chunk chunks ih =>
      unfold fitCount
      split
      · exact Nat.zero_le _
      · exact Nat.succ_le_succ (ih _)

/-- What the loop takes fits. -/
theorem blocksLength_fitCount (room : Nat) (chunks : List PromptChunk) :
    blocksLength (fitCount room chunks) chunks ≤ room := by
  induction chunks generalizing room with
  | nil => exact Nat.zero_le _
  | cons chunk chunks ih =>
      unfold fitCount
      split
      · exact Nat.zero_le _
      · have htail := ih (room - (chunkBlock chunk).length)
        rw [blocksLength_cons]
        omega

/-- Nothing longer fits. -/
theorem le_fitCount {room count : Nat} {chunks : List PromptChunk} (hcount : count ≤ chunks.length)
    (hfits : blocksLength count chunks ≤ room) : count ≤ fitCount room chunks := by
  induction chunks generalizing room count with
  | nil => exact hcount
  | cons chunk chunks ih =>
      cases count with
      | zero => exact Nat.zero_le _
      | succ count =>
          rw [blocksLength_cons] at hfits
          unfold fitCount
          rw [if_neg (by omega)]
          exact Nat.succ_le_succ (ih (Nat.le_of_succ_le_succ hcount) (by omega))

/-- The longest prefix of the chunks whose section fits in the budget, none when not even
the header fits. -/
def longestFit (maxBytes headerSize : Nat) (chunks : List PromptChunk) : Nat :=
  Nat.findGreatest (fun count => headerSize + blocksLength count chunks ≤ maxBytes)
    chunks.length

theorem longestFit_of_header_le {maxBytes headerSize : Nat} (h : headerSize ≤ maxBytes)
    (chunks : List PromptChunk) :
    longestFit maxBytes headerSize chunks = fitCount (maxBytes - headerSize) chunks := by
  rw [longestFit, Nat.findGreatest_eq_iff]
  have hfits := blocksLength_fitCount (maxBytes - headerSize) chunks
  refine ⟨fitCount_le_length _ _, fun _ => by omega, ?_⟩
  intro count hlt hle hfit
  have hmax : count ≤ fitCount (maxBytes - headerSize) chunks := le_fitCount hle (by omega)
  omega

theorem longestFit_of_header_gt {maxBytes headerSize : Nat} (h : maxBytes < headerSize)
    (chunks : List PromptChunk) : longestFit maxBytes headerSize chunks = 0 := by
  rw [longestFit, Nat.findGreatest_eq_zero_iff]
  intro count _ _
  omega

theorem chunkBlock_pos (chunk : PromptChunk) : 0 < (chunkBlock chunk).length := by
  have hsuffix : kChunkSuffix.length = 2 := rfl
  simp only [chunkBlock, List.length_append]
  omega

theorem fitCount_eq_zero_iff (room : Nat) (chunks : List PromptChunk) :
    fitCount room chunks = 0 ↔ ∀ chunk ∈ chunks.head?, room < (chunkBlock chunk).length := by
  cases chunks with
  | nil => simp [fitCount]
  | cons chunk chunks =>
      unfold fitCount
      split
      · next h => simpa using h
      · next h => simpa using h

/-- A prompt tells how many chunks it has. -/
theorem assemble_take_inj {systemPrompt userQuery : Bytes} {chunks : List PromptChunk}
    {a b : Nat} (ha : a ≤ chunks.length) (hb : b ≤ chunks.length)
    (h : assemble systemPrompt (chunks.take a) userQuery =
      assemble systemPrompt (chunks.take b) userQuery) : a = b := by
  have hlen := congrArg List.length h
  simp only [assemble, List.length_append] at hlen
  have hblocks : blocksLength a chunks = blocksLength b chunks := by
    unfold blocksLength
    omega
  clear h hlen
  induction chunks generalizing a b with
  | nil =>
      rw [List.length_nil] at ha hb
      omega
  | cons chunk chunks ih =>
      have hpos := chunkBlock_pos chunk
      cases a with
      | zero =>
          cases b with
          | zero => rfl
          | succ b =>
              rw [blocksLength_cons, blocksLength, List.take_zero, List.flatMap_nil,
                List.length_nil] at hblocks
              omega
      | succ a =>
          cases b with
          | zero =>
              rw [blocksLength_cons, blocksLength, blocksLength, List.take_zero,
                List.flatMap_nil, List.length_nil] at hblocks
              omega
          | succ b =>
              rw [blocksLength_cons, blocksLength_cons] at hblocks
              exact congrArg _ (ih (Nat.le_of_succ_le_succ ha) (Nat.le_of_succ_le_succ hb)
                (by omega))

theorem toNat_maxBytes_sub (maxBytes : UInt64) {headerSize : Nat} (h : headerSize < 2 ^ 64) :
    (maxBytes - UInt64.ofNat headerSize).toNat =
      if headerSize ≤ maxBytes.toNat then maxBytes.toNat - headerSize
      else 2 ^ 64 + maxBytes.toNat - headerSize := by
  have hheader : (UInt64.ofNat headerSize).toNat = headerSize := UInt64.toNat_ofNat_of_lt' h
  have hmax := maxBytes.toNat_lt
  rw [UInt64.toNat_sub, hheader]
  split <;> omega

theorem assemble_length_take (systemPrompt : Bytes) (chunks : List PromptChunk)
    (userQuery : Bytes) (count : Nat) :
    (assemble systemPrompt (chunks.take count) userQuery).length ≤
      (assemble systemPrompt chunks userQuery).length := by
  have hsplit := congrArg (fun cs => (cs.flatMap chunkBlock).length)
    (List.take_append_drop count chunks)
  simp only [List.flatMap_append, List.length_append] at hsplit
  simp only [assemble, List.length_append]
  omega

theorem chunkBlock_length_le (systemPrompt userQuery : Bytes) {chunks : List PromptChunk}
    {chunk : PromptChunk} (h : chunk ∈ chunks) :
    (chunkBlock chunk).length ≤ (assemble systemPrompt chunks userQuery).length := by
  obtain ⟨before, after, rfl⟩ := List.append_of_mem h
  simp only [assemble, List.flatMap_append, List.flatMap_cons, List.length_append]
  omega

theorem contextHeader_length_le (systemPrompt : Bytes) :
    (contextHeader systemPrompt).length ≤ 22 := by
  unfold contextHeader
  split <;> decide

/-- The loop takes the longest prefix that fits unless its room wraps around. -/
theorem fitCount_eq_longestFit_iff (maxBytes : UInt64) {headerSize : Nat}
    (hheader : headerSize < 2 ^ 64) (chunks : List PromptChunk) :
    fitCount (maxBytes - UInt64.ofNat headerSize).toNat chunks =
        longestFit maxBytes.toNat headerSize chunks ↔
      headerSize ≤ maxBytes.toNat ∨
        ∀ chunk ∈ chunks.head?,
          2 ^ 64 + maxBytes.toNat - headerSize < (chunkBlock chunk).length := by
  rw [toNat_maxBytes_sub maxBytes hheader]
  by_cases hcovers : headerSize ≤ maxBytes.toNat
  · rw [if_pos hcovers, longestFit_of_header_le hcovers]
    exact iff_of_true rfl (.inl hcovers)
  · rw [if_neg hcovers, longestFit_of_header_gt (Nat.not_le.mp hcovers), fitCount_eq_zero_iff]
    exact (or_iff_right hcovers).symm

/-- A prompt is returned and includes exactly the longest prefix that fits just when the
budget covers the header, or the first chunk does not even fit in the wrapped room;
otherwise the prompt of all chunks exceeds a `size_t` and is refused. -/
theorem prompt_budget_iff (systemPrompt : Bytes) (chunks : List PromptChunk)
    (userQuery : Bytes) (maxBytes : UInt64) (hmax : maxBytes ≠ 0) :
    (∃ prompt, buildRagPrompt systemPrompt chunks userQuery maxBytes = .ok prompt ∧
      (prompt = assemble systemPrompt (chunks.take (longestFit maxBytes.toNat
          (contextHeader systemPrompt).length chunks)) userQuery ↔
        (contextHeader systemPrompt).length ≤ maxBytes.toNat ∨
          ∀ chunk ∈ chunks.head?, 2 ^ 64 + maxBytes.toNat - (contextHeader systemPrompt).length <
            (chunkBlock chunk).length)) ∨
    (buildRagPrompt systemPrompt chunks userQuery maxBytes =
        .error (.lengthError "assembled prompt is too large") ∧
      2 ^ 64 ≤ (assemble systemPrompt chunks userQuery).length) := by
  have hheader := contextHeader_length_le systemPrompt
  have hsize : maxSize = 2 ^ 64 - 1 := rfl
  unfold buildRagPrompt fitChunks
  rw [if_neg hmax]
  rcases fitFrom_cases maxBytes (UInt64.ofNat (contextHeader systemPrompt).length) chunks with
    hok | ⟨herr, large, hmem, hlarge⟩
  · rw [hok]
    generalize hincluded : fitCount (maxBytes -
      UInt64.ofNat (contextHeader systemPrompt).length).toNat chunks = included at hok
    have hle : included ≤ chunks.length := by
      rw [← hincluded]
      exact fitCount_le_length _ _
    simp only [bind, Except.bind, requiredSize_eq]
    by_cases hfits : (assemble systemPrompt (chunks.take included) userQuery).length ≤ maxSize
    · rw [if_pos hfits]
      refine .inl ⟨_, rfl, ?_⟩
      have hlongest : longestFit maxBytes.toNat (contextHeader systemPrompt).length chunks ≤
          chunks.length := Nat.findGreatest_le _
      have hiff : assemble systemPrompt (chunks.take included) userQuery =
          assemble systemPrompt (chunks.take (longestFit maxBytes.toNat
            (contextHeader systemPrompt).length chunks)) userQuery ↔
          included = longestFit maxBytes.toNat (contextHeader systemPrompt).length chunks :=
        ⟨assemble_take_inj hle hlongest, fun h => by rw [h]⟩
      rw [hiff, ← hincluded]
      exact fitCount_eq_longestFit_iff maxBytes (by omega) chunks
    · rw [if_neg hfits]
      have hmono := assemble_length_take systemPrompt chunks userQuery included
      exact .inr ⟨rfl, by omega⟩
  · rw [herr]
    have hblock := chunkBlock_length_le systemPrompt userQuery hmem
    exact .inr ⟨rfl, by omega⟩

/-- A budget of 100 bytes leaves room for one small chunk. -/
theorem prompt_budget_small :
    ∃ prompt, buildRagPrompt [] [⟨ascii "a", ascii "b"⟩] (ascii "q") 100 = .ok prompt ∧
      prompt = assemble [] [⟨ascii "a", ascii "b"⟩] (ascii "q") := by
  rcases prompt_budget_iff [] [⟨ascii "a", ascii "b"⟩] (ascii "q") 100 (by decide) with
    ⟨prompt, hok, hiff⟩ | ⟨-, hlarge⟩
  · exact ⟨prompt, hok, hiff.mpr (.inl (by decide))⟩
  · exact absurd hlarge (by decide +kernel)

/-- Five bytes do not cover the header, yet the wrapped room takes the chunk. -/
theorem prompt_exceeds_budget :
    ¬ ∀ (systemPrompt : Bytes) (chunks : List PromptChunk) (userQuery : Bytes)
      (maxBytes : UInt64), maxBytes ≠ 0 → ∀ prompt,
        buildRagPrompt systemPrompt chunks userQuery maxBytes = .ok prompt →
          prompt = assemble systemPrompt (chunks.take (longestFit maxBytes.toNat
            (contextHeader systemPrompt).length chunks)) userQuery := by
  intro h
  have hprompt := h [] [⟨ascii "a", ascii "b"⟩] (ascii "q") 5 (by decide)
    (assemble [] [⟨ascii "a", ascii "b"⟩] (ascii "q")) (by rfl)
  exact absurd hprompt (by decide)

end CppRag
