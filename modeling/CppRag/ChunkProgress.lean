import CppRag.ChunkCoverage

/-!
The loop of `chunk_text` always makes progress, for every byte string: each chunk is a cut
of the window it begins, the next one begins where the overlap of that cut is snapped to,
and this is always further on.
-/
namespace CppRag
open Observed Slice

theorem returns_chunkText (text : StringView) (source : Bytes) {options : ChunkOptions}
    (haccepted : options.Accepted) {steps : Nat} (hsteps : text.bytes.length ≤ steps) :
    ∃ spans, Returns (Access.Exact text.bytes.length) (chunkText text source options steps)
        (some (spans.map (chunkOf text.bytes source options))) ∧
      Spans text.bytes options.maxBytes.toNat options.overlapBytes.toNat 0 spans := by
  obtain ⟨spans, hreturns, hspans⟩ :=
    returns_chunkFrom text source haccepted steps 0 (Nat.zero_le _)
      (Nat.le_trans hsteps (Nat.le_add_left _ _))
  refine ⟨spans, ?_, hspans⟩
  exact returns_bind (returns_failIf haccepted.max_ok)
    (returns_bind (returns_failIf haccepted.overlap_ok) hreturns)

section Spans
variable {text : Bytes} {maxBytes overlap : Nat}

theorem Spans.cuts {begin : Nat} {spans : List (Nat × Nat)}
    (h : Spans text maxBytes overlap begin spans) :
    ∀ span ∈ spans, span.1 < text.length ∧ Cut text maxBytes span.1 span.2 := by
  induction h with
  | past => exact fun span hspan => by cases hspan
  | last hbegin hcut =>
      intro span hspan
      cases List.mem_singleton.mp hspan
      exact ⟨hbegin, hcut⟩
  | more hbegin hcut _ _ _ ih =>
      intro span hspan
      rcases List.mem_cons.mp hspan with rfl | hspan
      · exact ⟨hbegin, hcut⟩
      · exact ih span hspan

/-- How a chunk follows the one before it. -/
structure Follows (text : Bytes) (maxBytes overlap : Nat) (earlier later : Nat × Nat) : Prop where
  begin_lt : earlier.1 < text.length
  cut : Cut text maxBytes earlier.1 earlier.2
  inside : earlier.2 < text.length
  next : NextBoundary text (overlapStart overlap earlier.1 earlier.2) later.1
  later_lt : later.1 < text.length
  later_cut : Cut text maxBytes later.1 later.2

theorem Spans.follows {begin : Nat} {spans : List (Nat × Nat)}
    (h : Spans text maxBytes overlap begin spans) :
    spans.IsChain (Follows text maxBytes overlap) := by
  induction h with
  | past => exact List.IsChain.nil
  | last => exact List.isChain_singleton _
  | @more begin cut next spans hbegin hcut hinside hnext hspans ih =>
      cases hspans with
      | past => exact List.isChain_singleton _
      | last hlater hcut' =>
          exact List.isChain_cons_cons.mpr
            ⟨⟨hbegin, hcut, hinside, hnext, hlater, hcut'⟩, ih⟩
      | more hlater hcut' =>
          exact List.isChain_cons_cons.mpr
            ⟨⟨hbegin, hcut, hinside, hnext, hlater, hcut'⟩, ih⟩

theorem Follows.begin_lt_begin {earlier later : Nat × Nat}
    (h : Follows text maxBytes overlap earlier later) (hmax : 0 < maxBytes) :
    earlier.1 < later.1 :=
  Nat.lt_of_lt_of_le (lt_overlapStart overlap (h.cut.lt hmax h.begin_lt)) h.next.le

/-- Each chunk begins at a byte of its own. -/
theorem Spans.length_le (hmax : 0 < maxBytes) {begin : Nat} {spans : List (Nat × Nat)}
    (h : Spans text maxBytes overlap begin spans) (hbegin : begin ≤ text.length) :
    spans.length ≤ text.length - begin := by
  induction h with
  | past => exact Nat.zero_le _
  | last hinside =>
      rw [List.length_singleton]
      omega
  | more hinside hcut _ hnext _ ih =>
      have hlater := lt_overlapStart overlap (hcut.lt hmax hinside)
      have hle := hnext.le
      have htail := ih hnext.le_length
      rw [List.length_cons]
      omega

end Spans

/-- What the chunks of a text say about its ranges. -/
theorem chunkText_ranges (text : StringView) (source : Bytes) {options : ChunkOptions}
    (haccepted : options.Accepted) :
    ∃ chunks,
      (∀ steps, text.bytes.length ≤ steps →
        Returns (Access.Exact text.bytes.length) (chunkText text source options steps)
          (some chunks)) ∧
      Spans text.bytes options.maxBytes.toNat options.overlapBytes.toNat 0
        (chunks.map Chunk.range) ∧
      ∀ chunk ∈ chunks, chunk = chunkOf text.bytes source options chunk.range := by
  have hmax := haccepted.max_pos
  obtain ⟨spans, -, hspans⟩ := returns_chunkText text source haccepted (Nat.le_refl _)
  have hbounds := hspans.bounds hmax
  refine ⟨spans.map (chunkOf text.bytes source options), fun steps hsteps => ?_, ?_, ?_⟩
  · obtain ⟨spans', hreturns, hspans'⟩ := returns_chunkText text source haccepted hsteps
    rw [hspans.unique hspans']
    exact hreturns
  · rwa [map_range_chunkOf text.bytes text.length_lt source options hbounds]
  · intro chunk hchunk
    obtain ⟨span, hspan, rfl⟩ := List.mem_map.mp hchunk
    rw [range_chunkOf text.bytes text.length_lt source options (hbounds span hspan)]

theorem chunk_text_eq {text source : Bytes} {options : ChunkOptions} {chunk : Chunk}
    (h : chunk = chunkOf text source options chunk.range) :
    chunk.text =
      slice text chunk.byteBegin.toNat (chunk.byteEnd.toNat - chunk.byteBegin.toNat) :=
  congrArg Chunk.text h

/-- For every byte string and all accepted options the loop ends, its reads and its
arithmetic are exact, no chunk is empty or larger than allowed, each begins after the one
before it, and there are no more chunks than bytes. -/
theorem chunkText_progress (text : StringView) (source : Bytes) (options : ChunkOptions)
    (haccepted : options.Accepted) :
    ∃ chunks,
      (∀ steps, text.bytes.length ≤ steps →
        (chunkText text source options steps).result = .ok (some chunks) ∧
        ∀ access ∈ (chunkText text source options steps).events,
          access.Exact text.bytes.length) ∧
      (∀ chunk ∈ chunks, chunk.byteBegin < chunk.byteEnd ∧
        chunk.byteEnd.toNat ≤ chunk.byteBegin.toNat + options.maxBytes.toNat ∧
        chunk.byteEnd.toNat ≤ text.bytes.length ∧
        chunk.text.length = chunk.byteEnd.toNat - chunk.byteBegin.toNat) ∧
      (chunks.IsChain fun earlier later => earlier.byteBegin < later.byteBegin) ∧
      chunks.length ≤ text.bytes.length := by
  have hmax := haccepted.max_pos
  obtain ⟨chunks, hreturns, hspans, hchunks⟩ := chunkText_ranges text source haccepted
  refine ⟨chunks, fun steps hsteps => ⟨(hreturns steps hsteps).2, (hreturns steps hsteps).1⟩,
    fun chunk hchunk => ?_, ?_, ?_⟩
  · obtain ⟨hinside, hcut⟩ := hspans.cuts _ (List.mem_map_of_mem hchunk)
    have hle : chunk.byteEnd.toNat ≤ text.bytes.length := hcut.le_length
    have hlt : chunk.byteBegin.toNat < chunk.byteEnd.toNat := hcut.lt hmax hinside
    refine ⟨UInt64.lt_iff_toNat_lt.mpr hlt, hcut.le_window, hle, ?_⟩
    rw [chunk_text_eq (hchunks chunk hchunk)]
    exact length_slice _ (by omega)
  · have hchain := hspans.follows
    rw [List.isChain_map] at hchain
    exact hchain.imp fun earlier later h => UInt64.lt_iff_toNat_lt.mpr (h.begin_lt_begin hmax)
  · have hcount := hspans.length_le hmax (Nat.zero_le _)
    rwa [List.length_map] at hcount

/-- A stray continuation byte on both sides of a space. -/
def strayText : StringView := ⟨[0x80, 32, 0x80], by decide⟩

theorem chunkText_progress_stray :
    ∃ chunks, (chunkText strayText [] ⟨2, 1⟩ 3).result = .ok (some chunks) ∧
      chunks.length ≤ 3 := by
  obtain ⟨chunks, hreturns, -, -, hcount⟩ :=
    chunkText_progress strayText [] ⟨2, 1⟩ ⟨by decide, by decide⟩
  exact ⟨chunks, (hreturns 3 (Nat.le_refl _)).1, hcount⟩

end CppRag
