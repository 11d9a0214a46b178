import CppRag.ChunkProgress

/-!
Chunks of well-formed UTF-8. When every code point fits in a chunk, each chunk is a run of
whole code points, and the overlap of two neighbours is the requested one up to the bytes
the snap to a boundary gives up.
-/
namespace CppRag
open Observed Slice Utf8

theorem continuationAt_iff (text : Bytes) (i : Nat) :
    ContinuationAt text i ↔ ContinuesAt text i := by
  rw [ContinuationAt, ContinuesAt, List.getD_eq_getElem?_getD]
  cases text[i]? with
  | none => exact iff_of_false (by decide) (by rintro ⟨value, hvalue, -⟩; cases hvalue)
  | some value =>
      simp only [Option.getD_some, Option.mem_some_iff, exists_eq_left']
      exact decide_eq_true_iff

theorem isSpace_ascii (value : UInt8) (h : isSpace value = true) : value &&& 0x80 = 0 :=
  forall_byte (p := fun value => isSpace value = true → value &&& 0x80 = 0) (by decide +kernel)
    value h

theorem SpaceAt.getElem? {text : Bytes} {i : Nat} (h : SpaceAt text i) :
    ∃ value, text[i]? = some value ∧ value &&& 0x80 = 0 := by
  rw [SpaceAt, List.getD_eq_getElem?_getD] at h
  cases hbyte : text[i]? with
  | none =>
      rw [hbyte] at h
      exact absurd h (by decide)
  | some value =>
      rw [hbyte] at h
      exact ⟨value, rfl, isSpace_ascii value h⟩

section Boundaries
variable {chars : List Char} {maxBytes overlap : Nat}

theorem boundary_iff {i : Nat} (hle : i ≤ (encodeChars chars).length) :
    Boundary chars i ↔ ¬ContinuationAt (encodeChars chars) i := by
  rw [continuationAt_iff]
  exact ⟨Boundary.not_continuesAt, boundary_of_not_continuesAt hle⟩

theorem boundary_length (chars : List Char) : Boundary chars (encodeChars chars).length :=
  ⟨chars, [], (List.append_nil _).symm, rfl⟩

/-- A chunk that begins at a boundary ends at one. -/
theorem Cut.boundary_of_boundary {begin cut : Nat}
    (h : Cut (encodeChars chars) maxBytes begin cut) (hmax : 0 < maxBytes)
    (hbegin : Boundary chars begin) (hfits : ∀ c ∈ chars, c.utf8Size ≤ maxBytes) :
    Boundary chars cut := by
  have hle := h.le_length
  cases h with
  | rest => exact boundary_length chars
  | space _ _ hhalf _ hspace =>
      obtain ⟨value, hvalue, hascii⟩ := hspace.getElem?
      have hafter := boundary_after_ascii hvalue hascii
      rwa [show cut - 1 + 1 = cut by omega] at hafter
  | boundary _ hlast hinside => exact (boundary_iff hle).mpr (hlast.stops hinside)
  | hard hwindow hlast =>
      obtain ⟨next, hafter, hwithin, hnext⟩ := hbegin.exists_next (by omega) hfits
      have hcontinuation := (continuationAt_iff _ _).mp (hlast.skipped next hafter hwithin)
      exact absurd hcontinuation hnext.not_continuesAt

theorem Spans.boundaries (hmax : 0 < maxBytes) (hfits : ∀ c ∈ chars, c.utf8Size ≤ maxBytes)
    {begin : Nat} {spans : List (Nat × Nat)}
    (h : Spans (encodeChars chars) maxBytes overlap begin spans) (hbegin : Boundary chars begin) :
    ∀ span ∈ spans, Boundary chars span.1 ∧ Boundary chars span.2 := by
  induction h with
  | past => exact fun span hspan => by cases hspan
  | last =>
      intro span hspan
      cases List.mem_singleton.mp hspan
      exact ⟨hbegin, boundary_length chars⟩
  | more _ hcut _ hnext _ ih =>
      have hlater := (boundary_iff hnext.le_length).mpr hnext.stops
      intro span hspan
      rcases List.mem_cons.mp hspan with rfl | hspan
      · exact ⟨hbegin, hcut.boundary_of_boundary hmax hbegin hfits⟩
      · exact ih hlater span hspan

/-- The snap skips at most three bytes. -/
theorem NextBoundary.le_add_three {position boundary : Nat}
    (h : NextBoundary (encodeChars chars) position boundary) : boundary ≤ position + 3 := by
  obtain ⟨next, hle, hwithin, hnext⟩ :=
    exists_boundary_within chars (Nat.le_trans h.le h.le_length)
  have hstops := hnext.not_continuesAt
  rw [← continuationAt_iff] at hstops
  exact Nat.le_trans (h.le_of_not_continuationAt hle hstops) hwithin

end Boundaries

/-- A chunk of whole code points, cut out between two of them. -/
def WholeCodePoints (chars : List Char) (chunk : Chunk) : Prop :=
  ∃ before middle after, chars = before ++ (middle ++ after) ∧
    chunk.byteBegin.toNat = (encodeChars before).length ∧
    chunk.byteEnd.toNat = (encodeChars (before ++ middle)).length ∧
    chunk.text = encodeChars middle

/-- The bytes two neighbouring chunks share: what was asked for, as far as the first chunk
can carry it, less up to three. -/
structure OverlapKept (overlap : Nat) (first second : Chunk) : Prop where
  begin_le : second.byteBegin ≤ first.byteEnd
  at_most : first.byteEnd.toNat - second.byteBegin.toNat ≤ min overlap (first.text.length - 1)
  at_least : min overlap (first.text.length - 1) - 3 ≤
    first.byteEnd.toNat - second.byteBegin.toNat

/-- For every well-formed UTF-8 text none of whose code points is longer than a chunk, the
chunks are runs of code points and keep their overlap up to three bytes. -/
theorem chunkText_utf8 (text : StringView) (source : Bytes) (options : ChunkOptions)
    (haccepted : options.Accepted) (chars : List Char) (htext : text.bytes = encodeChars chars)
    (hfits : ∀ c ∈ chars, c.utf8Size ≤ options.maxBytes.toNat) :
    ∃ chunks,
      (∀ steps, text.bytes.length ≤ steps →
        (chunkText text source options steps).result = .ok (some chunks)) ∧
      (∀ chunk ∈ chunks, WholeCodePoints chars chunk) ∧
      chunks.IsChain (OverlapKept options.overlapBytes.toNat) := by
  have hmax := haccepted.max_pos
  obtain ⟨chunks, hreturns, hspans, hchunks⟩ := chunkText_ranges text source haccepted
  have hbounds := hspans.bounds hmax
  have hchain := hspans.follows
  have htexts : ∀ chunk ∈ chunks, chunk.text =
      slice (encodeChars chars) chunk.byteBegin.toNat
        (chunk.byteEnd.toNat - chunk.byteBegin.toNat) :=
    fun chunk hchunk => htext ▸ chunk_text_eq (hchunks chunk hchunk)
  rw [htext] at hspans hbounds hchain
  have hboundaries := hspans.boundaries hmax hfits ⟨[], chars, rfl, rfl⟩
  refine ⟨chunks, fun steps hsteps => (hreturns steps hsteps).2, fun chunk hchunk => ?_, ?_⟩
  · have hrange := List.mem_map_of_mem (f := Chunk.range) hchunk
    obtain ⟨hbegin, hend⟩ := hboundaries _ hrange
    obtain ⟨before, middle, after, hsplit, hfirst, hlast, hslice⟩ :=
      hbegin.between hend (Nat.le_of_lt (hbounds _ hrange).1)
    exact ⟨before, middle, after, hsplit, hfirst.symm, hlast.symm,
      (htexts chunk hchunk).trans hslice⟩
  · rw [List.isChain_map] at hchain
    refine hchain.imp_of_mem_imp fun first second hfirst hsecond h => ?_
    have hrange := List.mem_map_of_mem (f := Chunk.range) hfirst
    have hinside : first.byteBegin.toNat < first.byteEnd.toNat := (hbounds _ hrange).1
    have hlength : first.text.length = first.byteEnd.toNat - first.byteBegin.toNat := by
      have hend : first.byteEnd.toNat ≤ (encodeChars chars).length := (hbounds _ hrange).2
      rw [htexts first hfirst]
      exact length_slice _ (by omega)
    have hend := (boundary_iff h.cut.le_length).mp (hboundaries _ hrange).2
    have hle : second.byteBegin.toNat ≤ first.byteEnd.toNat :=
      h.next.le_of_not_continuationAt (overlapStart_le _ _ _) hend
    have hstart : overlapStart options.overlapBytes.toNat first.byteBegin.toNat
      first.byteEnd.toNat ≤ second.byteBegin.toNat := h.next.le
    have hsnap : second.byteBegin.toNat ≤ overlapStart options.overlapBytes.toNat
      first.byteBegin.toNat first.byteEnd.toNat + 3 := h.next.le_add_three
    unfold overlapStart at hstart hsnap
    refine ⟨UInt64.le_iff_toNat_le.mpr hle, ?_, ?_⟩
    · rw [hlength]
      omega
    · rw [hlength]
      omega

theorem chunkText_utf8_mixed :
    (∀ chunk ∈ mixedChunks, WholeCodePoints
        [Char.ofNat 0x4E16, ' ', 'a', Char.ofNat 0x4E16, 'b'] chunk) ∧
      mixedChunks.IsChain (OverlapKept 2) := by
  obtain ⟨chunks, hreturns, hwhole, hchain⟩ := chunkText_utf8 mixedText [] ⟨5, 2⟩
    ⟨by decide, by decide⟩ [Char.ofNat 0x4E16, ' ', 'a', Char.ofNat 0x4E16, 'b'] (by decide)
    fun c _ => Nat.le_trans c.utf8Size_le_four (by decide)
  have hsame := chunkText_mixed.symm.trans (hreturns 9 (Nat.le_refl _))
  cases hsame
  exact ⟨hwhole, hchain⟩

end CppRag
