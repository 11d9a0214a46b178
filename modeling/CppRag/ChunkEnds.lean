import CppRag.ChunkRule

/-!
When a chunk holds a byte its predecessor does not. Ends never go back, but the search for
whitespace starts in the middle of the new window, and with a large overlap that is still
before the previous end: a chunk then ends where its predecessor did, as one of its suffixes.
-/
namespace CppRag
open Observed Slice

variable {text : Bytes} {maxBytes overlap : Nat}

/-- The chunk that begins at `next` can be cut after `cut`: it begins there, its window
reaches the end of the text, or the window has a boundary after `cut` and, when there is a
whitespace just before `cut` that the search reaches, another whitespace after it. -/
def CutsLater (text : Bytes) (maxBytes next cut : Nat) : Prop :=
  cut ≤ next ∨ text.length ≤ next + maxBytes ∨
    ∃ m, WindowEnd text next (next + maxBytes) m ∧ cut < m ∧
      (next + maxBytes / 2 < cut → SpaceAt text (cut - 1) →
        (spacesIn text cut m).Nonempty)

section Follows
variable {earlier later : Nat × Nat} (h : Follows text maxBytes overlap earlier later)
include h

/-- The last boundary of the next window is not before the end of the chunk. -/
theorem Follows.cut_le_boundary (hmax : 0 < maxBytes) (hinside : later.1 < earlier.2)
    {boundary : Nat}
    (hlast : LastBoundary text later.1 (later.1 + maxBytes) boundary) :
    earlier.2 ≤ boundary := by
  have hlater := h.begin_lt_begin hmax
  have hstops := h.next.stops
  have hlimit : earlier.1 + maxBytes ≤ later.1 + maxBytes := by omega
  have hreach := h.cut.le_window
  have hcut := h.cut
  generalize hend : earlier.2 = cut at hcut hinside hreach
  cases hcut with
  | rest => exact absurd h.inside (by omega)
  | space _ hfirst _ hle => exact Nat.le_trans hle (hfirst.mono hlast (by omega) hlimit)
  | boundary _ hfirst hbegin => exact hfirst.mono hlast hbegin hlimit
  | hard _ hfirst => exact absurd (hfirst.skipped later.1 hlater (by omega)) hstops

theorem Follows.end_le (hmax : 0 < maxBytes) : earlier.2 ≤ later.2 := by
  by_cases hpast : earlier.2 ≤ later.1
  · exact Nat.le_trans hpast (Nat.le_of_lt (h.later_cut.lt hmax h.later_lt))
  · exact h.cut.mono (h.begin_lt_begin hmax) (Nat.le_of_lt (Nat.not_le.mp hpast)) h.next.stops
      h.later_cut

/-- A chunk ends after its predecessor exactly when its window can be cut later. -/
theorem Follows.end_lt_iff (hmax : 0 < maxBytes) :
    earlier.2 < later.2 ↔ CutsLater text maxBytes later.1 earlier.2 := by
  by_cases hpast : earlier.2 ≤ later.1
  · exact iff_of_true (Nat.lt_of_le_of_lt hpast (h.later_cut.lt hmax h.later_lt)) (.inl hpast)
  have hinside := Nat.not_le.mp hpast
  have hle := h.end_le hmax
  have hcut := h.later_cut
  have hboundary : ∀ m, LastBoundary text later.1 (later.1 + maxBytes) m → earlier.2 ≤ m :=
    fun m => h.cut_le_boundary hmax hinside
  generalize later.2 = cut at hcut hle
  cases hcut with
  | rest hreach => exact iff_of_true h.inside (.inr (.inl hreach))
  | @space boundary cut hwindow hlast hhalf hwithin hspace hnone =>
      have hend := hlast.windowEnd (by omega)
      constructor
      · intro hlt
        refine .inr (.inr ⟨boundary, hend, by omega, fun _ _ => ⟨cut - 1, ?_, ?_, hspace⟩⟩)
        · omega
        · omega
      · rintro (hstart | hreach | ⟨m, hm, hlt, hmore⟩)
        · exact absurd hstart hpast
        · omega
        · refine Nat.lt_of_le_of_ne hle fun hsame => ?_
          rw [hm.unique hend] at hmore
          rw [← hsame] at hhalf hspace hnone
          obtain ⟨p, hp, hbefore, hat⟩ := hmore hhalf hspace
          exact hnone (p + 1) (by omega) hbefore hat
  | boundary hwindow hlast hbegin hnone =>
      have hend := hlast.windowEnd hbegin
      constructor
      · intro hlt
        exact .inr (.inr ⟨cut, hend, hlt, fun hhalf hat => absurd hat (hnone _ hhalf hle)⟩)
      · rintro (hstart | hreach | ⟨m, hm, hlt, -⟩)
        · exact absurd hstart hpast
        · omega
        · rwa [hm.unique hend] at hlt
  | hard hwindow hlast => exact absurd (hboundary _ hlast) (by omega)

end Follows

/-- How a chunk relates to the one before it. -/
structure EndsAfter (text : Bytes) (maxBytes : Nat) (earlier later : Chunk) : Prop where
  begin_lt : earlier.byteBegin < later.byteBegin
  end_le : earlier.byteEnd ≤ later.byteEnd
  end_lt_iff : earlier.byteEnd < later.byteEnd ↔
    CutsLater text maxBytes later.byteBegin.toNat earlier.byteEnd.toNat
  suffix_of_end : earlier.byteEnd = later.byteEnd → later.text <:+ earlier.text

theorem suffix_of_same_end {first middle last : Nat} (hfirst : first ≤ middle)
    (hlast : middle ≤ last) :
    slice text middle (last - middle) <:+ slice text first (last - first) := by
  rw [← drop_slice text hfirst hlast]
  exact List.drop_suffix _ _

/-- Along the chunks of any text, ends never go back; a chunk ends after its predecessor
exactly when its window can be cut later, and is a suffix of it otherwise. -/
theorem chunkText_ends (text : StringView) (source : Bytes) (options : ChunkOptions)
    (haccepted : options.Accepted) :
    ∃ chunks,
      (∀ steps, text.bytes.length ≤ steps →
        (chunkText text source options steps).result = .ok (some chunks)) ∧
      chunks.IsChain (EndsAfter text.bytes options.maxBytes.toNat) := by
  have hmax := haccepted.max_pos
  obtain ⟨chunks, hreturns, hspans, hchunks⟩ := chunkText_ranges text source haccepted
  refine ⟨chunks, fun steps hsteps => (hreturns steps hsteps).2, ?_⟩
  have hchain := hspans.follows
  rw [List.isChain_map] at hchain
  refine List.IsChain.imp_of_mem_imp (fun earlier later hearlier hlater h => ?_) hchain
  have hbegin : earlier.byteBegin.toNat < later.byteBegin.toNat := h.begin_lt_begin hmax
  have hinside : later.byteBegin.toNat < later.byteEnd.toNat := h.later_cut.lt hmax h.later_lt
  refine ⟨UInt64.lt_iff_toNat_lt.mpr hbegin, UInt64.le_iff_toNat_le.mpr (h.end_le hmax), ?_, ?_⟩
  · rw [UInt64.lt_iff_toNat_lt]
    exact h.end_lt_iff hmax
  · intro hsame
    rw [chunk_text_eq (hchunks earlier hearlier), chunk_text_eq (hchunks later hlater), hsame]
    exact suffix_of_same_end (Nat.le_of_lt hbegin) (Nat.le_of_lt hinside)

/-- Three letters, a space and four letters. -/
def earlyBreakText : StringView := ⟨[97, 97, 97, 32, 98, 98, 98, 98], by decide⟩

theorem chunkText_ends_early :
    ∃ chunks, (chunkText earlyBreakText [] ⟨4, 3⟩ 8).result = .ok (some chunks) ∧
      chunks.IsChain (EndsAfter earlyBreakText.bytes 4) := by
  obtain ⟨chunks, hreturns, hchain⟩ :=
    chunkText_ends earlyBreakText [] ⟨4, 3⟩ ⟨by decide, by decide⟩
  exact ⟨chunks, hreturns 8 (Nat.le_refl _), hchain⟩

/-- The second chunk ends at the space the first one ended at. -/
theorem chunkText_repeats_end :
    (⟨4, 3⟩ : ChunkOptions).Accepted ∧
      (chunkText earlyBreakText [] ⟨4, 3⟩ 8).result = .ok (some
        [⟨[], [97, 97, 97, 32], 0, 4, 0, 4⟩, ⟨[], [97, 97, 32], 1, 4, 0, 4⟩,
          ⟨[], [97, 32, 98, 98], 2, 6, 0, 4⟩, ⟨[], [32, 98, 98, 98], 3, 7, 0, 4⟩,
          ⟨[], [98, 98, 98, 98], 4, 8, 0, 4⟩]) ∧
      ¬[(⟨[], [97, 97, 97, 32], 0, 4, 0, 4⟩ : Chunk), ⟨[], [97, 97, 32], 1, 4, 0, 4⟩,
          ⟨[], [97, 32, 98, 98], 2, 6, 0, 4⟩, ⟨[], [32, 98, 98, 98], 3, 7, 0, 4⟩,
          ⟨[], [98, 98, 98, 98], 4, 8, 0, 4⟩].IsChain
        fun earlier later => earlier.byteEnd < later.byteEnd := by
  refine ⟨⟨by decide, by decide⟩, by decide +kernel, fun h => ?_⟩
  exact absurd (List.isChain_cons_cons.mp h).1 (by decide)

end CppRag
