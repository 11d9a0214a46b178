import CppRag.ChunkProgress
import Mathlib.Order.Bounds.Basic

/-!
Where a chunk is cut, as a rule over the positions of the text: the greatest boundary of
the window, and the greatest whitespace between the middle of the window and it.
-/
namespace CppRag
open Observed

variable {text : Bytes} {maxBytes : Nat}

/-- The positions after `begin` and up to `limit` whose byte is no continuation byte. -/
def boundariesIn (text : Bytes) (begin limit : Nat) : Set Nat :=
  {m | begin < m ∧ m ≤ limit ∧ ¬ContinuationAt text m}

/-- The whitespace bytes from `first` on and before `last`. -/
def spacesIn (text : Bytes) (first last : Nat) : Set Nat :=
  {p | first ≤ p ∧ p < last ∧ SpaceAt text p}

/-- The greatest boundary in a window, or the end of the window if it has none. -/
def WindowEnd (text : Bytes) (begin limit m : Nat) : Prop :=
  IsGreatest (boundariesIn text begin limit) m ∨ boundariesIn text begin limit = ∅ ∧ m = limit

/-- The position just after the last whitespace between `first` and `last`, or `last` if
there is none. -/
def BreakBefore (text : Bytes) (first last cut : Nat) : Prop :=
  (∃ p, IsGreatest (spacesIn text first last) p ∧ cut = p + 1) ∨
    spacesIn text first last = ∅ ∧ cut = last

/-- Where a chunk that begins at `begin` must end. -/
structure CutRule (text : Bytes) (maxBytes begin cut : Nat) : Prop where
  rest : text.length ≤ begin + maxBytes → cut = text.length
  window : begin + maxBytes < text.length →
    ∃ m, WindowEnd text begin (begin + maxBytes) m ∧
      BreakBefore text (begin + maxBytes / 2) m cut

theorem LastBoundary.windowEnd {begin limit boundary : Nat}
    (h : LastBoundary text begin limit boundary) (hinside : begin < boundary) :
    WindowEnd text begin limit boundary := by
  refine .inl ⟨⟨hinside, h.le_limit, h.stops hinside⟩, ?_⟩
  rintro i ⟨-, hlimit, hnot⟩
  by_contra hlt
  exact hnot (h.skipped i (Nat.not_le.mp hlt) hlimit)

theorem LastBoundary.windowEnd_none {begin limit : Nat}
    (h : LastBoundary text begin limit begin) : WindowEnd text begin limit limit := by
  refine .inr ⟨Set.eq_empty_iff_forall_notMem.mpr ?_, rfl⟩
  rintro i ⟨hbegin, hlimit, hnot⟩
  exact hnot (h.skipped i hbegin hlimit)

/-- A whitespace just before `cut` and none later, in terms of the bytes themselves. -/
theorem breakBefore_of_space {first last cut : Nat} (hfirst : first < cut) (hlast : cut ≤ last)
    (hspace : SpaceAt text (cut - 1))
    (hnone : ∀ i, cut < i → i ≤ last → ¬SpaceAt text (i - 1)) :
    BreakBefore text first last cut := by
  refine .inl ⟨cut - 1, ⟨⟨by omega, by omega, hspace⟩, ?_⟩, by omega⟩
  rintro p ⟨-, hp, hat⟩
  by_contra hlater
  exact hnone (p + 1) (by omega) hp hat

theorem breakBefore_of_none {first last : Nat}
    (hnone : ∀ i, first < i → i ≤ last → ¬SpaceAt text (i - 1)) :
    BreakBefore text first last last := by
  refine .inr ⟨Set.eq_empty_iff_forall_notMem.mpr ?_, rfl⟩
  rintro p ⟨hfirst, hlast, hat⟩
  exact hnone (p + 1) (Nat.lt_succ_of_le hfirst) hlast hat

/-- A window of continuation bytes can hold a whitespace only as its one byte. -/
theorem breakBefore_of_hard {begin : Nat} (hmax : 0 < maxBytes)
    (h : LastBoundary text begin (begin + maxBytes) begin) :
    BreakBefore text (begin + maxBytes / 2) (begin + maxBytes) (begin + maxBytes) := by
  have hfirst : ∀ p, begin < p → p < begin + maxBytes → ¬SpaceAt text p := fun p hp hlt hat =>
    hat.not_continuationAt (h.skipped p hp (Nat.le_of_lt hlt))
  by_cases hone : maxBytes = 1
  · subst hone
    by_cases hat : SpaceAt text begin
    · exact breakBefore_of_space (by omega) (Nat.le_refl _) hat fun i hi hle => by omega
    · refine breakBefore_of_none fun i hi hle => ?_
      rwa [show i - 1 = begin by omega]
  · exact breakBefore_of_none fun i hi hle => hfirst (i - 1) (by omega) (by omega)

theorem Cut.rule {begin cut : Nat} (h : Cut text maxBytes begin cut) (hmax : 0 < maxBytes) :
    CutRule text maxBytes begin cut := by
  cases h with
  | rest hreach => exact ⟨fun _ => rfl, fun hwindow => absurd hreach (Nat.not_le.mpr hwindow)⟩
  | @space boundary cut hwindow hlast hhalf hcut hspace hnone =>
      refine ⟨fun hreach => absurd hreach (Nat.not_le.mpr hwindow), fun _ => ⟨boundary, ?_, ?_⟩⟩
      · exact hlast.windowEnd (by omega)
      · exact breakBefore_of_space hhalf hcut hspace hnone
  | boundary hwindow hlast hinside hnone =>
      exact ⟨fun hreach => absurd hreach (Nat.not_le.mpr hwindow),
        fun _ => ⟨cut, hlast.windowEnd hinside, breakBefore_of_none hnone⟩⟩
  | hard hwindow hlast =>
      exact ⟨fun hreach => absurd hreach (Nat.not_le.mpr hwindow),
        fun _ => ⟨_, hlast.windowEnd_none, breakBefore_of_hard hmax hlast⟩⟩

/-! The rule leaves no choice. -/

theorem WindowEnd.unique {begin limit first second : Nat}
    (hfirst : WindowEnd text begin limit first) (hsecond : WindowEnd text begin limit second) :
    first = second := by
  rcases hfirst with hgreatest | ⟨hempty, rfl⟩ <;> rcases hsecond with hgreatest' | ⟨hempty', rfl⟩
  · exact hgreatest.unique hgreatest'
  · exact absurd hgreatest.1 (hempty' ▸ Set.notMem_empty _)
  · exact absurd hgreatest'.1 (hempty ▸ Set.notMem_empty _)
  · rfl

theorem BreakBefore.unique {start last first second : Nat}
    (hfirst : BreakBefore text start last first) (hsecond : BreakBefore text start last second) :
    first = second := by
  rcases hfirst with ⟨p, hp, rfl⟩ | ⟨hempty, rfl⟩ <;>
    rcases hsecond with ⟨q, hq, rfl⟩ | ⟨hempty', rfl⟩
  · rw [hp.unique hq]
  · exact absurd hp.1 (hempty' ▸ Set.notMem_empty _)
  · exact absurd hq.1 (hempty ▸ Set.notMem_empty _)
  · rfl

theorem CutRule.unique {begin first second : Nat} (hfirst : CutRule text maxBytes begin first)
    (hsecond : CutRule text maxBytes begin second) : first = second := by
  by_cases hreach : text.length ≤ begin + maxBytes
  · rw [hfirst.rest hreach, hsecond.rest hreach]
  · obtain ⟨m, hm, hbreak⟩ := hfirst.window (Nat.not_le.mp hreach)
    obtain ⟨m', hm', hbreak'⟩ := hsecond.window (Nat.not_le.mp hreach)
    rw [hm.unique hm'] at hbreak
    exact hbreak.unique hbreak'

/-- For every byte string and all accepted options, the rule tells where each chunk ends. -/
theorem chunkText_cuts (text : StringView) (source : Bytes) (options : ChunkOptions)
    (haccepted : options.Accepted) :
    ∃ chunks,
      (∀ steps, text.bytes.length ≤ steps →
        (chunkText text source options steps).result = .ok (some chunks)) ∧
      ∀ chunk ∈ chunks, ∀ cut,
        CutRule text.bytes options.maxBytes.toNat chunk.byteBegin.toNat cut ↔
          chunk.byteEnd.toNat = cut := by
  have hmax := haccepted.max_pos
  obtain ⟨chunks, hreturns, hspans, -⟩ := chunkText_ranges text source haccepted
  refine ⟨chunks, fun steps hsteps => (hreturns steps hsteps).2, fun chunk hchunk cut => ?_⟩
  obtain ⟨-, hcut⟩ := hspans.cuts _ (List.mem_map_of_mem hchunk)
  have hrule := hcut.rule hmax
  constructor
  · exact fun h => hrule.unique h
  · rintro rfl
    exact hrule

/-- A text whose first window of four bytes has a whitespace in its second half. -/
theorem chunkText_cuts_space :
    ∃ chunks, (chunkText ⟨[97, 97, 32, 97, 97, 97], by decide⟩ [] ⟨4, 0⟩ 6).result =
        .ok (some chunks) ∧
      ∀ chunk ∈ chunks, CutRule [97, 97, 32, 97, 97, 97] 4 chunk.byteBegin.toNat
        chunk.byteEnd.toNat := by
  obtain ⟨chunks, hreturns, hcuts⟩ := chunkText_cuts ⟨[97, 97, 32, 97, 97, 97], by decide⟩ []
    ⟨4, 0⟩ ⟨by decide, by decide⟩
  exact ⟨chunks, hreturns 6 (Nat.le_refl _), fun chunk hchunk => (hcuts chunk hchunk _).mpr rfl⟩

end CppRag
