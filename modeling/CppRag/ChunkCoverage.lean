import CppRag.ChunkerRuns
import Mathlib.Data.List.Chain

/-!
When chunking loses no byte. A byte is skipped only at a cut in the middle of continuation
bytes: a window whose later bytes are all continuation bytes or, without overlap, a
whitespace break in front of one.
-/
namespace CppRag
open Observed Slice

variable {text : Bytes} {maxBytes overlap : Nat}

/-- Ranges that reach the end of the text without a gap between two of them. -/
structure Covers (length : Nat) (spans : List (Nat × Nat)) : Prop where
  last : spans.getLast?.map Prod.snd = some length
  meet : spans.IsChain fun earlier later => later.1 ≤ earlier.2

theorem covers_singleton (begin length : Nat) : Covers length [(begin, length)] :=
  ⟨rfl, List.isChain_singleton _⟩

theorem Spans.covers_cons_iff {begin cut next : Nat} {spans : List (Nat × Nat)}
    (hspans : Spans text maxBytes overlap next spans) (hinside : cut < text.length) :
    Covers text.length ((begin, cut) :: spans) ↔ next ≤ cut ∧ Covers text.length spans := by
  have hcons : ∀ (last : Nat) (rest : List (Nat × Nat)),
      Covers text.length ((begin, cut) :: (next, last) :: rest) ↔
        next ≤ cut ∧ Covers text.length ((next, last) :: rest) := by
    intro last rest
    constructor
    · rintro ⟨hlast, hmeet⟩
      obtain ⟨hle, hrest⟩ := List.isChain_cons_cons.mp hmeet
      exact ⟨hle, by rwa [List.getLast?_cons_cons] at hlast, hrest⟩
    · rintro ⟨hle, hlast, hmeet⟩
      exact ⟨by rwa [List.getLast?_cons_cons], List.isChain_cons_cons.mpr ⟨hle, hmeet⟩⟩
  cases hspans with
  | past =>
      refine iff_of_false (fun h => ?_) (fun h => ?_)
      · have hlast : cut = text.length := Option.some.inj h.last
        omega
      · cases h.2.last
  | last => exact hcons _ _
  | more => exact hcons _ _

/-- The positions a walk reaches that begins each chunk where the one before ended. -/
inductive Walk (text : Bytes) (maxBytes : Nat) : Nat → Nat → Prop where
  | here {position : Nat} : Walk text maxBytes position position
  | step {begin cut later : Nat} (hcut : Cut text maxBytes begin cut)
      (hinside : cut < text.length) (hwalk : Walk text maxBytes cut later) :
      Walk text maxBytes begin later

/-- Every full window has a code point boundary after its first byte. -/
def Bounded (text : Bytes) (maxBytes : Nat) : Prop :=
  ∀ position, position + maxBytes < text.length →
    ∃ i, position < i ∧ i ≤ position + maxBytes ∧ ¬ContinuationAt text i

/-- No break of a walk from `begin` is between a whitespace and a continuation byte. -/
def CleanBreaks (text : Bytes) (maxBytes begin : Nat) : Prop :=
  ∀ position cut, Walk text maxBytes begin position → Cut text maxBytes position cut →
    cut < text.length → SpaceAt text (cut - 1) → ¬ContinuationAt text cut

theorem Spans.covers (hoverlap : overlap < maxBytes) (hbounded : Bounded text maxBytes)
    {begin : Nat} {spans : List (Nat × Nat)} (h : Spans text maxBytes overlap begin spans)
    (hbegin : begin < text.length) (hclean : overlap = 0 → CleanBreaks text maxBytes begin) :
    Covers text.length spans := by
  induction h with
  | past hpast => omega
  | last => exact covers_singleton _ _
  | @more begin cut next spans _ hcut hinside hnext hspans ih =>
      have hle : next ≤ cut :=
        hcut.next_le hinside hoverlap hnext (hbounded begin (hcut.window_lt hinside))
          fun hzero => hclean hzero begin cut .here hcut hinside
      refine (hspans.covers_cons_iff hinside).mpr ⟨hle, ih (by omega) fun hzero => ?_⟩
      -- without overlap the next chunk begins at the cut
      have hstart := hnext.le
      have hsame : next = cut := by
        subst hzero
        simp only [overlapStart] at hstart
        omega
      rw [hsame]
      exact fun position later hwalk => hclean hzero position later (.step hcut hinside hwalk)

/-- Ranges that cover the text have a beginning in every window. -/
theorem Spans.bounded {begin : Nat} {spans : List (Nat × Nat)}
    (h : Spans text maxBytes overlap begin spans) (hcovers : Covers text.length spans)
    {position : Nat} (hposition : begin ≤ position)
    (hwindow : position + maxBytes < text.length) :
    ∃ i, position < i ∧ i ≤ position + maxBytes ∧ ¬ContinuationAt text i := by
  induction h with
  | past hpast => omega
  | last _ hcut =>
      have hreach := hcut.le_window
      omega
  | @more begin cut next spans _ hcut hinside hnext hspans ih =>
      obtain ⟨hle, hrest⟩ := (hspans.covers_cons_iff hinside).mp hcovers
      by_cases hlater : next ≤ position
      · exact ih hrest hlater
      · have hreach := hcut.le_window
        exact ⟨next, by omega, by omega, hnext.stops⟩

/-- Without overlap, ranges that cover the text are cut at boundaries. -/
theorem Spans.walk_boundary {begin : Nat} {spans : List (Nat × Nat)}
    (h : Spans text maxBytes 0 begin spans) (hcovers : Covers text.length spans)
    {position cut : Nat} (hwalk : Walk text maxBytes begin position)
    (hcut : Cut text maxBytes position cut) (hinside : cut < text.length) :
    ¬ContinuationAt text cut := by
  induction h with
  | past hpast =>
      cases hcovers.last
  | last _ hend =>
      cases hwalk with
      | here =>
          have hsame := hcut.unique hend
          omega
      | step hcut' hinside' =>
          have hsame := hcut'.unique hend
          omega
  | @more begin first next spans _ hfirst hinside' hnext hspans ih =>
      obtain ⟨hle, hrest⟩ := (hspans.covers_cons_iff hinside').mp hcovers
      have hstart := hnext.le
      have hsame : next = first := by
        simp only [overlapStart] at hstart
        omega
      subst hsame
      cases hwalk with
      | here =>
          have hsame := hcut.unique hfirst
          subst hsame
          exact hnext.stops
      | step hcut' _ hwalk =>
          have hsame := hcut'.unique hfirst
          subst hsame
          exact ih hrest hwalk

/-- A text that chunking with given options loses nothing of. -/
structure Lossless (text : Bytes) (maxBytes overlap : Nat) : Prop where
  bounded : Bounded text maxBytes
  clean : overlap = 0 → CleanBreaks text maxBytes 0

theorem Spans.covers_iff (hoverlap : overlap < maxBytes) {spans : List (Nat × Nat)}
    (h : Spans text maxBytes overlap 0 spans) (hne : 0 < text.length) :
    Covers text.length spans ↔ Lossless text maxBytes overlap := by
  constructor
  · intro hcovers
    refine ⟨fun position => h.bounded hcovers (Nat.zero_le _), fun hzero => ?_⟩
    subst hzero
    exact fun position cut hwalk hcut hinside _ => h.walk_boundary hcovers hwalk hcut hinside
  · exact fun hlossless => h.covers hoverlap hlossless.bounded hne hlossless.clean

/-! The chunks themselves. -/

/-- What the chunks of a whole text satisfy. -/
structure Complete (text : Bytes) (chunks : List Chunk) : Prop where
  first : chunks.head?.map (·.byteBegin.toNat) = some 0
  last : chunks.getLast?.map (·.byteEnd.toNat) = some text.length
  texts : ∀ chunk ∈ chunks, chunk.byteBegin ≤ chunk.byteEnd ∧
    chunk.text = slice text chunk.byteBegin.toNat (chunk.byteEnd.toNat - chunk.byteBegin.toNat)
  meet : chunks.IsChain fun earlier later => later.byteBegin ≤ earlier.byteEnd

/-- The chunk texts joined, each without what overlaps the `covered` bytes before it. -/
def joinChunks (covered : Nat) : List Chunk → Bytes
  | [] => []
  | chunk :: chunks =>
      chunk.text.drop (covered - chunk.byteBegin.toNat) ++ joinChunks chunk.byteEnd.toNat chunks

def Chunk.range (chunk : Chunk) : Nat × Nat := (chunk.byteBegin.toNat, chunk.byteEnd.toNat)

theorem Spans.bounds (hmax : 0 < maxBytes) {begin : Nat} {spans : List (Nat × Nat)}
    (h : Spans text maxBytes overlap begin spans) :
    ∀ span ∈ spans, span.1 < span.2 ∧ span.2 ≤ text.length := by
  induction h with
  | past => exact fun span hspan => by cases hspan
  | last hbegin =>
      intro span hspan
      cases List.mem_singleton.mp hspan
      exact ⟨hbegin, Nat.le_refl _⟩
  | more hbegin hcut hinside _ _ ih =>
      intro span hspan
      rcases List.mem_cons.mp hspan with rfl | hspan
      · exact ⟨hcut.lt hmax hbegin, Nat.le_of_lt hinside⟩
      · exact ih span hspan

theorem Spans.head {begin : Nat} {spans : List (Nat × Nat)}
    (h : Spans text maxBytes overlap begin spans) (hbegin : begin < text.length) :
    spans.head?.map Prod.fst = some begin := by
  cases h with
  | past hpast => omega
  | last => rfl
  | more => rfl

theorem Spans.head_cut {begin : Nat} {spans : List (Nat × Nat)}
    (h : Spans text maxBytes overlap begin spans) :
    ∀ span ∈ spans.head?, Cut text maxBytes begin span.2 := by
  intro span hspan
  cases h with
  | past => cases hspan
  | last _ hcut =>
      cases hspan
      exact hcut
  | more _ hcut =>
      cases hspan
      exact hcut

theorem range_chunkOf (text : Bytes) {length : Nat} (hlength : length < 2 ^ 63) (source : Bytes)
    (options : ChunkOptions) {span : Nat × Nat} (h : span.1 < span.2 ∧ span.2 ≤ length) :
    (chunkOf text source options span).range = span := by
  have hsize : UInt64.size = 2 ^ 64 := rfl
  have hbegin : (UInt64.ofNat span.1).toNat = span.1 := UInt64.toNat_ofNat_of_lt' (by omega)
  have hend : (UInt64.ofNat span.2).toNat = span.2 := UInt64.toNat_ofNat_of_lt' (by omega)
  simp only [chunkOf, Chunk.range, hbegin, hend]

theorem map_range_chunkOf (text : Bytes) {length : Nat} (hlength : length < 2 ^ 63) (source : Bytes)
    (options : ChunkOptions) {spans : List (Nat × Nat)}
    (h : ∀ span ∈ spans, span.1 < span.2 ∧ span.2 ≤ length) :
    (spans.map (chunkOf text source options)).map Chunk.range = spans := by
  rw [List.map_map]
  exact (List.map_congr_left fun span hspan => range_chunkOf text hlength source options
    (h span hspan)).trans (List.map_id spans)

/-- Complete chunks are chunks whose ranges cover the text. -/
theorem complete_iff_covers (hlength : text.length < 2 ^ 63) (source : Bytes)
    (options : ChunkOptions) {spans : List (Nat × Nat)}
    (hbounds : ∀ span ∈ spans, span.1 < span.2 ∧ span.2 ≤ text.length)
    (hhead : spans.head?.map Prod.fst = some 0) :
    Complete text (spans.map (chunkOf text source options)) ↔ Covers text.length spans := by
  have hranges := map_range_chunkOf text hlength source options hbounds
  generalize hchunks : spans.map (chunkOf text source options) = chunks at hranges
  have hlast : spans.getLast?.map Prod.snd = chunks.getLast?.map (·.byteEnd.toNat) := by
    rw [← hranges, List.getLast?_map, Option.map_map]
    rfl
  have hmeet : (spans.IsChain fun earlier later => later.1 ≤ earlier.2) ↔
      chunks.IsChain fun earlier later => later.byteBegin ≤ earlier.byteEnd := by
    rw [← hranges, List.isChain_map]
    simp only [Chunk.range, UInt64.le_iff_toNat_le]
  constructor
  · intro h
    exact ⟨hlast.trans h.last, hmeet.mpr h.meet⟩
  · intro h
    refine ⟨?_, hlast.symm.trans h.last, fun chunk hchunk => ?_, hmeet.mp h.meet⟩
    · rw [← hhead, ← hranges, List.head?_map, Option.map_map]
      rfl
    · rw [← hchunks] at hchunk
      obtain ⟨span, hspan, rfl⟩ := List.mem_map.mp hchunk
      have hrange := range_chunkOf text hlength source options (hbounds span hspan)
      have hbegin := congrArg Prod.fst hrange
      have hend := congrArg Prod.snd hrange
      simp only [Chunk.range] at hbegin hend
      refine ⟨?_, ?_⟩
      · rw [UInt64.le_iff_toNat_le, hbegin, hend]
        exact Nat.le_of_lt (hbounds span hspan).1
      · rw [hbegin, hend]
        rfl

/-- Covering ranges give the text back. -/
theorem Spans.join (hlength : text.length < 2 ^ 63) (hmax : 0 < maxBytes) (source : Bytes)
    (options : ChunkOptions) {begin : Nat} {spans : List (Nat × Nat)}
    (h : Spans text maxBytes overlap begin spans) (hcovers : Covers text.length spans)
    {covered : Nat} (hbegin : begin ≤ covered)
    (hcovered : ∀ span ∈ spans.head?, covered ≤ span.2) :
    joinChunks covered (spans.map (chunkOf text source options)) = text.drop covered := by
  induction h generalizing covered with
  | past => cases hcovers.last
  | @last begin hinside hcut =>
      have hrange : (chunkOf text source options (begin, text.length)).range = _ :=
        range_chunkOf text hlength source options ⟨hinside, Nat.le_refl _⟩
      have hfirst : (UInt64.ofNat begin).toNat = begin := congrArg Prod.fst hrange
      have hle := hcovered (begin, text.length) rfl
      rw [List.map_singleton, joinChunks, joinChunks, List.append_nil]
      simp only [chunkOf, hfirst]
      rw [drop_slice text hbegin hle, slice]
      exact List.take_of_length_le (by rw [List.length_drop])
  | @more begin cut next spans hinside hcut hlast hnext hspans ih =>
      obtain ⟨hle, hrest⟩ := (hspans.covers_cons_iff hlast).mp hcovers
      have hrange : (chunkOf text source options (begin, cut)).range = _ :=
        range_chunkOf text hlength source options ⟨hcut.lt hmax hinside, Nat.le_of_lt hlast⟩
      have hfirst : (UInt64.ofNat begin).toNat = begin := congrArg Prod.fst hrange
      have hend : (UInt64.ofNat cut).toNat = cut := congrArg Prod.snd hrange
      have hbefore := hcovered (begin, cut) rfl
      have hlater := Nat.lt_of_lt_of_le (lt_overlapStart overlap (hcut.lt hmax hinside)) hnext.le
      have hahead : ∀ span ∈ spans.head?, cut ≤ span.2 := fun span hspan =>
        hcut.mono hlater hle hnext.stops (hspans.head_cut span hspan)
      rw [List.map_cons, joinChunks]
      simp only [chunkOf, hfirst, hend]
      rw [drop_slice text hbegin hbefore, ih hrest hle hahead, slice_append_drop text hbefore]

/-- For every text and all accepted options, the loop ends, and its chunks are complete
exactly when the text is lossless; complete chunks give the text back. -/
theorem chunkText_complete_iff (text : StringView) (hne : text.bytes ≠ []) (source : Bytes)
    (options : ChunkOptions) (haccepted : options.Accepted) :
    ∃ chunks,
      (∀ steps, text.bytes.length ≤ steps →
        (chunkText text source options steps).result = .ok (some chunks)) ∧
      (Complete text.bytes chunks ↔
        Lossless text.bytes options.maxBytes.toNat options.overlapBytes.toNat) ∧
      (Complete text.bytes chunks → joinChunks 0 chunks = text.bytes) := by
  have hpos : 0 < text.bytes.length := List.length_pos_iff.mpr hne
  have hmax := haccepted.max_pos
  have hrun := fun steps hsteps =>
    returns_chunkFrom text source haccepted steps 0 (Nat.zero_le _) hsteps
  obtain ⟨spans, -, hspans⟩ := hrun text.bytes.length (Nat.le_add_left _ _)
  have hiff := complete_iff_covers text.length_lt source options (hspans.bounds hmax)
    (hspans.head hpos)
  refine ⟨spans.map (chunkOf text.bytes source options), fun steps hsteps => ?_, ?_, ?_⟩
  · obtain ⟨spans', hreturns, hspans'⟩ := hrun steps (Nat.le_trans hsteps (Nat.le_add_left _ _))
    rw [chunkText_of_accepted haccepted, hspans.unique hspans']
    exact hreturns.2
  · rw [hiff]
    exact hspans.covers_iff haccepted.overlap_lt hpos
  · intro hcomplete
    exact hspans.join text.length_lt hmax source options (hiff.mp hcomplete) (Nat.le_refl _)
      fun span _ => Nat.zero_le _

/-- Two code points of three bytes among others of one. -/
def mixedText : StringView := ⟨[0xE4, 0xB8, 0x96, 0x20, 0x61, 0xE4, 0xB8, 0x96, 0x62], by decide⟩

/-- In chunks of five bytes that share two: a break at a space, with the overlap cut down to a
whole code point, and one in front of the last. -/
def mixedChunks : List Chunk :=
  [⟨[], [0xE4, 0xB8, 0x96, 0x20], 0, 4, 0, 5⟩, ⟨[], [0x20, 0x61, 0xE4, 0xB8, 0x96], 3, 8, 0, 5⟩,
    ⟨[], [0x62], 8, 9, 0, 5⟩]

theorem chunkText_mixed : (chunkText mixedText [] ⟨5, 2⟩ 9).result = .ok (some mixedChunks) := by
  decide +kernel

theorem chunkText_complete_mixed :
    Complete mixedText.bytes mixedChunks ∧ joinChunks 0 mixedChunks = mixedText.bytes := by
  obtain ⟨chunks, hreturns, hiff, hjoin⟩ := chunkText_complete_iff mixedText (by decide) [] ⟨5, 2⟩
    ⟨by decide, by decide⟩
  have hsame := chunkText_mixed.symm.trans (hreturns 9 (Nat.le_refl _))
  cases hsame
  have hlossless : Lossless mixedText.bytes 5 2 := by
    refine ⟨fun position hwindow => ?_, fun hzero => absurd hzero (by decide)⟩
    rw [show mixedText.bytes.length = 9 from rfl] at hwindow
    rcases Nat.lt_or_ge position 3 with hfirst | hlater
    · exact ⟨3, hfirst, by omega, by decide⟩
    · exact ⟨4, by omega, by omega, by decide⟩
  exact ⟨hiff.mpr hlossless, hjoin (hiff.mpr hlossless)⟩

/-- A code point of three bytes. -/
def wideText : StringView := ⟨[0xE4, 0xB8, 0x96], by decide⟩

/-- Chunks of one byte lose its second and third bytes. -/
theorem chunkText_incomplete :
    (⟨1, 0⟩ : ChunkOptions).Accepted ∧
      (chunkText wideText [] ⟨1, 0⟩ 3).result = .ok (some [⟨[], [0xE4], 0, 1, 0, 1⟩]) ∧
      ¬Complete wideText.bytes [⟨[], [0xE4], 0, 1, 0, 1⟩] ∧
      joinChunks 0 [⟨[], [0xE4], 0, 1, 0, 1⟩] ≠ wideText.bytes := by
  refine ⟨⟨by decide, by decide⟩, by decide +kernel, fun h => ?_, by decide⟩
  exact absurd h.last (by decide)

end CppRag
