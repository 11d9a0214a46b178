import CppRag.ChunkProgress

/-!
`chunk_text_multi_scale`: the text is cut once for every entry of the scales, and each chunk
is labelled with the number of its entry and the size that entry allows.
-/
namespace CppRag
open Observed Slice

/-- The label of entry number `scale` on a chunk. -/
def Chunk.atScale (scale : Nat) (options : ChunkOptions) (chunk : Chunk) : Chunk :=
  { chunk with scale := UInt32.ofNat scale, scaleBytes := options.maxBytes.toUInt32 }

/-- The loop of `chunk_text_multi_scale` from entry number `scale` on. -/
def chunkScalesFrom (text : StringView) (source : Bytes) (steps : Nat) :
    Nat → List ChunkOptions → Checked (Option (List Chunk))
  | _, [] => pure (some [])
  | scale, options :: scales => do
      failIf (4294967295 < options.maxBytes)
        (.invalidArgument "chunk scale exceeds index format limit")
      let chunks ← chunkText text source options steps
      match chunks with
      | none => pure none
      | some chunks => do
          let result ← chunkScalesFrom text source steps (scale + 1) scales
          pure (result.map (chunks.map (Chunk.atScale scale options) ++ ·))

def chunkTextMultiScale (text : StringView) (source : Bytes) (scales : List ChunkOptions)
    (steps : Nat) : Checked (Option (List Chunk)) := do
  failIf scales.isEmpty (.invalidArgument "at least one chunk scale is required")
  failIf (UInt32.size - 1 < scales.length) (.invalidArgument "too many chunk scales")
  chunkScalesFrom text source steps 0 scales

/-! What the two functions accept. -/

theorem ChunkOptions.accepted_of_ok {options : ChunkOptions}
    (hmax : (options.maxBytes = 0 || 4294967295 < options.maxBytes) = false)
    (hoverlap : decide (options.maxBytes ≤ options.overlapBytes) = false) : options.Accepted := by
  rw [Bool.or_eq_false_iff, decide_eq_false_iff_not, decide_eq_false_iff_not,
    UInt64.lt_iff_toNat_lt, show (4294967295 : UInt64).toNat = 4294967295 from rfl] at hmax
  rw [decide_eq_false_iff_not, UInt64.le_iff_toNat_le] at hoverlap
  exact ⟨by omega, by omega⟩

theorem ChunkOptions.Accepted.within_limit {options : ChunkOptions} (h : options.Accepted) :
    decide (4294967295 < options.maxBytes) = false :=
  (Bool.or_eq_false_iff.mp h.max_ok).2

theorem accepted_of_chunkText {text : StringView} {source : Bytes} {options : ChunkOptions}
    {steps : Nat} {chunks : Option (List Chunk)}
    (h : (chunkText text source options steps).result = .ok chunks) : options.Accepted := by
  rw [chunkText, bind_ok_iff] at h
  obtain ⟨u, hmax, h⟩ := h
  rw [bind_ok_iff] at h
  obtain ⟨v, hoverlap, -⟩ := h
  exact ChunkOptions.accepted_of_ok ((failIf_ok_iff _ _ _).mp hmax)
    ((failIf_ok_iff _ _ _).mp hoverlap)

/-- Entries that a multi-scale call, or a single one with one entry, does not refuse. -/
structure AcceptedScales (scales : List ChunkOptions) : Prop where
  nonempty : scales ≠ []
  count_lt : scales.length < 2 ^ 32
  accepted : ∀ options ∈ scales, options.Accepted

/-- A chunk of `text` cut under the entry its scale number selects. -/
structure CutAtScale (text source : Bytes) (scales : List ChunkOptions) (chunk : Chunk) :
    Prop where
  source_eq : chunk.source = source
  begin_lt : chunk.byteBegin < chunk.byteEnd
  end_le : chunk.byteEnd.toNat ≤ text.length
  text_eq : chunk.text =
    slice text chunk.byteBegin.toNat (chunk.byteEnd.toNat - chunk.byteBegin.toNat)
  scale_eq : ∃ options, scales[chunk.scale.toNat]? = some options ∧
    chunk.scaleBytes.toNat = options.maxBytes.toNat

section Cut
variable (text : StringView) (source : Bytes)

/-- The chunks of one entry, whichever number it has among the scales. -/
theorem chunkText_cut {options : ChunkOptions} (haccepted : options.Accepted) :
    ∃ chunks,
      (∀ steps, text.bytes.length ≤ steps →
        (chunkText text source options steps).result = .ok (some chunks)) ∧
      (∀ chunk ∈ chunks, chunk.atScale 0 options = chunk ∧
        ∀ scales scale, scale < 2 ^ 32 → scales[scale]? = some options →
          CutAtScale text.bytes source scales (chunk.atScale scale options)) ∧
      (text.bytes ≠ [] → chunks ≠ []) := by
  have hmax := haccepted.max_pos
  obtain ⟨chunks, hreturns, hspans, hchunks⟩ := chunkText_ranges text source haccepted
  refine ⟨chunks, fun steps hsteps => (hreturns steps hsteps).2, fun chunk hchunk => ?_, ?_⟩
  · have hof := hchunks chunk hchunk
    have hsource : chunk.source = source := congrArg Chunk.source hof
    have htext := chunk_text_eq hof
    have hscale : chunk.scale = 0 := congrArg Chunk.scale hof
    have hbytes : chunk.scaleBytes = options.maxBytes.toUInt32 := congrArg Chunk.scaleBytes hof
    obtain ⟨hinside, hcut⟩ := hspans.cuts _ (List.mem_map_of_mem hchunk)
    refine ⟨?_, fun scales scale hscale hentry => ?_⟩
    · rw [Chunk.atScale, ← hbytes, show UInt32.ofNat 0 = chunk.scale from hscale.symm]
    · have hnumber : (UInt32.ofNat scale).toNat = scale := UInt32.toNat_ofNat_of_lt' hscale
      exact
        { source_eq := hsource
          begin_lt := UInt64.lt_iff_toNat_lt.mpr (hcut.lt hmax hinside)
          end_le := hcut.le_length
          text_eq := htext
          scale_eq := ⟨options, by rw [Chunk.atScale, hnumber, hentry], by
            rw [Chunk.atScale, UInt64.toNat_toUInt32, Nat.mod_eq_of_lt haccepted.max_le]⟩ }
  · intro hne hnil
    rw [hnil] at hspans
    cases hspans with
    | past hpast => exact hne (List.length_eq_zero_iff.mp (Nat.le_zero.mp hpast))

/-- The chunks of the entries that follow those of `done`. -/
theorem chunkScalesFrom_cut (scales done : List ChunkOptions)
    (haccepted : ∀ options ∈ scales, options.Accepted)
    (hcount : (done ++ scales).length < 2 ^ 32) :
    ∃ chunks,
      (∀ steps, text.bytes.length ≤ steps →
        (chunkScalesFrom text source steps done.length scales).result = .ok (some chunks)) ∧
      (∀ chunk ∈ chunks, CutAtScale text.bytes source (done ++ scales) chunk) ∧
      (scales ≠ [] → text.bytes ≠ [] → chunks ≠ []) := by
  induction scales generalizing done with
  | nil =>
      refine ⟨[], fun _ _ => rfl, ?_, fun h => absurd rfl h⟩
      intro chunk hchunk
      cases hchunk
  | cons options scales ih =>
      have hentry := haccepted options List.mem_cons_self
      have hdone : done.length < 2 ^ 32 := by
        rw [List.length_append] at hcount
        omega
      have hshift : done ++ options :: scales = done ++ [options] ++ scales := by simp
      obtain ⟨first, hfirst, hcut, hsome⟩ := chunkText_cut text source hentry
      obtain ⟨rest, hrest, hcuts, -⟩ := ih (done ++ [options])
        (fun o ho => haccepted o (List.mem_cons_of_mem _ ho)) (by rwa [← hshift])
      refine ⟨first.map (Chunk.atScale done.length options) ++ rest, fun steps hsteps => ?_,
        fun chunk hchunk => ?_, fun _ htext => ?_⟩
      · have hlater := hrest steps hsteps
        rw [List.length_append, List.length_singleton] at hlater
        rw [chunkScalesFrom, bind_of_ok ((failIf_ok_iff _ _ ()).mpr hentry.within_limit),
          bind_of_ok (hfirst steps hsteps)]
        simp only
        rw [bind_of_ok hlater]
        rfl
      · rcases List.mem_append.mp hchunk with hmem | hmem
        · obtain ⟨original, horiginal, rfl⟩ := List.mem_map.mp hmem
          exact (hcut original horiginal).2 _ _ hdone (by simp)
        · rw [hshift]
          exact hcuts chunk hmem
      · intro hnil
        exact hsome htext (List.map_eq_nil_iff.mp (List.append_eq_nil_iff.mp hnil).1)

/-- All accepted entries cut the text to the end, and every chunk names the entry it was cut
under. -/
theorem chunkTextMultiScale_cut {scales : List ChunkOptions} (h : AcceptedScales scales) :
    ∃ chunks,
      (∀ steps, text.bytes.length ≤ steps →
        (chunkTextMultiScale text source scales steps).result = .ok (some chunks)) ∧
      (∀ chunk ∈ chunks, CutAtScale text.bytes source scales chunk) ∧
      (text.bytes ≠ [] → chunks ≠ []) := by
  have hcount := h.count_lt
  have hsize : UInt32.size = 2 ^ 32 := rfl
  obtain ⟨chunks, hresult, hcuts, hsome⟩ :=
    chunkScalesFrom_cut text source scales [] h.accepted hcount
  refine ⟨chunks, fun steps hsteps => ?_, hcuts, hsome h.nonempty⟩
  rw [chunkTextMultiScale,
    bind_of_ok ((failIf_ok_iff _ _ ()).mpr (List.isEmpty_eq_false_iff.mpr h.nonempty)),
    bind_of_ok ((failIf_ok_iff _ _ ()).mpr (decide_eq_false (by omega)))]
  exact hresult steps hsteps

end Cut

theorem accepted_of_chunkScalesFrom {text : StringView} {source : Bytes} {steps : Nat}
    {scales : List ChunkOptions} {scale : Nat} {chunks : List Chunk}
    (h : (chunkScalesFrom text source steps scale scales).result = .ok (some chunks)) :
    ∀ options ∈ scales, options.Accepted := by
  induction scales generalizing scale chunks with
  | nil => exact fun options hoptions => by cases hoptions
  | cons options scales ih =>
      rw [chunkScalesFrom, bind_ok_iff] at h
      obtain ⟨_, -, h⟩ := h
      rw [bind_ok_iff] at h
      obtain ⟨first, hfirst, h⟩ := h
      cases first with
      | none => cases h
      | some first =>
          simp only [bind_ok_iff] at h
          obtain ⟨rest, hrest, h⟩ := h
          cases rest with
          | none => cases h
          | some rest =>
              intro o ho
              rcases List.mem_cons.mp ho with rfl | ho
              · exact accepted_of_chunkText hfirst
              · exact ih hrest o ho

/-- The multi-scale call has a result exactly for accepted entries. -/
theorem chunkTextMultiScale_ok_iff (text : StringView) (source : Bytes)
    (scales : List ChunkOptions) :
    (∃ steps chunks, (chunkTextMultiScale text source scales steps).result =
      .ok (some chunks)) ↔ AcceptedScales scales := by
  have hsize : UInt32.size = 2 ^ 32 := rfl
  constructor
  · rintro ⟨steps, chunks, h⟩
    rw [chunkTextMultiScale, bind_ok_iff] at h
    obtain ⟨_, hnonempty, h⟩ := h
    rw [bind_ok_iff] at h
    obtain ⟨_, hcount, h⟩ := h
    rw [failIf_ok_iff, List.isEmpty_eq_false_iff] at hnonempty
    rw [failIf_ok_iff, decide_eq_false_iff_not] at hcount
    exact ⟨hnonempty, by omega, accepted_of_chunkScalesFrom h⟩
  · intro h
    obtain ⟨chunks, hresult, -, -⟩ := chunkTextMultiScale_cut text source h
    exact ⟨_, chunks, hresult _ (Nat.le_refl _)⟩

end CppRag
