import CppRag.ChunkScales
import CppRag.IndexRecords

/-!
The items `run_index` assembles. Chunks, their texts and the embeddings of these travel as
parallel vectors, one input after the other; every item pairs a chunk with the embedding of
its own text.

`embedAll` stands for the embedder's call of that name. An input is its path with the text
loaded from it.
-/
namespace CppRag
open Observed Slice

structure Document where
  path : Bytes
  text : StringView

def chunkFile (document : Document) (options : ChunkOptions) (steps : Nat) :
    Checked (Option (List Chunk)) :=
  chunkText document.text document.path options steps

def chunkFileMultiScale (document : Document) (scales : List ChunkOptions) (steps : Nat) :
    Checked (Option (List Chunk)) :=
  chunkTextMultiScale document.text document.path scales steps

section Assembly
variable (embedAll : List Bytes → List (List FloatBits)) (options : ChunkOptions)
variable (scales : List ChunkOptions) (steps : Nat)

def chunkInput (document : Document) : Checked (Option (List Chunk)) :=
  if scales.isEmpty then chunkFile document options steps
  else chunkFileMultiScale document scales steps

/-- The loop of `run_index` over its inputs. -/
def indexItems : List Document → Checked (Option (List IndexItem))
  | [] => pure (some [])
  | document :: documents => do
      let chunks ← chunkInput options scales steps document
      match chunks with
      | none => pure none
      | some chunks => do
          let embeddings := embedAll (chunks.map Chunk.text)
          failIf (embeddings.length ≠ chunks.length)
            (.runtimeError "embedding count does not match chunk count")
          let items ← indexItems documents
          pure (items.map (List.zipWith IndexItem.mk chunks embeddings ++ ·))

end Assembly

/-- The entries the chunks of a run are numbered by: without scales, the one entry made of
the chunk options. -/
def chunkEntries (options : ChunkOptions) (scales : List ChunkOptions) : List ChunkOptions :=
  if scales.isEmpty then [options] else scales

/-- A chunk of one of the documents, cut under the entry its scale number selects. -/
def CutFrom (documents : List Document) (entries : List ChunkOptions) (chunk : Chunk) : Prop :=
  ∃ document ∈ documents, CutAtScale document.text.bytes document.path entries chunk

theorem CutFrom.mono {documents documents' : List Document} {entries : List ChunkOptions}
    {chunk : Chunk} (h : CutFrom documents entries chunk)
    (hsub : ∀ document ∈ documents, document ∈ documents') : CutFrom documents' entries chunk := by
  obtain ⟨document, hdocument, hcut⟩ := h
  exact ⟨document, hsub document hdocument, hcut⟩

section Assembled
variable {options : ChunkOptions} {scales : List ChunkOptions}

theorem chunkInput_cut (haccepted : AcceptedScales (chunkEntries options scales))
    (document : Document) :
    ∃ chunks,
      (∀ steps, document.text.bytes.length ≤ steps →
        (chunkInput options scales steps document).result = .ok (some chunks)) ∧
      (∀ chunk ∈ chunks, CutAtScale document.text.bytes document.path
        (chunkEntries options scales) chunk) ∧
      (document.text.bytes ≠ [] → chunks ≠ []) := by
  cases hscales : scales.isEmpty with
  | true =>
      have hentries : chunkEntries options scales = [options] := if_pos hscales
      rw [hentries] at haccepted ⊢
      obtain ⟨chunks, hresult, hcut, hsome⟩ := chunkText_cut document.text document.path
        (haccepted.accepted options List.mem_cons_self)
      refine ⟨chunks, fun steps hsteps => ?_, fun chunk hchunk => ?_, hsome⟩
      · rw [chunkInput, if_pos hscales]
        exact hresult steps hsteps
      · obtain ⟨hsame, hat⟩ := hcut chunk hchunk
        rw [← hsame]
        exact hat [options] 0 (by decide) rfl
  | false =>
      have hmulti : ¬scales.isEmpty = true := by
        rw [hscales]
        exact Bool.false_ne_true
      have hentries : chunkEntries options scales = scales := if_neg hmulti
      rw [hentries] at haccepted ⊢
      obtain ⟨chunks, hresult, hcuts, hsome⟩ :=
        chunkTextMultiScale_cut document.text document.path haccepted
      refine ⟨chunks, fun steps hsteps => ?_, hcuts, hsome⟩
      rw [chunkInput, if_neg hmulti]
      exact hresult steps hsteps

variable {embed : Bytes → List FloatBits} {embedAll : List Bytes → List (List FloatBits)}

theorem zipWith_embedAll (hembedAll : ∀ texts, embedAll texts = texts.map embed)
    (chunks : List Chunk) :
    List.zipWith IndexItem.mk chunks (embedAll (chunks.map Chunk.text)) =
      chunks.map fun chunk => ⟨chunk, embed chunk.text⟩ := by
  rw [hembedAll, List.map_map, List.zipWith_map_right, List.zipWith_self]
  rfl

/-- The assembly ends, every item holds a chunk of one of the documents with the embedding of
its text, and there are items unless all documents are empty. -/
theorem indexItems_cut (haccepted : AcceptedScales (chunkEntries options scales))
    (hembedAll : ∀ texts, embedAll texts = texts.map embed) (documents : List Document) :
    ∃ items,
      (∀ steps, (∀ document ∈ documents, document.text.bytes.length ≤ steps) →
        (indexItems embedAll options scales steps documents).result = .ok (some items)) ∧
      (∀ item ∈ items, CutFrom documents (chunkEntries options scales) item.chunk ∧
        item.embedding = embed item.chunk.text) ∧
      ((∃ document ∈ documents, document.text.bytes ≠ []) → items ≠ []) := by
  induction documents with
  | nil =>
      refine ⟨[], fun _ _ => rfl, ?_, ?_⟩
      · intro item hitem
        cases hitem
      · rintro ⟨document, hdocument, -⟩
        cases hdocument
  | cons document documents ih =>
      obtain ⟨chunks, hchunks, hcuts, hsome⟩ := chunkInput_cut haccepted document
      obtain ⟨rest, hrest, hcut, hmore⟩ := ih
      refine ⟨chunks.map (fun chunk => ⟨chunk, embed chunk.text⟩) ++ rest, fun steps hsteps => ?_,
        fun item hitem => ?_, ?_⟩
      · obtain ⟨hfirst, hlater⟩ := List.forall_mem_cons.mp hsteps
        rw [indexItems, bind_of_ok (hchunks steps hfirst)]
        simp only
        rw [bind_of_ok ((failIf_ok_iff _ _ ()).mpr (by simp [hembedAll])),
          bind_of_ok (hrest steps hlater), zipWith_embedAll hembedAll]
        rfl
      · rcases List.mem_append.mp hitem with hmem | hmem
        · obtain ⟨chunk, hchunk, rfl⟩ := List.mem_map.mp hmem
          exact ⟨⟨document, List.mem_cons_self, hcuts chunk hchunk⟩, rfl⟩
        · obtain ⟨hfrom, hembedding⟩ := hcut item hmem
          exact ⟨hfrom.mono fun d hd => List.mem_cons_of_mem _ hd, hembedding⟩
      · rintro ⟨d, hd, htext⟩ hnil
        obtain ⟨hfirst, hlater⟩ := List.append_eq_nil_iff.mp hnil
        rcases List.mem_cons.mp hd with rfl | hd
        · exact hsome htext (List.map_eq_nil_iff.mp hfirst)
        · exact hmore ⟨d, hd, htext⟩ hlater

/-- Vectors of one length, assembled with at least one chunk, pass the writer's checks. -/
theorem assembled_writable {items : List IndexItem} {dimensions : Nat} (hne : items ≠ [])
    (hpos : 0 < dimensions) (hlt : dimensions < 2 ^ 32)
    (hlength : ∀ text, (embed text).length = dimensions)
    (hembedding : ∀ item ∈ items, item.embedding = embed item.chunk.text) :
    Writable items dimensions :=
  ⟨hne, hpos, hlt, fun item hitem => by rw [hembedding item hitem, hlength]⟩

end Assembled

end CppRag
