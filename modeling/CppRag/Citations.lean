import CppRag.IndexAssembly
import CppRag.IndexWritten
import CppRag.SearchRanks

/-!
What the results of a query cite. From the inputs of `run_index` to the results of `search`
over the index it wrote, every chunk stays with its path, its range, its scale and the
embedding of its own text.
-/
namespace CppRag
open Observed Ranking PriorityQueue

section Found
variable {K : Type} [LinearOrder K] {pq : PriorityQueue (SearchResult.score (K := K))}
variable {memory : Memory} {ops : FloatOps K} {img : Image} {query : List FloatBits}
variable {topK : Nat} {options : SearchOptions} {results : List (SearchResult K)}

/-- Results are numbers of items. -/
theorem search_index_lt (ha : Accepts img)
    (h : (search pq memory ops ⟨some img⟩ query topK options).result = .ok results)
    {r : SearchResult K} (hr : r ∈ results) : r.index < img.header.itemCount.toNat := by
  rcases search_cases pq ha h with rfl | ⟨merged, capacity, limit, rfl, hmerged⟩
  · cases hr
  · obtain ⟨before, original, after, rfl, -, -, hindex, -⟩ :=
      mem_assignRanks (List.mem_of_mem_take hr)
    have hitem := hmerged.mem_items (List.mem_append_right before List.mem_cons_self)
    rw [hindex]
    exact ((mem_finiteItems_iff _ _ _ _ _).mp hitem).1

end Found

/-- Item `i` of the index is a chunk of one of the documents, next to the embedding of its
text. -/
def Cited (documents : List Document) (entries : List ChunkOptions)
    (embed : Bytes → List FloatBits) (index : MmapIndex) (i : Nat) : Prop :=
  ∃ chunk, (index.chunk (UInt64.ofNat i)).result = .ok chunk ∧
    CutFrom documents entries chunk ∧
    (index.embedding (UInt64.ofNat i)).result = .ok (embed chunk.text)

section Written
variable {documents : List Document} {entries : List ChunkOptions}

theorem CutFrom.scale_pos (haccepted : AcceptedScales entries) {chunk : Chunk}
    (h : CutFrom documents entries chunk) : chunk.scaleBytes ≠ 0 := by
  obtain ⟨document, -, hcut⟩ := h
  obtain ⟨options, hentry, hbytes⟩ := hcut.scale_eq
  have hpos := (haccepted.accepted options (List.mem_of_getElem? hentry)).max_pos
  intro hzero
  rw [hzero, show (0 : UInt32).toNat = 0 from rfl] at hbytes
  omega

theorem CutFrom.recordable (haccepted : AcceptedScales entries) {chunk : Chunk}
    (h : CutFrom documents entries chunk) : Recordable chunk := by
  have hscale := h.scale_pos haccepted
  obtain ⟨document, -, hcut⟩ := h
  refine ⟨UInt64.le_iff_toNat_le.mpr (Nat.le_of_lt (UInt64.lt_iff_toNat_lt.mp hcut.begin_lt)), ?_⟩
  rwa [recordScaleBytes_of_ne hscale]

variable {embed : Bytes → List FloatBits} {l2Norm : List FloatBits → FloatBits}
variable {items : List IndexItem} {dimensions : Nat} {img : Image}

theorem written_cited (haccepted : AcceptedScales entries) (hw : Writable items dimensions)
    (himg : img.bytes = indexImage l2Norm items dimensions)
    (hsize : totalSize items dimensions < 2 ^ 63) (ha : Accepts img)
    (hcut : ∀ item ∈ items, CutFrom documents entries item.chunk ∧
      item.embedding = embed item.chunk.text) {i : Nat} (hi : i < items.length) :
    Cited documents entries embed ⟨some img⟩ i := by
  obtain ⟨hfrom, hembedding⟩ := hcut _ (List.getElem_mem hi)
  have hchunk := written_chunk hw himg hsize i hi
  rw [recordScaleBytes_of_ne (hfrom.scale_pos haccepted)] at hchunk
  refine ⟨_, hchunk, hfrom, ?_⟩
  rw [written_floats hw himg hsize ha i hi, hembedding]

end Written

/-- For all documents, accepted scales and embedders: the assembly ends; the writer's checks
pass whenever the vectors fit the format; and once `write` has returned, the index opens and
every result of every search cites a document's own bytes with the embedding of just those. -/
theorem citations_exact (embed : Bytes → List FloatBits)
    (embedAll : List Bytes → List (List FloatBits)) (dimensions : Nat) (hpos : 0 < dimensions)
    (hlength : ∀ text, (embed text).length = dimensions)
    (hembedAll : ∀ texts, embedAll texts = texts.map embed)
    (documents : List Document) (hnonempty : ∃ document ∈ documents, document.text.bytes ≠ [])
    (options : ChunkOptions) (scales : List ChunkOptions)
    (haccepted : AcceptedScales (chunkEntries options scales)) :
    ∃ items,
      (∀ steps, (∀ document ∈ documents, document.text.bytes.length ≤ steps) →
        (indexItems embedAll options scales steps documents).result = .ok (some items)) ∧
      (dimensions < 2 ^ 32 → checkItems items = .ok dimensions) ∧
      ∀ (l2Norm : List FloatBits → FloatBits) (path : String) (fs : FileSystem String)
          (outcomes : List Outcome),
        (runWrite l2Norm path items fs outcomes).phase = .returned →
        ∃ img : Image, (runWrite l2Norm path items fs outcomes).fs.read path = some img.bytes ∧
          ∃ index, (MmapIndex.openImage img).result = .ok index ∧
            ∀ (K : Type) [LinearOrder K] (pq : PriorityQueue (SearchResult.score (K := K)))
                (memory : Memory) (ops : FloatOps K) (query : List FloatBits) (topK : Nat)
                (searchOptions : SearchOptions) (results : List (SearchResult K)),
              (search pq memory ops index query topK searchOptions).result = .ok results →
              ∀ r ∈ results,
                Cited documents (chunkEntries options scales) embed index r.index := by
  obtain ⟨items, hassembled, hcut, hsome⟩ := indexItems_cut haccepted hembedAll documents
  refine ⟨items, hassembled, fun hlt => ?_, ?_⟩
  · exact (checkItems_ok_iff items dimensions).mpr
      (assembled_writable (hsome hnonempty) hpos hlt hlength fun item hitem => (hcut item hitem).2)
  · intro l2Norm path fs outcomes hreturned
    obtain ⟨d, img, hw, himg, hsize, hread⟩ := returned_written hreturned
    have ha : Accepts img := (accepts_written_iff hw himg hsize).mpr
      fun item hitem => (hcut item hitem).1.recordable haccepted
    refine ⟨img, hread, ⟨some img⟩, (MmapIndex.openImage_ok_iff img _).mpr ⟨ha, rfl⟩, ?_⟩
    intro K _ pq memory ops query topK searchOptions results hresults r hr
    have hindex := search_index_lt ha hresults hr
    rw [(written_layout hw himg hsize).count_eq] at hindex
    exact written_cited haccepted hw himg hsize ha hcut hindex

section Pair

/-- Two bytes, to be cut whole and one by one. -/
def pairDocument : Document := ⟨[97], ⟨[98, 99], by decide⟩⟩

def pairScales : List ChunkOptions := [⟨2, 0⟩, ⟨1, 0⟩]

def pairItems : List IndexItem :=
  [⟨⟨[97], [98, 99], 0, 2, 0, 2⟩, [oneF]⟩, ⟨⟨[97], [98], 0, 1, 1, 1⟩, [oneF]⟩,
    ⟨⟨[97], [99], 1, 2, 1, 1⟩, [oneF]⟩]

theorem pairItems_assembled : (indexItems (List.map fun _ => [oneF]) ⟨1000, 150⟩ pairScales 2
    [pairDocument]).result = .ok (some pairItems) := by
  decide +kernel

theorem citations_exact_pair :
    ∃ (count : Nat) (img : Image) (index : MmapIndex),
      (runWrite (fun _ => 0) "index" pairItems .empty
        (List.replicate count .ok)).fs.read "index" = some img.bytes ∧
      (MmapIndex.openImage img).result = .ok index ∧
      ∀ results, (search (preferring SearchResult.score ⟨0, 1, 0, 1, 0⟩) .unbounded sampleOps
          index [oneF] 2 ⟨.dotProduct, 1⟩).result = .ok results →
        ∀ r ∈ results, Cited [pairDocument] pairScales (fun _ => [oneF]) index r.index := by
  obtain ⟨items, hassembled, -, hcited⟩ := citations_exact (fun _ => [oneF])
    (List.map fun _ => [oneF]) 1 (by decide) (fun _ => rfl) (fun _ => rfl) [pairDocument]
    ⟨pairDocument, List.mem_cons_self, by decide⟩ ⟨1000, 150⟩ pairScales
    ⟨by decide, by decide, fun options hoptions => by
      simp only [chunkEntries, pairScales, List.isEmpty_cons, Bool.false_eq_true, if_false,
        List.mem_cons, List.not_mem_nil, or_false] at hoptions
      rcases hoptions with rfl | rfl <;> exact ⟨by decide, by decide⟩⟩
  have hitems : items = pairItems := by
    have hsame := hassembled 2 (by decide)
    rw [pairItems_assembled] at hsame
    exact (Option.some.inj (Except.ok.inj hsame)).symm
  rw [hitems] at hcited
  have hw : Writable pairItems 1 := ⟨by decide, by decide, by decide, by decide⟩
  obtain ⟨count, hreturned⟩ :=
    write_returns (fun _ => 0) "index" hw (by decide +kernel) .empty
  obtain ⟨img, hread, index, hopen, hsearch⟩ := hcited _ _ _ _ hreturned
  exact ⟨count, img, index, hread, hopen, fun results hresults =>
    hsearch _ _ _ _ _ _ _ results hresults⟩

end Pair

end CppRag
