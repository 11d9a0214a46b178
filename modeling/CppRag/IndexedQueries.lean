import CppRag.AskEvidence
import CppRag.Citations
import CppRag.IndexCommandRuns
import CppRag.QueryListing

/-!
An `index` command and then a `query` or an `ask` over the file it has written. Whatever the
models answer, what is shown, and what the generator is given, are ranges of the input files as
they were read, under the paths of the command line and the scales of the options.
-/
namespace CppRag
open Observed Ranking PriorityQueue Interactive

/-! What a query finds in it. -/

section Results
variable {K : Type} [LinearOrder K] {pq : PriorityQueue (SearchResult.score (K := K))}
variable {memory : Memory} {ops : FloatOps K} {img : Image} {query : List FloatBits}
variable {topK : Nat} {options : SearchOptions} {results : List (SearchResult K)}

/-- A result carries the scale of its item. -/
theorem search_scale (ha : Accepts img)
    (h : (search pq memory ops ⟨some img⟩ query topK options).result = .ok results)
    {r : SearchResult K} (hr : r ∈ results) :
    (MmapIndex.scale ⟨some img⟩ (UInt64.ofNat r.index)).result = .ok r.scale ∧
      (MmapIndex.scaleBytes ⟨some img⟩ (UInt64.ofNat r.index)).result = .ok r.scaleBytes := by
  rcases search_cases pq ha h with rfl | ⟨merged, capacity, limit, rfl, hmerged⟩
  · cases hr
  · have hranked := List.mem_map_of_mem (f := SearchResult.unranked) (List.mem_of_mem_take hr)
    rw [unranked_assignRanks] at hranked
    obtain ⟨original, horiginal, hsame⟩ := List.mem_map.mp hranked
    have hitem := hmerged.mem_items horiginal
    obtain ⟨hindex, -, -, hscale, hbytes⟩ :=
      (candidate_some_iff _ _ _ _ _ _).mp ((mem_finiteItems_iff _ _ _ _ _).mp hitem).2
    have hi : original.index = r.index :=
      (congrArg SearchResult.index hsame : original.unranked.index = r.unranked.index)
    have hs : original.scale = r.scale :=
      (congrArg SearchResult.scale hsame : original.unranked.scale = r.unranked.scale)
    have hb : original.scaleBytes = r.scaleBytes :=
      (congrArg SearchResult.scaleBytes hsame :
        original.unranked.scaleBytes = r.unranked.scaleBytes)
    rw [← hi, ← hs, ← hb]
    exact ⟨hscale, hbytes⟩

theorem chunk_scale {i : UInt64} (hi : i < img.header.itemCount) {chunk : Chunk}
    {scale scaleBytes : UInt32} (hchunk : (MmapIndex.chunk ⟨some img⟩ i).result = .ok chunk)
    (hscale : (MmapIndex.scale ⟨some img⟩ i).result = .ok scale)
    (hbytes : (MmapIndex.scaleBytes ⟨some img⟩ i).result = .ok scaleBytes) :
    scale = chunk.scale ∧ scaleBytes = chunk.scaleBytes := by
  rw [MmapIndex.chunk_result hi] at hchunk
  rw [MmapIndex.scale_result hi] at hscale
  rw [MmapIndex.scaleBytes_result hi] at hbytes
  cases hchunk
  cases hscale
  cases hbytes
  exact ⟨rfl, rfl⟩

end Results

theorem mapFile_ok {fs : FileSystem String} {path : Bytes} {img : Image}
    (h : mapFile fs path = .ok img) : fs.read (pathName path) = some img.bytes := by
  rw [mapFile] at h
  split at h
  · cases h
  · rename_i bytes hread
    split at h
    · cases h
    · split at h
      · cases h
        exact hread
      · cases h

/-- A result with its lines: a range of one of the documents, under the entry of its scale. -/
structure Shows {K : Type} (documents : List Document) (entries : List ChunkOptions)
    (entry : SearchResult K × Chunk) : Prop where
  cut : CutFrom documents entries entry.2
  scale : entry.1.scale = entry.2.scale
  scaleBytes : entry.1.scaleBytes = entry.2.scaleBytes

section Opened
variable {σ D : Type} {host : IndexHost σ} {args : Arguments D} {fs fs' : FileSystem String}

/-- The file that a completed command has left, for everyone who maps it. -/
def Answering {K : Type} (img : Image) (documents : List Document)
    (entries : List ChunkOptions) : Prop :=
  ∀ [LinearOrder K] (pq : PriorityQueue (SearchResult.score (K := K))) (memory : Memory)
      (floats : FloatOps K) (index : MmapIndex) (query : List FloatBits) (topK : Nat)
      (options : SearchOptions) (results : List (SearchResult K)),
    (MmapIndex.openImage img).result = .ok index →
    (search pq memory floats index query topK options).result = .ok results →
    ∀ r ∈ results, ∀ chunk, (index.chunk (UInt64.ofNat r.index)).result = .ok chunk →
      Shows documents entries (r, chunk)

theorem answering_of_runIndex (K : Type) {line : Bytes}
    (hindex : runIndex host args fs = (.ok line, fs')) :
    ∃ documents entries, Indexed host args documents entries ∧
      ∀ img, mapFile fs' args.output = .ok img → Answering (K := K) img documents entries := by
  obtain ⟨items, dimensions, hprepared, hreturned, rfl, -⟩ := runIndex_ok hindex
  obtain ⟨documents, entries, hindexed, hassembled⟩ := prepareIndex_ok hprepared
  refine ⟨documents, entries, hindexed, ?_⟩
  intro img hmap _ pq memory floats index query topK options results hopen hsearch r hr chunk hchunk
  obtain ⟨d, img', hw, himg, hsize, hread⟩ := returned_written hreturned
  have hbytes : img.bytes = img'.bytes :=
    Option.some.inj ((mapFile_ok hmap).symm.trans hread)
  rw [← hbytes] at himg
  obtain ⟨ha, rfl⟩ := (MmapIndex.openImage_ok_iff img index).mp hopen
  have hlt := search_index_lt ha hsearch hr
  have hcount : r.index < items.length := by
    rwa [(written_layout hw himg hsize).count_eq] at hlt
  have hi := ofNat_lt_itemCount hlt
  obtain ⟨hscale, hscaleBytes⟩ := search_scale ha hsearch hr
  obtain ⟨hs, hb⟩ := chunk_scale hi hchunk hscale hscaleBytes
  have hcut := hassembled.cut _ (List.getElem_mem hcount)
  have hwritten := written_chunk hw himg hsize r.index hcount
  rw [recordScaleBytes_of_ne (hcut.scale_pos hindexed.accepted), hchunk] at hwritten
  have hsame : chunk = items[r.index].chunk := Except.ok.inj hwritten
  refine ⟨?_, hs, hb⟩
  rw [hsame]
  exact hcut

end Opened

section Query
variable {σ D K : Type} [LinearOrder K] {host : IndexHost σ} {args : Arguments D}
variable {pq : PriorityQueue (SearchResult.score (K := K))} {floats : FloatOps K}

/-- For all inputs, embedding models and outcomes: when an `index` command has completed and a
`query` maps the file it has left and completes too, the query prints one entry for each result
of its search, and every entry shows a range of an input as it was read, with the path of the
command line and the entry of the scales it was cut under. -/
theorem index_then_query (showScore : K → Bytes) {fs fs' : FileSystem String} {line : Bytes}
    (hindex : runIndex host args fs = (.ok line, fs'))
    {queryHost : QueryHost} {queryArgs : Arguments D} (hfiles : queryHost.mapFile = mapFile fs')
    (hpath : queryArgs.index = args.output)
    (hquery : (runQuery pq floats showScore queryHost queryArgs).result = .ok ()) :
    ∃ documents entries found, Indexed host args documents entries ∧
      Found pq floats queryHost queryArgs found ∧
      outputText (runQuery pq floats showScore queryHost queryArgs).events =
        (listing showScore found).flatten ∧
      ∀ entry ∈ found, Shows documents entries entry := by
  obtain ⟨found, hfound, houtput⟩ := runQuery_ok pq floats showScore queryHost queryArgs hquery
  obtain ⟨img, index, embed, queryEmbedding, hmap, hopen, -, -, hsearch, hchunks⟩ := id hfound
  rw [hfiles, hpath] at hmap
  obtain ⟨documents, entries, hindexed, hshows⟩ := answering_of_runIndex K hindex
  exact ⟨documents, entries, found, hindexed, hfound, houtput, fun entry hentry =>
    hshows img hmap pq _ floats index _ _ _ _ hopen hsearch _ (List.mem_map_of_mem hentry) _
      (hchunks entry hentry)⟩

end Query

/-! What a question is answered from. -/

section Question
variable {σ D K : Type} {host : IndexHost σ} {args : Arguments D}
variable {askHost : AskHost} {askArgs : AskArguments}

variable [LinearOrder K]
variable {pq : PriorityQueue (SearchResult.score (K := K))} {floats : FloatOps K}

end Question

/-! A file of two bytes, and a query for it. -/

theorem letter_indexed : runIndex letterHost letterArguments .empty =
    (.ok (ascii "indexed 1 chunks (1 dimensions) into i\n"),
      (runIndex letterHost letterArguments .empty).2) :=
  Prod.ext (by decide +kernel) rfl

def letterQuery : Arguments Unit :=
  { command := ascii "query", model := ascii "m", index := ascii "i", query := ascii "q",
    metric := .dotProduct, temperature := (), topP := () }

def letterQueryHost : QueryHost where
  mapFile := mapFile (runIndex letterHost letterArguments .empty).2
  loadEmbedder := .ok fun _ => .ok [oneF]
  memory := .unbounded

theorem index_then_query_letter :
    ∃ documents entries found, Indexed letterHost letterArguments documents entries ∧
      Found (preferring SearchResult.score ⟨0, 1, 0, 1, 0⟩) sampleOps letterQueryHost
        letterQuery found ∧
      outputText (runQuery (preferring SearchResult.score ⟨0, 1, 0, 1, 0⟩) sampleOps showNat
        letterQueryHost letterQuery).events = (listing showNat found).flatten ∧
      ∀ entry ∈ found, Shows documents entries entry :=
  index_then_query showNat letter_indexed rfl rfl (by decide +kernel)

/-! And a question. -/

end CppRag
