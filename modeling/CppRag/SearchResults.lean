import CppRag.SearchHeaps

/-!
`search` as a whole. On an open index no accessor fails, so the scan offers every item
of finite score to its heap and `search` returns what merging the heaps gives.
-/
namespace CppRag
open Observed Ranking

section Items
variable {K : Type} (ops : FloatOps K)

/-- The norm the scan divides by. -/
def searchNorm (metric : Metric) (query : List FloatBits) : FloatBits :=
  match metric with
  | .cosine => ops.sqrt (sumProducts ops (0, 0, 0, 0) query query)
  | .dotProduct => oneF

/-- All items of the index whose score is finite, in index order. -/
def finiteItems (index : MmapIndex) (metric : Metric) (query : List FloatBits)
    (count : Nat) : List (SearchResult K) :=
  (List.range count).filterMap fun i =>
    (candidate ops index metric query (searchNorm ops metric query) i).result.toOption.join

variable {ops}

theorem dotProduct_result {lhs rhs : List FloatBits} (h : lhs.length = rhs.length) :
    (dotProduct ops lhs rhs).result = .ok (sumProducts ops (0, 0, 0, 0) lhs rhs) := by
  simp [dotProduct, bind_ok_iff, h]

theorem queryNorm_result (metric : Metric) (query : List FloatBits) :
    (queryNorm ops metric query).result = .ok (searchNorm ops metric query) := by
  cases metric with
  | cosine => rw [queryNorm, bind_of_ok (dotProduct_result rfl)]; rfl
  | dotProduct => rfl

theorem ofNat_lt_itemCount {img : Image} {i : Nat} (hi : i < img.header.itemCount.toNat) :
    UInt64.ofNat i < img.header.itemCount := by
  have hlt := img.header.itemCount.toNat_lt
  rw [UInt64.lt_iff_toNat_lt, UInt64.toNat_ofNat_of_lt' (by rw [UInt64.size]; omega)]
  exact hi

theorem scoreItem_result {img : Image} (ha : Accepts img) {metric : Metric}
    {query : List FloatBits} (hquery : query.length = img.header.dimensions.toNat)
    (norm : FloatBits) {i : Nat} (hi : i < img.header.itemCount.toNat) :
    ∃ bits, (scoreItem ops ⟨some img⟩ metric query norm i).result = .ok bits := by
  have hi' := ofNat_lt_itemCount hi
  rw [scoreItem, bind_of_ok (MmapIndex.embedding_result ha hi'),
    bind_of_ok (dotProduct_result (by rw [length_decodeFloats, hquery]))]
  cases metric with
  | dotProduct => exact ⟨_, rfl⟩
  | cosine => exact ⟨_, by rw [bind_of_ok (MmapIndex.norm_result hi')]; rfl⟩

/-- A candidate is the item it was made from, with its finite score. -/
theorem candidate_some_iff (index : MmapIndex) (metric : Metric) (query : List FloatBits)
    (norm : FloatBits) (i : Nat) (r : SearchResult K) :
    (candidate ops index metric query norm i).result = .ok (some r) ↔
      r.index = i ∧ r.rankWithinScale = 0 ∧
      (∃ bits, (scoreItem ops index metric query norm i).result = .ok bits ∧
        ops.finite bits = some r.score) ∧
      (index.scale (UInt64.ofNat i)).result = .ok r.scale ∧
      (index.scaleBytes (UInt64.ofNat i)).result = .ok r.scaleBytes := by
  obtain ⟨index', score, scale, scaleBytes, rank⟩ := r
  rw [candidate, bind_ok_iff]
  constructor
  · rintro ⟨bits, hbits, hrest⟩
    cases hfinite : ops.finite bits with
    | none => simp [hfinite] at hrest
    | some value =>
        simp only [hfinite, bind_ok_iff, result_pure] at hrest
        obtain ⟨s, hs, b, hb, hr⟩ := hrest
        cases hr
        exact ⟨rfl, rfl, ⟨bits, hbits, hfinite⟩, hs, hb⟩
  · rintro ⟨rfl, rfl, ⟨bits, hbits, hfinite⟩, hs, hb⟩
    refine ⟨bits, hbits, ?_⟩
    simp only [hfinite]
    rw [bind_of_ok hs, bind_of_ok hb]
    rfl

theorem candidate_result {img : Image} (ha : Accepts img) {metric : Metric}
    {query : List FloatBits} (hquery : query.length = img.header.dimensions.toNat)
    (norm : FloatBits) {i : Nat} (hi : i < img.header.itemCount.toNat) :
    ∃ c, (candidate ops ⟨some img⟩ metric query norm i).result = .ok c := by
  obtain ⟨bits, hbits⟩ : ∃ bits, (scoreItem ops ⟨some img⟩ metric query norm i).result = .ok bits :=
    scoreItem_result ha hquery norm hi
  have hi' := ofNat_lt_itemCount hi
  cases hfinite : ops.finite bits with
  | none =>
      refine ⟨none, ?_⟩
      rw [candidate, bind_of_ok hbits, hfinite]
      rfl
  | some value =>
      let r := img.record (UInt64.ofNat i)
      exact ⟨some ⟨i, value, r.scale, r.scaleBytes, 0⟩,
        (candidate_some_iff _ _ _ _ _ _).mpr ⟨rfl, rfl, ⟨bits, hbits, hfinite⟩,
          MmapIndex.scale_result hi', MmapIndex.scaleBytes_result hi'⟩⟩

/-- Where every score is finite, every item is a candidate. -/
theorem finiteItems_scales {img : Image} (ha : Accepts img) (metric : Metric)
    {query : List FloatBits} (hquery : query.length = img.header.dimensions.toNat)
    (hfinite : ∀ bits, (ops.finite bits).isSome) :
    (finiteItems ops ⟨some img⟩ metric query img.header.itemCount.toNat).map
        SearchResult.scale =
      (List.range img.header.itemCount.toNat).map fun i =>
        (img.record (UInt64.ofNat i)).scale := by
  rw [finiteItems, List.map_filterMap, ← List.filterMap_eq_map]
  refine List.filterMap_congr fun i hi => ?_
  have hi := List.mem_range.mp hi
  obtain ⟨bits, hbits⟩ : ∃ bits, (scoreItem ops ⟨some img⟩ metric query
      (searchNorm ops metric query) i).result = .ok bits := scoreItem_result ha hquery _ hi
  obtain ⟨value, hvalue⟩ := Option.isSome_iff_exists.mp (hfinite bits)
  let r := img.record (UInt64.ofNat i)
  have hcandidate : (candidate ops ⟨some img⟩ metric query (searchNorm ops metric query)
      i).result = .ok (some ⟨i, value, r.scale, r.scaleBytes, 0⟩) :=
    (candidate_some_iff _ _ _ _ _ _).mpr ⟨rfl, rfl, ⟨bits, hbits, hvalue⟩,
      MmapIndex.scale_result (ofNat_lt_itemCount hi),
      MmapIndex.scaleBytes_result (ofNat_lt_itemCount hi)⟩
  rw [hcandidate]
  rfl

theorem mem_finiteItems_iff (index : MmapIndex) (metric : Metric) (query : List FloatBits)
    (count : Nat) (r : SearchResult K) : r ∈ finiteItems ops index metric query count ↔
      r.index < count ∧ (candidate ops index metric query (searchNorm ops metric query)
        r.index).result = .ok (some r) := by
  rw [finiteItems, List.mem_filterMap]
  have hjoin : ∀ i, (candidate ops index metric query (searchNorm ops metric query)
      i).result.toOption.join = some r ↔ (candidate ops index metric query
        (searchNorm ops metric query) i).result = .ok (some r) := by
    intro i
    cases hresult : (candidate ops index metric query (searchNorm ops metric query) i).result with
    | error e => simp [Except.toOption]
    | ok c => cases c <;> simp [Except.toOption]
  constructor
  · rintro ⟨i, hi, hr⟩
    rw [hjoin] at hr
    have hindex := ((candidate_some_iff index metric query _ i r).mp hr).1
    rw [hindex]
    exact ⟨List.mem_range.mp hi, hr⟩
  · rintro ⟨hi, hr⟩
    exact ⟨r.index, List.mem_range.mpr hi, (hjoin _).mpr hr⟩

theorem finiteItems_rank {index : MmapIndex} {metric : Metric} {query : List FloatBits}
    {count : Nat} {r : SearchResult K} (h : r ∈ finiteItems ops index metric query count) :
    r.rankWithinScale = 0 :=
  ((candidate_some_iff _ _ _ _ _ _).mp ((mem_finiteItems_iff _ _ _ _ _).mp h).2).2.1

theorem finiteItems_increasing (index : MmapIndex) (metric : Metric) (query : List FloatBits)
    (count : Nat) : (finiteItems ops index metric query count).Pairwise
      fun a b => a.index < b.index := by
  have hindex : ∀ i r, (candidate ops index metric query (searchNorm ops metric query)
      i).result.toOption.join = some r → r.index = i := by
    intro i r hr
    cases hresult : (candidate ops index metric query (searchNorm ops metric query) i).result with
    | error e => simp [hresult, Except.toOption] at hr
    | ok c =>
        cases c with
        | none => simp [hresult, Except.toOption] at hr
        | some c =>
            simp only [hresult, Except.toOption, Option.join_some, Option.some.injEq] at hr
            rw [← hr]
            exact ((candidate_some_iff index metric query _ i c).mp hresult).1
  rw [finiteItems, List.pairwise_filterMap]
  refine List.pairwise_lt_range.imp ?_
  intro i j hij a ha b hb
  rw [hindex i a ha, hindex j b hb]
  exact hij

theorem finiteItems_nodup (index : MmapIndex) (metric : Metric) (query : List FloatBits)
    (count : Nat) :
    ((finiteItems ops index metric query count).map SearchResult.index).Nodup := by
  rw [List.Nodup, List.pairwise_map]
  exact (finiteItems_increasing index metric query count).imp Nat.ne_of_lt

end Items

section Ranks
variable {K : Type}

/-- A result without the rank the final pass gave it. -/
def SearchResult.unranked (r : SearchResult K) : SearchResult K :=
  { r with rankWithinScale := 0 }

theorem unranked_assignRanks (scaleRank : Std.TreeMap UInt32 Nat)
    (results : List (SearchResult K)) :
    (assignRanks scaleRank results).map SearchResult.unranked =
      results.map SearchResult.unranked := by
  induction results generalizing scaleRank with
  | nil => rfl
  | cons result results ih =>
      simp only [assignRanks, List.map_cons, ih]
      rfl

end Ranks

section Result
variable {K : Type} [LinearOrder K] (pq : PriorityQueue (SearchResult.score (K := K)))
variable {memory : Memory} {ops : FloatOps K} {img : Image}
variable {query : List FloatBits} {options : SearchOptions}

theorem scanItems_result (ha : Accepts img) {metric : Metric}
    (hquery : query.length = img.header.dimensions.toNat) (heapSize : Nat) :
    (scanItems pq ops ⟨some img⟩ metric query (searchNorm ops metric query) heapSize
        img.header.itemCount.toNat).result = .ok
      (scanHeaps pq heapSize
        (finiteItems ops ⟨some img⟩ metric query img.header.itemCount.toNat)) := by
  rw [scanHeaps, finiteItems, List.foldl_filterMap]
  refine foldRange_result _ _ fun i perScale hi => ?_
  obtain ⟨c, hc⟩ : ∃ c, (candidate ops ⟨some img⟩ metric query (searchNorm ops metric query)
      i).result = .ok c := candidate_result ha hquery (searchNorm ops metric query) hi
  rw [bind_of_ok hc, hc]
  cases c <;> rfl

/-- An open index is an accepted image with the counts of its header. -/
theorem opened_cases {index : MmapIndex} (hopen : (MmapIndex.openImage img).result = .ok index)
    {dimensions count : UInt64} (hdimensions : index.dimensions.result = .ok dimensions)
    (hcount : index.size.result = .ok count) :
    Accepts img ∧ index = ⟨some img⟩ ∧ dimensions.toNat = img.header.dimensions.toNat ∧
      count = img.header.itemCount := by
  obtain ⟨ha, rfl⟩ := (MmapIndex.openImage_ok_iff img index).mp hopen
  rw [MmapIndex.dimensions_result] at hdimensions
  rw [MmapIndex.size_result] at hcount
  cases hdimensions
  cases hcount
  exact ⟨ha, rfl, UInt32.toNat_toUInt64 _, rfl⟩

theorem Accepts.limit_pos (ha : Accepts img) {topK : Nat} (htop : 0 < topK) :
    0 < min topK img.header.itemCount.toNat := by
  have hpos : img.header.itemCount.toNat ≠ 0 :=
    fun hzero => ha.header.itemCount (UInt64.toNat_inj.mp hzero)
  omega

/-- What `search` returns on an open index, when there is room for it. -/
theorem search_ok_iff (ha : Accepts img)
    (hquery : query.length = img.header.dimensions.toNat)
    (hnorm : options.metric = .cosine → ops.isZero (searchNorm ops .cosine query) = false)
    {topK : Nat} (htop : 0 < topK) (results : List (SearchResult K)) :
    (search pq memory ops ⟨some img⟩ query topK options).result = .ok results ↔
      memory.ReservesResults
          (scaleCount (finiteItems ops ⟨some img⟩ options.metric query
            img.header.itemCount.toNat))
          (heapCapacity (min topK img.header.itemCount.toNat) options.maxPerScale) ∧
        mergeHeaps pq (min topK img.header.itemCount.toNat)
          (scanHeaps pq
            (heapCapacity (min topK img.header.itemCount.toNat) options.maxPerScale)
            (finiteItems ops ⟨some img⟩ options.metric query
              img.header.itemCount.toNat)) = results := by
  have hcount := ha.header.itemCount
  have hempty : ¬(topK = 0 ∨ img.header.itemCount = 0) := by
    rintro (hzero | hzero)
    · omega
    · exact hcount hzero
  have hnonzero : ¬(options.metric = .cosine ∧
      ops.isZero (searchNorm ops options.metric query) = true) := by
    rintro ⟨hmetric, hzero⟩
    rw [hmetric, hnorm hmetric] at hzero
    cases hzero
  rw [search, bind_of_ok (MmapIndex.dimensions_result img),
    bind_of_ok ((failIf_ok_iff _ _ ()).mpr (by simp [hquery])),
    bind_of_ok (MmapIndex.size_result img), if_neg hempty,
    bind_of_ok (queryNorm_result _ _), if_neg hnonzero]
  simp only
  rw [bind_of_ok (scanItems_result pq ha hquery _), bind_ok_iff, size_scanHeaps]
  constructor
  · rintro ⟨_, hroom, hresults⟩
    exact ⟨reserveResults_ok_iff.mp hroom, Except.ok.inj hresults⟩
  · rintro ⟨hroom, rfl⟩
    exact ⟨(), reserveResults_ok_iff.mpr hroom, rfl⟩

/-- The merge only adds ranks to the sorted results and cuts them. -/
theorem unranked_mergeHeaps (topK : Nat) (perScale : PerScale pq)
    (h : ∀ r ∈ sortResults (drainHeaps pq perScale), r.rankWithinScale = 0) :
    (mergeHeaps pq topK perScale).map SearchResult.unranked =
      (sortResults (drainHeaps pq perScale)).take topK := by
  have hsame : ∀ r ∈ sortResults (drainHeaps pq perScale), r.unranked = id r := by
    intro r hr
    obtain ⟨index, score, scale, scaleBytes, rank⟩ := r
    cases h _ hr
    rfl
  rw [mergeHeaps, List.map_take, unranked_assignRanks, List.map_congr_left hsame, List.map_id]

/-- A search that returns was given a query of the dimensions of the index. -/
theorem search_query_length {pq : PriorityQueue (SearchResult.score (K := K))} {topK : Nat}
    {results : List (SearchResult K)}
    (h : (search pq memory ops ⟨some img⟩ query topK options).result = .ok results) :
    query.length = img.header.dimensions.toNat := by
  rw [search, bind_of_ok (MmapIndex.dimensions_result img), bind_ok_iff] at h
  obtain ⟨_, hchecked, -⟩ := h
  rwa [failIf_ok_iff, UInt32.toNat_toUInt64, decide_eq_false_iff_not, ne_eq, not_not] at hchecked

/-- Without a query norm nothing can be scored. -/
theorem search_unnormed (hquery : query.length = img.header.dimensions.toNat)
    (hmetric : options.metric = .cosine)
    (hzero : ops.isZero (searchNorm ops .cosine query) = true) (topK : Nat) :
    (search pq memory ops ⟨some img⟩ query topK options).result = .ok [] := by
  rw [search, bind_of_ok (MmapIndex.dimensions_result img),
    bind_of_ok ((failIf_ok_iff _ _ ()).mpr (by simp [hquery])),
    bind_of_ok (MmapIndex.size_result img)]
  split
  · rfl
  · rw [bind_of_ok (queryNorm_result _ _), hmetric, if_pos ⟨rfl, hzero⟩]
    rfl

theorem search_zero (hquery : query.length = img.header.dimensions.toNat) :
    (search pq memory ops ⟨some img⟩ query 0 options).result = .ok [] := by
  rw [search, bind_of_ok (MmapIndex.dimensions_result img),
    bind_of_ok ((failIf_ok_iff _ _ ()).mpr (by simp [hquery])),
    bind_of_ok (MmapIndex.size_result img), if_pos (.inl rfl)]
  rfl

end Result

end CppRag
