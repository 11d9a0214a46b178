import CppRag.IndexRoundTrip
import CppRag.SearchResults
import CppRag.Foundation.PriorityQueueTies

/-!
The quota search is score-optimal: its results have the scores of the naive walk that
takes finite items best first while their scale has room, although each heap is cut to
the quota or to `top_k` beforehand and decides ties as it likes.
-/
namespace CppRag
open Observed Ranking PriorityQueue

section Naive
variable {K : Type}

/-- Walks ranked items, keeps an item while fewer than `quota` of its scale are kept
(always when `quota` is 0), and stops at `limit`. -/
def naiveWalk (quota limit : Nat) (kept : List (SearchResult K)) :
    List (SearchResult K) → List (SearchResult K)
  | [] => kept
  | item :: walk =>
      if kept.length = limit then kept
      else if quota = 0 ∨ (ofScale item.scale kept).length < quota then
        naiveWalk quota limit (kept ++ [item]) walk
      else naiveWalk quota limit kept walk

/-- The same walk without a limit. -/
def keepQuota (quota : Nat) (kept : List (SearchResult K)) :
    List (SearchResult K) → List (SearchResult K)
  | [] => kept
  | item :: walk =>
      if quota = 0 ∨ (ofScale item.scale kept).length < quota then
        keepQuota quota (kept ++ [item]) walk
      else keepQuota quota kept walk

def takeQuota {α : Type} (quota : Nat) (xs : List α) : List α :=
  if quota = 0 then xs else xs.take quota

theorem keepQuota_eq_append (quota : Nat) (kept walk : List (SearchResult K)) :
    ∃ more, more.Sublist walk ∧ keepQuota quota kept walk = kept ++ more := by
  induction walk generalizing kept with
  | nil => exact ⟨[], List.nil_sublist _, (List.append_nil kept).symm⟩
  | cons item walk ih =>
      unfold keepQuota
      split
      · obtain ⟨more, hsub, heq⟩ := ih (kept ++ [item])
        exact ⟨item :: more, hsub.cons_cons item, by rw [heq, List.append_assoc]; rfl⟩
      · obtain ⟨more, hsub, heq⟩ := ih kept
        exact ⟨more, hsub.cons item, heq⟩

theorem naiveWalk_eq_take (quota limit : Nat) (kept walk : List (SearchResult K))
    (h : kept.length ≤ limit) :
    naiveWalk quota limit kept walk = (keepQuota quota kept walk).take limit := by
  induction walk generalizing kept with
  | nil => exact (List.take_of_length_le h).symm
  | cons item walk ih =>
      unfold naiveWalk
      split
      · next hfull =>
          obtain ⟨more, -, heq⟩ := keepQuota_eq_append quota kept (item :: walk)
          rw [heq, ← hfull, List.take_left]
      · next hroom =>
          unfold keepQuota
          split
          · exact ih _ (by rw [List.length_append, List.length_singleton]; omega)
          · exact ih _ h

/-- Of each scale the walk keeps the first `quota` items. -/
theorem ofScale_keepQuota (quota : Nat) (scale : UInt32) (kept walk : List (SearchResult K))
    (h : quota = 0 ∨ (ofScale scale kept).length ≤ quota) :
    ofScale scale (keepQuota quota kept walk) =
      takeQuota quota (ofScale scale kept ++ ofScale scale walk) := by
  induction walk generalizing kept with
  | nil =>
      have hnil : ofScale scale ([] : List (SearchResult K)) = [] := rfl
      rw [keepQuota, takeQuota, hnil, List.append_nil]
      split
      · rfl
      · next hquota => rw [List.take_of_length_le (h.resolve_left hquota)]
  | cons item walk ih =>
      unfold keepQuota
      by_cases hscale : item.scale = scale
      · rw [ofScale_cons_self hscale, hscale]
        split
        · next hroom =>
            have happ : ofScale scale (kept ++ [item]) = ofScale scale kept ++ [item] := by
              rw [ofScale_append, ofScale_cons_self hscale]
              rfl
            rw [ih, happ, List.append_assoc]
            · rfl
            · rw [happ, List.length_append, List.length_singleton]
              omega
        · next hfull =>
            rw [not_or] at hfull
            have hlen : (ofScale scale kept).length = quota := by omega
            rw [ih kept h, takeQuota, takeQuota, if_neg hfull.1, if_neg hfull.1, ← hlen,
              List.take_left, List.take_left]
      · rw [ofScale_cons_other hscale]
        split
        · have happ : ofScale scale (kept ++ [item]) = ofScale scale kept := by
            rw [ofScale_append, ofScale_cons_other hscale]
            exact List.append_nil _
          rw [ih _ (by rw [happ]; exact h), happ]
        · exact ih kept h

theorem take_takeQuota {α : Type} (limit quota : Nat) (xs : List α) :
    (takeQuota quota xs).take limit = (xs.take (heapCapacity limit quota)).take limit := by
  unfold takeQuota heapCapacity
  split
  · rw [List.take_take, Nat.min_self]
  · rw [List.take_take, List.take_take, ← Nat.min_assoc, Nat.min_self]

end Naive

section Optimal
variable {K : Type} [LinearOrder K] {items merged : List (SearchResult K)}
variable {limit quota : Nat}

/-- What a search for `limit` results with a per-scale quota owes its caller, given all
items of finite score; a quota of 0 is none. -/
structure QuotaOptimal (items : List (SearchResult K)) (limit quota : Nat)
    (found : List (SearchResult K)) : Prop where
  found_mem : ∀ r ∈ found, r ∈ items
  distinct : (found.map SearchResult.index).Nodup
  ordered : Ordered found
  quota_le : 0 < quota → ∀ scale, (ofScale scale found).length ≤ quota
  scores : ∀ walk, walk.Perm items → Ranked (walk.map SearchResult.score) →
    found.map SearchResult.score =
      (naiveWalk quota limit [] walk).map SearchResult.score
  missed : ∀ item ∈ items, item ∉ found →
    (found.length = limit ∧ ∀ r ∈ found, item.score ≤ r.score) ∨
      (0 < quota ∧ (ofScale item.scale found).length = quota ∧
        ∀ r ∈ found, r.scale = item.scale → item.score ≤ r.score)

theorem heapCapacity_pos (hlimit : 0 < limit) (quota : Nat) :
    0 < heapCapacity limit quota := by
  unfold heapCapacity
  split <;> omega

theorem heapCapacity_le_quota (hquota : 0 < quota) : heapCapacity limit quota ≤ quota := by
  unfold heapCapacity
  split <;> omega

/-- A capacity is the limit, or the quota when there is a lower one. -/
theorem heapCapacity_eq (limit quota : Nat) : heapCapacity limit quota = limit ∨
    0 < quota ∧ heapCapacity limit quota = quota := by
  unfold heapCapacity
  split <;> omega

theorem Merged.ofScale_length_le {capacity : Nat} (h : Merged capacity items merged)
    (scale : UInt32) : (ofScale scale merged).length ≤ capacity := by
  obtain ⟨_, _, hlen, _⟩ := h.retained scale
  omega

/-- A scale's share of the merged list has the best scores of that scale. -/
theorem Merged.scores_of_scale {capacity : Nat} (h : Merged capacity items merged)
    {walk : List (SearchResult K)} (hperm : walk.Perm items)
    (hwalk : Ranked (walk.map SearchResult.score)) (scale : UInt32) :
    (ofScale scale merged).map SearchResult.score =
      ((ofScale scale walk).map SearchResult.score).take capacity := by
  obtain ⟨dropped, hsplit, hlen, hle⟩ := h.retained scale
  have hpart : (ofScale scale walk).Perm (ofScale scale items) := hperm.filter _
  refine keys_eq_take (hwalk.sublist (List.filter_sublist.map _))
    ((ranked_of_ordered h.ordered).sublist (List.filter_sublist.map _)) ?_ ?_ hle
  · rw [← hsplit]
    exact Multiset.coe_eq_coe.mpr hpart
  · rw [hlen, hpart.length_eq]

/-- Cutting the scales to the capacity first does not change the scores of the walk. -/
theorem Merged.scores_eq_naive (h : Merged (heapCapacity limit quota) items merged)
    {walk : List (SearchResult K)} (hperm : walk.Perm items)
    (hwalk : Ranked (walk.map SearchResult.score)) :
    (merged.take limit).map SearchResult.score =
      (naiveWalk quota limit [] walk).map SearchResult.score := by
  obtain ⟨more, hsub, hmore⟩ := keepQuota_eq_append quota [] walk
  have hkept : Ranked ((keepQuota quota [] walk).map SearchResult.score) := by
    rw [hmore, List.nil_append]
    exact hwalk.sublist (hsub.map _)
  rw [naiveWalk_eq_take quota limit [] walk (Nat.zero_le _), List.map_take, List.map_take]
  refine take_eq_of_parts SearchResult.scale (ranked_of_ordered h.ordered) hkept fun scale => ?_
  have hscale := ofScale_keepQuota quota scale [] walk (.inr (Nat.zero_le _))
  have hnil : ofScale scale ([] : List (SearchResult K)) = [] := rfl
  rw [hnil, List.nil_append] at hscale
  calc ((ofScale scale merged).map SearchResult.score).take limit
      = (((ofScale scale walk).map SearchResult.score).take
          (heapCapacity limit quota)).take limit := by
        rw [h.scores_of_scale hperm hwalk]
    _ = (takeQuota quota ((ofScale scale walk).map SearchResult.score)).take limit :=
        (take_takeQuota limit quota _).symm
    _ = ((ofScale scale (keepQuota quota [] walk)).map SearchResult.score).take limit := by
        rw [hscale, takeQuota, takeQuota]
        split
        · rfl
        · rw [List.map_take]

/-- Results past the cut-off are no better than the ones before it. -/
theorem Merged.cut {capacity : Nat} (h : Merged capacity items merged)
    {result : SearchResult K} (hmem : result ∈ merged) (hcut : result ∉ merged.take limit) :
    (merged.take limit).length = limit ∧ ∀ r ∈ merged.take limit, result.score ≤ r.score := by
  have hsplit := List.take_append_drop limit merged
  have hrest : result ∈ merged.drop limit := by
    rw [← hsplit] at hmem
    exact (List.mem_append.mp hmem).resolve_left hcut
  have hord := h.ordered
  rw [← hsplit, Ordered, List.pairwise_append] at hord
  refine ⟨?_, fun r hr => betterResult_score (hord.2.2 r hr result hrest)⟩
  have hpos := List.length_pos_of_mem hrest
  rw [List.length_drop] at hpos
  rw [List.length_take]
  omega

/-- A scale none of whose merged results is cut off keeps its share. -/
theorem Merged.ofScale_take {capacity : Nat} {scale : UInt32}
    (h : Merged capacity items merged)
    (hall : ∀ m ∈ ofScale scale merged, m ∈ merged.take limit) :
    ofScale scale (merged.take limit) = ofScale scale merged := by
  have hsplit := List.take_append_drop limit merged
  have hnodup := nodup_of_ordered h.ordered
  rw [← hsplit, List.nodup_append] at hnodup
  have hrest : ofScale scale (merged.drop limit) = [] := by
    refine List.eq_nil_iff_forall_not_mem.mpr fun m hm => ?_
    have hdrop := (List.mem_filter.mp hm).1
    have htake := hall m
      (List.mem_filter.mpr ⟨List.mem_of_mem_drop hdrop, (List.mem_filter.mp hm).2⟩)
    exact hnodup.2.2 m htake m hdrop rfl
  conv_rhs => rw [← hsplit, ofScale_append, hrest, List.append_nil]

theorem Merged.missed (h : Merged (heapCapacity limit quota) items merged)
    {item : SearchResult K} (hitem : item ∈ items) (hnot : item ∉ merged.take limit) :
    ((merged.take limit).length = limit ∧ ∀ r ∈ merged.take limit, item.score ≤ r.score) ∨
      (0 < quota ∧ (ofScale item.scale (merged.take limit)).length = quota ∧
        ∀ r ∈ merged.take limit, r.scale = item.scale → item.score ≤ r.score) := by
  by_cases hmerged : item ∈ merged
  · exact .inl (h.cut hmerged hnot)
  -- The item was dropped by its heap, so the heap is full of items at least as good.
  obtain ⟨dropped, hsplit, hlen, hle⟩ := h.retained item.scale
  have hmem : item ∈ (ofScale item.scale items : Multiset (SearchResult K)) :=
    List.mem_filter.mpr ⟨hitem, by simp⟩
  have hdropped : item ∈ dropped := by
    rw [hsplit] at hmem
    refine (Multiset.mem_add.mp hmem).resolve_left fun hkept => hmerged ?_
    exact (List.mem_filter.mp hkept).1
  have hfull : (ofScale item.scale merged).length = heapCapacity limit quota := by
    have hcard := congrArg Multiset.card hsplit
    have hpos := Multiset.card_pos_iff_exists_mem.mpr ⟨item, hdropped⟩
    rw [Multiset.card_add, Multiset.coe_card, Multiset.coe_card] at hcard
    omega
  by_cases hall : ∀ m ∈ ofScale item.scale merged, m ∈ merged.take limit
  · have hsame := h.ofScale_take hall
    have hbelow : ∀ r ∈ merged.take limit, r.scale = item.scale → item.score ≤ r.score := by
      intro r hr hscale
      exact hle item hdropped r
        (List.mem_filter.mpr ⟨List.mem_of_mem_take hr, by simpa using hscale⟩)
    rcases heapCapacity_eq limit quota with hcap | ⟨hquota, hcap⟩
    · -- The whole limit is filled from this one scale.
      have hlength : (ofScale item.scale (merged.take limit)).length = limit := by
        rw [hsame, hfull, hcap]
      have hle_take : (ofScale item.scale (merged.take limit)).length ≤
          (merged.take limit).length := List.length_filter_le _ _
      have htake : (merged.take limit).length = limit := by
        have := List.length_take_le limit merged
        omega
      refine .inl ⟨htake, fun r hr => hbelow r hr ?_⟩
      have hevery := List.length_filter_eq_length_iff.mp (hlength.trans htake.symm)
      simpa using hevery r hr
    · exact .inr ⟨hquota, by rw [hsame, hfull, hcap], hbelow⟩
  · rw [not_forall] at hall
    obtain ⟨m, hm⟩ := hall
    rw [Classical.not_imp] at hm
    obtain ⟨hlength, hscore⟩ := h.cut (List.mem_filter.mp hm.1).1 hm.2
    exact .inl ⟨hlength, fun r hr => (hle item hdropped m hm.1).trans (hscore r hr)⟩

theorem Merged.quotaOptimal (hitems : (items.map SearchResult.index).Nodup)
    (h : Merged (heapCapacity limit quota) items merged) :
    QuotaOptimal items limit quota (merged.take limit) where
  found_mem := fun _ hr => h.mem_items (List.mem_of_mem_take hr)
  distinct := by
    refine (List.Nodup.map_on ?_ (nodup_of_ordered h.ordered)).sublist
      ((List.take_sublist limit merged).map _)
    intro a ha b hb hindex
    exact List.inj_on_of_nodup_map hitems (h.mem_items ha) (h.mem_items hb) hindex
  ordered := h.ordered.sublist (List.take_sublist _ _)
  quota_le := by
    intro hquota scale
    have hsub : (ofScale scale (merged.take limit)).length ≤ (ofScale scale merged).length :=
      ((List.take_sublist limit merged).filter _).length_le
    exact hsub.trans ((h.ofScale_length_le scale).trans (heapCapacity_le_quota hquota))
  scores := fun _ hperm hwalk => h.scores_eq_naive hperm hwalk
  missed := fun _ hitem hnot => h.missed hitem hnot

end Optimal

/-- Without its ranks, what `search` returns is the front of the merged heaps. -/
theorem search_merged {K : Type} [LinearOrder K]
    (pq : PriorityQueue (SearchResult.score (K := K))) {memory : Memory} {ops : FloatOps K}
    {img : Image} {query : List FloatBits} {options : SearchOptions} (ha : Accepts img)
    (hquery : query.length = img.header.dimensions.toNat)
    (hnorm : options.metric = .cosine → ops.isZero (searchNorm ops .cosine query) = false)
    {topK : Nat} (htop : 0 < topK) {results : List (SearchResult K)}
    (hok : (search pq memory ops ⟨some img⟩ query topK options).result = .ok results) :
    results.map SearchResult.unranked =
      (sortResults (drainHeaps pq (scanHeaps pq
        (heapCapacity (min topK img.header.itemCount.toNat) options.maxPerScale)
        (finiteItems ops ⟨some img⟩ options.metric query
          img.header.itemCount.toNat)))).take (min topK img.header.itemCount.toNat) := by
  have hcapacity := heapCapacity_pos (ha.limit_pos htop) options.maxPerScale
  have hitems : ((finiteItems ops ⟨some img⟩ options.metric query
      img.header.itemCount.toNat).map SearchResult.index).Nodup := finiteItems_nodup _ _ _ _
  have hmerged := merged_scanHeaps pq hcapacity hitems
  obtain ⟨-, rfl⟩ := (search_ok_iff pq ha hquery hnorm htop results).mp hok
  exact unranked_mergeHeaps pq _ _ fun r hr => finiteItems_rank (hmerged.mem_items hr)

section Found
variable {K : Type} [LinearOrder K] (pq : PriorityQueue (SearchResult.score (K := K)))
variable (memory : Memory) (ops : FloatOps K)

/-- The results are items of the index with their own scores and scales, optimal under the
quota. -/
structure FoundOptimal (index : MmapIndex) (query : List FloatBits) (options : SearchOptions)
    (topK : Nat) (count : UInt64) (results : List (SearchResult K)) : Prop where
  own : ∀ r ∈ results, r.index < count.toNat ∧
    (∃ bits, (scoreItem ops index options.metric query
      (searchNorm ops options.metric query) r.index).result = .ok bits ∧
        ops.finite bits = some r.score) ∧
    (index.scale (UInt64.ofNat r.index)).result = .ok r.scale ∧
    (index.scaleBytes (UInt64.ofNat r.index)).result = .ok r.scaleBytes
  optimal : QuotaOptimal (finiteItems ops index options.metric query count.toNat)
    (min topK count.toNat) options.maxPerScale (results.map SearchResult.unranked)

/-- What a search of an open index finds is optimal under the quota, whatever the scores, the
scales and the heaps' choices among equal scores; and it finds something exactly when there is
room for as many results as the heaps of all scales could hold. -/
theorem search_quota_optimal_iff (img : Image) (index : MmapIndex)
    (hopen : (MmapIndex.openImage img).result = .ok index)
    (query : List FloatBits) (options : SearchOptions) (topK : Nat) (dimensions count : UInt64)
    (hdimensions : index.dimensions.result = .ok dimensions)
    (hcount : index.size.result = .ok count)
    (hquery : query.length = dimensions.toNat)
    (hnorm : options.metric = .cosine → ops.isZero (searchNorm ops .cosine query) = false)
    (htop : 0 < topK) :
    (∃ results, (search pq memory ops index query topK options).result = .ok results ∧
        FoundOptimal ops index query options topK count results) ↔
      memory.ReservesResults
        (scaleCount (finiteItems ops index options.metric query count.toNat))
        (heapCapacity (min topK count.toNat) options.maxPerScale) := by
  obtain ⟨ha, rfl, hdims, rfl⟩ := opened_cases hopen hdimensions hcount
  rw [hdims] at hquery
  have hlimit := ha.limit_pos htop
  have hitems : ((finiteItems ops ⟨some img⟩ options.metric query
      img.header.itemCount.toNat).map SearchResult.index).Nodup := finiteItems_nodup _ _ _ _
  constructor
  · rintro ⟨results, hok, -⟩
    exact ((search_ok_iff pq ha hquery hnorm htop results).mp hok).1
  · intro hroom
    have hmerged := merged_scanHeaps pq (heapCapacity_pos hlimit options.maxPerScale) hitems
    have hoptimal := hmerged.quotaOptimal hitems
    have hok := (search_ok_iff pq ha hquery hnorm htop _).mpr ⟨hroom, rfl⟩
    rw [← search_merged pq ha hquery hnorm htop hok] at hoptimal
    refine ⟨_, hok, fun r hr => ?_, hoptimal⟩
    have hmem := hoptimal.found_mem _ (List.mem_map_of_mem hr)
    obtain ⟨hlt, hresult⟩ := (mem_finiteItems_iff _ _ _ _ _).mp hmem
    obtain ⟨-, -, hscore, hscale, hbytes⟩ := (candidate_some_iff _ _ _ _ _ _).mp hresult
    exact ⟨hlt, hscore, hscale, hbytes⟩

end Found

section Sample

/-- Float arithmetic as it is on the values 0, 1 and 2 when a factor is 1. -/
def sampleOps : FloatOps Nat where
  add x y := if x = 0 then y else x
  mul x y := if y = oneF then x else y
  div x _ := x
  sqrt := id
  isZero x := x = 0
  finite x := if x = 0 then some 0 else if x = oneF then some 1 else some 2

/-- Items scoring 1, 1 and 2 against the query 1. -/
def sampleItems : List IndexItem :=
  [⟨⟨[97], [98], 0, 1, 0, 1⟩, [oneF]⟩, ⟨⟨[97], [99], 1, 2, 0, 1⟩, [oneF]⟩,
    ⟨⟨[97], [100], 2, 3, 0, 1⟩, [0x40000000]⟩]

def sampleImage : Image :=
  ⟨indexImage (fun v => v.headD 0) sampleItems 1, by decide +kernel⟩

theorem sampleImage_open :
    (MmapIndex.openImage sampleImage).result = .ok ⟨some sampleImage⟩ := by
  have hw : Writable sampleItems 1 := ⟨by decide, by decide, by decide, by decide⟩
  have haccepts : Accepts sampleImage := by
    refine (accepts_written_iff hw rfl (by decide)).mpr ?_
    intro item hitem
    simp only [sampleItems, List.mem_cons, List.not_mem_nil, or_false] at hitem
    rcases hitem with rfl | rfl | rfl <;> exact ⟨by decide, by decide⟩
  exact (MmapIndex.openImage_ok_iff _ _).mpr ⟨haccepts, rfl⟩

theorem sampleImage_dimensions :
    (MmapIndex.dimensions ⟨some sampleImage⟩).result = .ok 1 :=
  (MmapIndex.dimensions_result sampleImage).trans (congrArg Except.ok (by decide +kernel))

theorem sampleImage_size : (MmapIndex.size ⟨some sampleImage⟩).result = .ok 3 :=
  (MmapIndex.size_result sampleImage).trans (congrArg Except.ok (by decide +kernel))

theorem search_quota_optimal_sample :
    ∃ results, (search (preferring SearchResult.score ⟨0, 1, 0, 1, 0⟩) .unbounded sampleOps
        ⟨some sampleImage⟩ [oneF] 2 ⟨.dotProduct, 1⟩).result = .ok results ∧
      FoundOptimal sampleOps ⟨some sampleImage⟩ [oneF] ⟨.dotProduct, 1⟩ 2 3 results :=
  (search_quota_optimal_iff (preferring SearchResult.score ⟨0, 1, 0, 1, 0⟩) .unbounded sampleOps
    sampleImage ⟨some sampleImage⟩ sampleImage_open [oneF] ⟨.dotProduct, 1⟩ 2 1 3
    sampleImage_dimensions sampleImage_size rfl nofun (by decide)).mpr (by decide +kernel)

end Sample

/-! An index with a scale for each of its items. -/

section Wide

def wideItem (i : Nat) : IndexItem :=
  ⟨⟨[97], [98], UInt64.ofNat i, UInt64.ofNat i, UInt32.ofNat i, 1⟩, [oneF]⟩

def wideItems (count : Nat) : List IndexItem := (List.range count).map wideItem

theorem length_wideItems (count : Nat) : (wideItems count).length = count := by
  rw [wideItems, List.length_map, List.length_range]

theorem writable_wideItems {count : Nat} (hpos : 0 < count) : Writable (wideItems count) 1 := by
  refine ⟨?_, Nat.one_pos, by decide, fun item hitem => ?_⟩
  · rw [← List.length_pos_iff, length_wideItems]
    exact hpos
  · obtain ⟨i, -, rfl⟩ := List.mem_map.mp hitem
    rfl

theorem totalSize_wideItems {count : Nat} (hlt : count < 2 ^ 32) :
    totalSize (wideItems count) 1 < 2 ^ 63 := by
  have hstrings : ((wideItems count).flatMap itemStrings).length = 2 * count := by
    rw [wideItems, List.length_flatMap, List.map_map]
    have htwo : (fun item => (itemStrings item).length) ∘ wideItem = fun _ => 2 := rfl
    rw [htwo, List.map_const', List.length_range, List.sum_replicate, Nat.nsmul_eq_mul,
      Nat.mul_comm]
  rw [totalSize, hstrings, length_wideItems, stringsStart, vectorsStart]
  omega

variable {img : Image} {count : Nat}

theorem accepts_wide (hpos : 0 < count) (hlt : count < 2 ^ 32)
    (himg : img.bytes = indexImage (fun v => v.headD 0) (wideItems count) 1) : Accepts img := by
  refine (accepts_written_iff (writable_wideItems hpos) himg (totalSize_wideItems hlt)).mpr ?_
  intro item hitem
  obtain ⟨i, -, rfl⟩ := List.mem_map.mp hitem
  exact ⟨UInt64.le_iff_toNat_le.mpr (Nat.le_refl _), (by decide : (1 : UInt32) ≠ 0)⟩

/-- Every item has a finite score and a scale of its own. -/
theorem scaleCount_wide (hpos : 0 < count) (hlt : count < 2 ^ 32)
    (himg : img.bytes = indexImage (fun v => v.headD 0) (wideItems count) 1) :
    scaleCount (finiteItems sampleOps ⟨some img⟩ .dotProduct [oneF] count) = count := by
  have hw := writable_wideItems hpos
  have hsize := totalSize_wideItems hlt
  have hlayout := written_layout hw himg hsize
  have hcount := hlayout.count_eq
  rw [length_wideItems] at hcount
  have hquery : [oneF].length = img.header.dimensions.toNat := hlayout.dimensions_eq.symm
  have hfinite : ∀ bits, (sampleOps.finite bits).isSome := by
    intro bits
    unfold sampleOps
    simp only
    split
    · rfl
    · split <;> rfl
  have hscales := finiteItems_scales (accepts_wide hpos hlt himg) .dotProduct hquery hfinite
  have hrecords : ∀ i ∈ List.range count,
      (img.record (UInt64.ofNat i)).scale = UInt32.ofNat i := by
    intro i hi
    have hi := List.mem_range.mp hi
    have hindex : (UInt64.ofNat i).toNat = i :=
      UInt64.toNat_ofNat_of_lt' (by rw [UInt64.size]; omega)
    have hwithin : (UInt64.ofNat i).toNat < (wideItems count).length := by
      rwa [hindex, length_wideItems]
    rw [(written_recordFor hw himg hsize hwithin).scale]
    simp [wideItems, wideItem, hindex]
  rw [hcount, List.map_congr_left hrecords] at hscales
  have hnodup : ((List.range count).map UInt32.ofNat).Nodup := by
    refine List.Nodup.map_on ?_ List.nodup_range
    intro i hi j hj heq
    rw [List.mem_range] at hi hj
    have htoNat := congrArg UInt32.toNat heq
    rwa [UInt32.toNat_ofNat_of_lt' (by rw [UInt32.size]; omega),
      UInt32.toNat_ofNat_of_lt' (by rw [UInt32.size]; omega)] at htoNat
  rw [scaleCount, hscales, hnodup.dedup, List.length_map, List.length_range]

/-- An index of 7.6 megabytes, of 100000 items. -/
def wideImage : Image :=
  ⟨indexImage (fun v => v.headD 0) (wideItems 100000) 1, by
    rw [length_indexImage (writable_wideItems (by decide)) (by rw [length_wideItems]; decide)]
    exact (totalSize_wideItems (by decide)).trans (by decide)⟩

/-- A search that has 100000 results to give asks for room for 10 ^ 10 of them, and 64
gigabytes are not enough. -/
theorem search_quota_wide :
    (MmapIndex.openImage wideImage).result = .ok ⟨some wideImage⟩ ∧
      ¬∃ (pq : PriorityQueue (SearchResult.score (K := Nat))) (results : List (SearchResult Nat)),
        (search pq ⟨fun bytes => bytes ≤ 2 ^ 36⟩ sampleOps ⟨some wideImage⟩ [oneF] 100000
          ⟨.dotProduct, 0⟩).result = .ok results ∧
        FoundOptimal sampleOps ⟨some wideImage⟩ [oneF] ⟨.dotProduct, 0⟩ 100000 100000
          results := by
  have hw : Writable (wideItems 100000) 1 := writable_wideItems (by decide)
  have ha : Accepts wideImage := accepts_wide (by decide) (by decide) rfl
  have hlayout : HeaderLayout (wideItems 100000) 1 wideImage.header :=
    written_layout hw rfl (totalSize_wideItems (by decide))
  have hcount := hlayout.count_eq
  rw [length_wideItems] at hcount
  have hquery : [oneF].length = wideImage.header.dimensions.toNat := hlayout.dimensions_eq.symm
  refine ⟨(MmapIndex.openImage_ok_iff _ _).mpr ⟨ha, rfl⟩, ?_⟩
  rintro ⟨pq, results, hok, -⟩
  have hroom := ((search_ok_iff pq ha hquery (fun h => by cases h) (by decide) results).mp hok).1
  rw [hcount, scaleCount_wide (by decide) (by decide) rfl] at hroom
  exact absurd hroom (by decide)

end Wide

end CppRag
