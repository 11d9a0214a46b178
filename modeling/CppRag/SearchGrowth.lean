import CppRag.SearchQuota
import Mathlib.Data.List.NodupEquivFin

/-!
What a larger search adds. With a larger `top_k` the scores already returned stay where they are,
and with a larger quota, or none, no place of the result gets a lower score, whatever the heaps
of the two searches do with ties.
-/
namespace CppRag
open Observed Ranking PriorityQueue

section Dominated
variable {K : Type} [LinearOrder K]

/-- Every place of the first list is filled in the second, with a key that is no lower. -/
def Dominated (xs ys : List K) : Prop :=
  xs.length ≤ ys.length ∧ ∀ (i : Nat) (x y : K), xs[i]? = some x → ys[i]? = some y → x ≤ y

/-- Leaving keys out of a ranked list moves lower ones up. -/
theorem dominated_of_sublist {xs ys : List K} (h : xs.Sublist ys) (hys : Ranked ys) :
    Dominated xs ys := by
  refine ⟨h.length_le, fun i x y hx hy => ?_⟩
  obtain ⟨f, hf⟩ := List.sublist_iff_exists_orderEmbedding_getElem?_eq.mp h
  rw [hf i] at hx
  have hle : i ≤ f i := f.strictMono.le_apply
  obtain ⟨hfi, rfl⟩ := List.getElem?_eq_some_iff.mp hx
  obtain ⟨hi, rfl⟩ := List.getElem?_eq_some_iff.mp hy
  rcases hle.lt_or_eq with hlt | heq
  · exact List.pairwise_iff_getElem.mp hys i (f i) hi hfi hlt
  · simp only [← heq, le_refl]

theorem Dominated.take {xs ys : List K} (h : Dominated xs ys) {limit limit' : Nat}
    (hle : limit ≤ limit') : Dominated (xs.take limit) (ys.take limit') := by
  have htake : ∀ (keys : List K) (limit i : Nat) (key : K),
      (keys.take limit)[i]? = some key → keys[i]? = some key := by
    intro keys limit i key hkey
    rw [List.getElem?_take] at hkey
    split at hkey
    · exact hkey
    · cases hkey
  refine ⟨?_, fun i x y hx hy => h.2 i x y (htake xs limit i x hx) (htake ys limit' i y hy)⟩
  have hlength := h.1
  rw [List.length_take, List.length_take]
  omega

end Dominated

section Quota
variable {K : Type} {quota quota' : Nat}

/-- A walk that keeps fewer of a scale has not kept more of any. -/
theorem keepQuota_sublist (hquota : quota' = 0 ∨ 0 < quota ∧ quota ≤ quota')
    (walk : List (SearchResult K)) {kept kept' : List (SearchResult K)} (hkept : kept.Sublist kept')
    (hroom : ∀ scale, (ofScale scale kept).length = (ofScale scale kept').length ∨
      0 < quota ∧ quota ≤ (ofScale scale kept).length) :
    (keepQuota quota kept walk).Sublist (keepQuota quota' kept' walk) := by
  induction walk generalizing kept kept' with
  | nil => exact hkept
  | cons item walk ih =>
      have hscales : ∀ (found : List (SearchResult K)) (scale : UInt32),
          (ofScale scale (found ++ [item])).length =
            (ofScale scale found).length + if item.scale = scale then 1 else 0 := by
        intro found scale
        rw [ofScale_append, List.length_append]
        by_cases hscale : item.scale = scale
        · rw [ofScale_cons_self hscale, if_pos hscale]
          rfl
        · rw [ofScale_cons_other hscale, if_neg hscale]
          rfl
      unfold keepQuota
      by_cases hfits : quota = 0 ∨ (ofScale item.scale kept).length < quota
      · have hfits' : quota' = 0 ∨ (ofScale item.scale kept').length < quota' := by
          have := hroom item.scale
          omega
        rw [if_pos hfits, if_pos hfits']
        refine ih (hkept.append (List.Sublist.refl _)) fun scale => ?_
        rw [hscales, hscales]
        have := hroom scale
        omega
      · -- The scale is full in the first walk, whatever the second one does.
        rw [if_neg hfits]
        split
        · refine ih (hkept.trans (List.sublist_append_left _ _)) fun scale => ?_
          rw [hscales]
          by_cases hscale : item.scale = scale
          · subst hscale
            omega
          · rw [if_neg hscale]
            exact hroom scale
        · exact ih hkept hroom

theorem dominated_walks {K : Type} [LinearOrder K] {walk : List (SearchResult K)}
    (hwalk : Ranked (walk.map SearchResult.score))
    (hquota : quota' = 0 ∨ 0 < quota ∧ quota ≤ quota') {limit limit' : Nat}
    (hlimit : limit ≤ limit') :
    Dominated ((naiveWalk quota limit [] walk).map SearchResult.score)
      ((naiveWalk quota' limit' [] walk).map SearchResult.score) := by
  have hsublist := keepQuota_sublist hquota walk (List.Sublist.refl []) fun _ => .inl rfl
  obtain ⟨more, hmore, heq⟩ := keepQuota_eq_append quota' [] walk
  have hranked : Ranked ((keepQuota quota' [] walk).map SearchResult.score) := by
    rw [heq, List.nil_append]
    exact hwalk.sublist (hmore.map _)
  rw [naiveWalk_eq_take _ _ _ _ (Nat.zero_le _), naiveWalk_eq_take _ _ _ _ (Nat.zero_le _),
    List.map_take, List.map_take]
  exact (dominated_of_sublist (hsublist.map _) hranked).take hlimit

end Quota

section Search
variable {K : Type} [LinearOrder K]

/-- The scores of a search are those of the naive walk over any ranking of the items. -/
theorem search_scores (pq : PriorityQueue (SearchResult.score (K := K))) {memory : Memory}
    {ops : FloatOps K} {img : Image} {query : List FloatBits} {options : SearchOptions}
    (ha : Accepts img) (hquery : query.length = img.header.dimensions.toNat)
    (hnorm : options.metric = .cosine → ops.isZero (searchNorm ops .cosine query) = false)
    {topK : Nat} {results : List (SearchResult K)}
    (hok : (search pq memory ops ⟨some img⟩ query topK options).result = .ok results) :
    results.map SearchResult.score =
      (naiveWalk options.maxPerScale (min topK img.header.itemCount.toNat) []
        (sortResults (finiteItems ops ⟨some img⟩ options.metric query
          img.header.itemCount.toNat))).map SearchResult.score := by
  rcases Nat.eq_zero_or_pos topK with rfl | htop
  · cases (search_zero pq hquery).symm.trans hok
    rw [naiveWalk_eq_take _ _ _ _ (Nat.zero_le _), Nat.zero_min]
    rfl
  have hitems : ((finiteItems ops ⟨some img⟩ options.metric query
      img.header.itemCount.toNat).map SearchResult.index).Nodup := finiteItems_nodup _ _ _ _
  have hmerged := merged_scanHeaps pq
    (heapCapacity_pos (ha.limit_pos htop) options.maxPerScale) hitems
  have hscores := hmerged.scores_eq_naive (sortResults_perm _)
    (ranked_of_ordered (ordered_sortResults hitems))
  rw [← search_merged pq ha hquery hnorm htop hok, List.map_map] at hscores
  exact hscores

/-- For all open indexes, queries and scores, and for heaps that decide ties as they like: of two
searches that return, the one with a larger `top_k` and a larger quota, or none, finds as many
results, with no lower score at any place; and with the same quota the scores begin with those of
the smaller search. -/
theorem search_grows (pq pq' : PriorityQueue (SearchResult.score (K := K)))
    (memory memory' : Memory) (ops : FloatOps K)
    (img : Image) (index : MmapIndex) (hopen : (MmapIndex.openImage img).result = .ok index)
    (query : List FloatBits) (metric : Metric) {topK topK' quota quota' : Nat} (hle : topK ≤ topK')
    (hquota : quota' = 0 ∨ 0 < quota ∧ quota ≤ quota') (results results' : List (SearchResult K))
    (hok : (search pq memory ops index query topK ⟨metric, quota⟩).result = .ok results)
    (hok' : (search pq' memory' ops index query topK' ⟨metric, quota'⟩).result = .ok results') :
    Dominated (results.map SearchResult.score) (results'.map SearchResult.score) ∧
      (quota = quota' → results.map SearchResult.score =
        (results'.map SearchResult.score).take topK) := by
  obtain ⟨ha, rfl⟩ := (MmapIndex.openImage_ok_iff img index).mp hopen
  have hquery := search_query_length hok
  by_cases hnorm : metric = .cosine ∧ ops.isZero (searchNorm ops .cosine query) = true
  · -- Nothing can be scored, in either search.
    cases (search_unnormed pq hquery hnorm.1 hnorm.2 topK).symm.trans hok
    cases (search_unnormed pq' hquery hnorm.1 hnorm.2 topK').symm.trans hok'
    exact ⟨⟨le_rfl, nofun⟩, fun _ => List.take_nil.symm⟩
  have hnonzero : metric = .cosine → ops.isZero (searchNorm ops .cosine query) = false :=
    fun hmetric => Bool.not_eq_true _ ▸ fun hzero => hnorm ⟨hmetric, hzero⟩
  have hscores := search_scores pq ha hquery hnonzero hok
  have hscores' := search_scores pq' ha hquery hnonzero hok'
  have hitems : ((finiteItems ops ⟨some img⟩ metric query
      img.header.itemCount.toNat).map SearchResult.index).Nodup := finiteItems_nodup _ _ _ _
  have hranked := ranked_of_ordered (ordered_sortResults hitems)
  refine ⟨?_, fun hsame => ?_⟩
  · rw [hscores, hscores']
    exact dominated_walks hranked hquota (by omega)
  · subst hsame
    have hlimit : min topK (min topK' img.header.itemCount.toNat) =
        min topK img.header.itemCount.toNat := by omega
    rw [hscores, hscores', naiveWalk_eq_take _ _ _ _ (Nat.zero_le _),
      naiveWalk_eq_take _ _ _ _ (Nat.zero_le _), ← List.map_take, List.take_take, hlimit]

end Search

section Sample

theorem search_grows_sample :
    Dominated (([⟨2, 2, 0, 1, 1⟩] : List (SearchResult Nat)).map SearchResult.score)
      (([⟨2, 2, 0, 1, 1⟩, ⟨0, 1, 0, 1, 2⟩] : List (SearchResult Nat)).map
        SearchResult.score) := by
  have hone : (search (preferring SearchResult.score ⟨0, 1, 0, 1, 0⟩) .unbounded sampleOps
      ⟨some sampleImage⟩ [oneF] 1 ⟨.dotProduct, 1⟩).result = .ok [⟨2, 2, 0, 1, 1⟩] := by
    decide +kernel
  have htwo : (search (preferring SearchResult.score ⟨1, 1, 0, 1, 0⟩) .unbounded sampleOps
      ⟨some sampleImage⟩ [oneF] 2 ⟨.dotProduct, 2⟩).result =
        .ok [⟨2, 2, 0, 1, 1⟩, ⟨0, 1, 0, 1, 2⟩] := by
    decide +kernel
  exact (search_grows _ _ _ _ sampleOps sampleImage _ sampleImage_open [oneF] .dotProduct
    (Nat.le_succ 1) (.inr ⟨Nat.one_pos, Nat.le_succ 1⟩) _ _ hone htwo).1

end Sample

end CppRag
