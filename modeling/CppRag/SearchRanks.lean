import CppRag.SearchTies

/-!
The ranks `search` reports. They are counted over the heaps' survivors and before the cut
to `top_k`, and still place each result among all items of its scale: a heap gives up no
item that scores above one it keeps, and the cut takes the end of each scale.
-/
namespace CppRag
open Observed Ranking PriorityQueue

section Assign
variable {K : Type}

/-- Each scale is numbered on from the rank it had reached. -/
theorem ofScale_assignRanks (scaleRank : Std.TreeMap UInt32 Nat) (scale : UInt32)
    (results : List (SearchResult K)) :
    (ofScale scale (assignRanks scaleRank results)).map SearchResult.rankWithinScale =
      List.range' (scaleRank.getD scale 0 + 1) (ofScale scale results).length := by
  induction results generalizing scaleRank with
  | nil => rfl
  | cons result results ih =>
      rw [assignRanks]
      by_cases hscale : result.scale = scale
      · rw [ofScale_cons_self (by exact hscale), ofScale_cons_self hscale, List.map_cons, ih,
          List.length_cons, List.range'_succ, hscale, Std.TreeMap.getD_insert_self]
      · rw [ofScale_cons_other (by exact hscale), ofScale_cons_other hscale, ih,
          Std.TreeMap.getD_insert]
        simp [hscale]

/-- A numbered result and where it stood. -/
theorem mem_assignRanks {scaleRank : Std.TreeMap UInt32 Nat} {results : List (SearchResult K)}
    {r : SearchResult K} (h : r ∈ assignRanks scaleRank results) :
    ∃ before original after, results = before ++ original :: after ∧
      r.score = original.score ∧ r.scale = original.scale ∧ r.index = original.index ∧
      r.rankWithinScale = scaleRank.getD r.scale 0 + (ofScale r.scale before).length + 1 := by
  induction results generalizing scaleRank with
  | nil => cases h
  | cons result results ih =>
      rw [assignRanks] at h
      rcases List.mem_cons.mp h with rfl | h
      · exact ⟨[], result, results, rfl, rfl, rfl, rfl, rfl⟩
      · obtain ⟨before, original, after, rfl, hscore, hscale, hindex, hrank⟩ := ih h
        refine ⟨result :: before, original, after, rfl, hscore, hscale, hindex, ?_⟩
        by_cases hsame : result.scale = r.scale
        · rw [hrank, ofScale_cons_self hsame, List.length_cons, hsame,
            Std.TreeMap.getD_insert_self]
          omega
        · rw [hrank, ofScale_cons_other hsame, Std.TreeMap.getD_insert]
          simp [hsame]

end Assign

section Exact
variable {K : Type} [LinearOrder K]

/-- How many items score strictly above `score`, and at least it. -/
def countAbove (score : K) (items : List (SearchResult K)) : Nat :=
  items.countP (score < ·.score)

def countAtLeast (score : K) (items : List (SearchResult K)) : Nat :=
  items.countP (score ≤ ·.score)

/-- Ranks without gaps, in result order, exact in the whole corpus up to ties. -/
structure RanksExact (items results : List (SearchResult K)) : Prop where
  consecutive : ∀ scale, (ofScale scale results).map SearchResult.rankWithinScale =
    List.range' 1 (ofScale scale results).length
  above_lt : ∀ r ∈ results, countAbove r.score (ofScale r.scale items) < r.rankWithinScale
  le_atLeast : ∀ r ∈ results, r.rankWithinScale ≤ countAtLeast r.score (ofScale r.scale items)

theorem ranksExact_nil (items : List (SearchResult K)) : RanksExact items [] where
  consecutive := fun _ => rfl
  above_lt := fun _ hr => by cases hr
  le_atLeast := fun _ hr => by cases hr

omit [LinearOrder K] in
theorem countP_of_retained {items kept : List (SearchResult K)}
    {dropped : Multiset (SearchResult K)}
    (h : (items : Multiset (SearchResult K)) = kept + dropped) (p : SearchResult K → Bool) :
    items.countP p = kept.countP p + dropped.countP (p · = true) := by
  have hcount := congrArg (Multiset.countP (p · = true)) h
  rw [Multiset.countP_add, Multiset.coe_countP, Multiset.coe_countP] at hcount
  simpa using hcount

variable {capacity : Nat} {items before after : List (SearchResult K)}
variable {original : SearchResult K}

theorem Merged.split (h : Merged capacity items (before ++ original :: after)) :
    (∀ b ∈ before, original.score ≤ b.score) ∧ ∀ a ∈ after, a.score ≤ original.score := by
  have hord := h.ordered
  rw [Ordered, List.pairwise_append, List.pairwise_cons] at hord
  obtain ⟨-, ⟨hafter, -⟩, hbefore⟩ := hord
  exact ⟨fun b hb => betterResult_score (hbefore b hb original List.mem_cons_self),
    fun a ha => betterResult_score (hafter a ha)⟩

/-- The items of a kept result's scale: those kept before it, itself, those kept after it, and
dropped ones that score no higher. -/
theorem Merged.scale_split (h : Merged capacity items (before ++ original :: after)) :
    ∃ dropped : Multiset (SearchResult K),
      (ofScale original.scale items : Multiset (SearchResult K)) =
        ((ofScale original.scale before ++ original :: ofScale original.scale after :
          List (SearchResult K)) : Multiset (SearchResult K)) + dropped ∧
      ∀ d ∈ dropped, d.score ≤ original.score := by
  obtain ⟨dropped, hsplit, -, hdropped⟩ := h.retained original.scale
  rw [ofScale_append, ofScale_cons_self rfl] at hsplit hdropped
  exact ⟨dropped, hsplit,
    fun d hd => hdropped d hd original (List.mem_append_right _ List.mem_cons_self)⟩

theorem Merged.countAbove_le (h : Merged capacity items (before ++ original :: after)) :
    countAbove original.score (ofScale original.scale items) ≤
      (ofScale original.scale before).length := by
  obtain ⟨dropped, hsplit, hdropped⟩ := h.scale_split
  have hnone : dropped.countP (fun d => decide (original.score < d.score) = true) = 0 := by
    rw [Multiset.countP_eq_zero]
    intro d hd
    simpa using hdropped d hd
  have hlater :
      (original :: ofScale original.scale after).countP (original.score < ·.score) = 0 := by
    rw [List.countP_eq_zero]
    intro a ha
    rcases List.mem_cons.mp ha with rfl | ha
    · simp
    · simpa using h.split.2 a (List.mem_filter.mp ha).1
  rw [countAbove, countP_of_retained hsplit, hnone, List.countP_append, hlater]
  exact List.countP_le_length

theorem Merged.lt_countAtLeast (h : Merged capacity items (before ++ original :: after)) :
    (ofScale original.scale before).length <
      countAtLeast original.score (ofScale original.scale items) := by
  obtain ⟨dropped, hsplit, -⟩ := h.scale_split
  have hbefore : (ofScale original.scale before).countP (original.score ≤ ·.score) =
      (ofScale original.scale before).length := by
    rw [List.countP_eq_length]
    intro b hb
    simpa using h.split.1 b (List.mem_filter.mp hb).1
  rw [countAtLeast, countP_of_retained hsplit, List.countP_append, hbefore,
    List.countP_cons_of_pos (by simp)]
  omega

/-- The number of a result is between the counts of better and of no worse items. -/
theorem Merged.rank_bounds {merged : List (SearchResult K)} (h : Merged capacity items merged)
    {r : SearchResult K} (hr : r ∈ assignRanks ∅ merged) :
    countAbove r.score (ofScale r.scale items) < r.rankWithinScale ∧
      r.rankWithinScale ≤ countAtLeast r.score (ofScale r.scale items) := by
  obtain ⟨before, original, after, rfl, hscore, hscale, -, hrank⟩ := mem_assignRanks hr
  rw [Std.TreeMap.getD_emptyc, Nat.zero_add] at hrank
  rw [hrank, hscore, hscale]
  exact ⟨Nat.lt_succ_of_le h.countAbove_le, h.lt_countAtLeast⟩

/-- Numbering a merged list and cutting it keeps the ranks exact. -/
theorem Merged.ranksExact {merged : List (SearchResult K)} (h : Merged capacity items merged)
    (limit : Nat) : RanksExact items ((assignRanks ∅ merged).take limit) where
  consecutive := by
    intro scale
    have hprefix : (ofScale scale ((assignRanks ∅ merged).take limit)).map
        SearchResult.rankWithinScale <+:
        (ofScale scale (assignRanks ∅ merged)).map SearchResult.rankWithinScale :=
      ((List.take_prefix _ _).filter _).map _
    have hle := hprefix.length_le
    rw [ofScale_assignRanks, Std.TreeMap.getD_emptyc, Nat.zero_add] at hprefix hle
    rw [List.length_map, List.length_range'] at hle
    rw [List.prefix_iff_eq_take, List.length_map, List.take_range'_of_length_ge hle] at hprefix
    exact hprefix
  above_lt := fun _ hr => (h.rank_bounds (List.mem_of_mem_take hr)).1
  le_atLeast := fun _ hr => (h.rank_bounds (List.mem_of_mem_take hr)).2

end Exact

section Search
variable {K : Type} [LinearOrder K] (pq : PriorityQueue (SearchResult.score (K := K)))
variable {memory : Memory} {ops : FloatOps K} {img : Image} {query : List FloatBits}
variable {topK : Nat} {options : SearchOptions} {results : List (SearchResult K)}

/-- A search that returns found nothing or merged its heaps. -/
theorem search_cases (ha : Accepts img)
    (h : (search pq memory ops ⟨some img⟩ query topK options).result = .ok results) :
    results = [] ∨ ∃ merged capacity limit, results = (assignRanks ∅ merged).take limit ∧
      Merged capacity (finiteItems ops ⟨some img⟩ options.metric query
        img.header.itemCount.toNat) merged := by
  have hquery := search_query_length h
  rcases Nat.eq_zero_or_pos topK with rfl | htop
  · rw [search_zero pq hquery] at h
    exact .inl (Except.ok.inj h).symm
  by_cases hnorm : options.metric = .cosine ∧ ops.isZero (searchNorm ops .cosine query) = true
  · rw [search_unnormed pq hquery hnorm.1 hnorm.2] at h
    exact .inl (Except.ok.inj h).symm
  · have hnonzero : options.metric = .cosine →
        ops.isZero (searchNorm ops .cosine query) = false :=
      fun hmetric => Bool.not_eq_true _ ▸ fun hzero => hnorm ⟨hmetric, hzero⟩
    have hcapacity := heapCapacity_pos (ha.limit_pos htop) options.maxPerScale
    obtain ⟨-, hmerge⟩ := (search_ok_iff pq ha hquery hnonzero htop results).mp h
    exact .inr ⟨_, _, _, hmerge.symm,
      merged_scanHeaps pq hcapacity (finiteItems_nodup _ _ _ _)⟩

end Search

/-- Whatever an open index holds and however the heaps break ties, the ranks of the results
are consecutive in each scale and place every result among all finite items of its scale. -/
theorem search_ranks_exact {K : Type} [LinearOrder K]
    (pq : PriorityQueue (SearchResult.score (K := K))) (memory : Memory) (ops : FloatOps K)
    (img : Image) (index : MmapIndex) (hopen : (MmapIndex.openImage img).result = .ok index)
    (query : List FloatBits) (topK : Nat) (options : SearchOptions)
    (results : List (SearchResult K))
    (hresults : (search pq memory ops index query topK options).result = .ok results) :
    ∃ count, index.size.result = .ok count ∧
      RanksExact (finiteItems ops index options.metric query count.toNat) results := by
  obtain ⟨ha, rfl⟩ := (MmapIndex.openImage_ok_iff img index).mp hopen
  refine ⟨_, MmapIndex.size_result img, ?_⟩
  rcases search_cases pq ha hresults with rfl | ⟨merged, capacity, limit, rfl, hmerged⟩
  · exact ranksExact_nil _
  · exact hmerged.ranksExact limit

theorem search_ranks_exact_sample :
    RanksExact (finiteItems sampleOps ⟨some sampleImage⟩ .dotProduct [oneF] 3)
      [⟨2, 2, 0, 1, 1⟩, ⟨1, 1, 0, 1, 2⟩] := by
  have hfound : (search (preferring SearchResult.score ⟨0, 1, 0, 1, 0⟩) .unbounded sampleOps
      ⟨some sampleImage⟩ [oneF] 2 ⟨.dotProduct, 0⟩).result =
        .ok [⟨2, 2, 0, 1, 1⟩, ⟨1, 1, 0, 1, 2⟩] := by
    decide +kernel
  obtain ⟨count, hcount, hexact⟩ := search_ranks_exact _ .unbounded sampleOps sampleImage _
    sampleImage_open [oneF] 2 ⟨.dotProduct, 0⟩ _ hfound
  rw [sampleImage_size] at hcount
  cases hcount
  exact hexact

end CppRag
