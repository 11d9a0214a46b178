import CppRag.SearchQuota
import CppRag.Foundation.PriorityQueueTies

/-!
The unrestricted search at the cut-off. Its contract orders equal scores by index, but
a full heap makes room by dropping any of its lowest scores. `TieSafe` says when no
queue can drop an item the contract returns; otherwise some queue does.
-/
namespace CppRag
open Observed Ranking PriorityQueue

section Ties
variable {K : Type} [LinearOrder K] {items : List (SearchResult K)} {limit : Nat}

/-- The first `limit` of all finite items, best first, ties by index. -/
def topItems (limit : Nat) (items : List (SearchResult K)) : List (SearchResult K) :=
  (sortResults items).take limit

/-- Whenever an item of the same scale beats a wanted item later in the index, fewer than
`limit` items of that scale before it score at least as high as the wanted one. -/
def TieSafe (limit : Nat) (items : List (SearchResult K)) : Prop :=
  ∀ wanted ∈ topItems limit items, ∀ later ∈ items, later.scale = wanted.scale →
    wanted.index < later.index → wanted.score < later.score →
      (ofScale wanted.scale items).countP
        (fun r => r.index < later.index ∧ wanted.score ≤ r.score) < limit

instance (limit : Nat) (items : List (SearchResult K)) : Decidable (TieSafe limit items) :=
  inferInstanceAs (Decidable (∀ wanted ∈ topItems limit items, ∀ later ∈ items,
    later.scale = wanted.scale → wanted.index < later.index → wanted.score < later.score →
      (ofScale wanted.scale items).countP
        (fun r => r.index < later.index ∧ wanted.score ≤ r.score) < limit))

/-- Fewer than `limit` items are better than one of the top items. -/
theorem countP_better_lt (hitems : (items.map SearchResult.index).Nodup)
    {wanted : SearchResult K} (h : wanted ∈ topItems limit items) :
    items.countP (betterResult · wanted) < limit := by
  have hord := ordered_sortResults hitems
  rw [← (sortResults_perm items).countP_eq]
  obtain ⟨before, after, hsplit⟩ := List.append_of_mem h
  have hall := List.take_append_drop limit (sortResults items)
  rw [topItems] at hsplit
  rw [hsplit, List.append_assoc, List.cons_append] at hall
  rw [← hall] at hord ⊢
  have hafter : (wanted :: (after ++ (sortResults items).drop limit)).countP
      (betterResult · wanted) = 0 := by
    rw [List.countP_eq_zero]
    intro r hr
    rw [Bool.not_eq_true]
    rcases List.mem_cons.mp hr with rfl | hr
    · cases hself : betterResult r r with
      | false => rfl
      | true => exact hself.symm.trans (betterResult_asymm hself)
    · exact betterResult_asymm
        ((List.pairwise_cons.mp (List.pairwise_append.mp hord).2.1).1 r hr)
  have hlen : (before ++ wanted :: after).length ≤ limit := by
    rw [← hsplit]
    exact List.length_take_le _ _
  rw [List.length_append, List.length_cons] at hlen
  have hbefore := List.countP_le_length (p := (betterResult · wanted)) (l := before)
  rw [List.countP_append, hafter]
  omega

theorem mem_items_of_topItems {wanted : SearchResult K} (h : wanted ∈ topItems limit items) :
    wanted ∈ items :=
  (sortResults_perm items).mem_iff.mp (List.mem_of_mem_take h)

/-- Splitting a scale's items at one of them splits them by index. -/
theorem countP_before {scale : UInt32} (before : List (SearchResult K)) {later : SearchResult K}
    {after : List (SearchResult K)} (hindex : items.Pairwise fun a b => a.index < b.index)
    (hsplit : ofScale scale items = before ++ later :: after) (score : K) :
    (ofScale scale items).countP (fun r => r.index < later.index ∧ score ≤ r.score) =
      reaching SearchResult.score score (before : Multiset (SearchResult K)) := by
  have hpart : (ofScale scale items).Pairwise fun a b => a.index < b.index :=
    hindex.sublist List.filter_sublist
  rw [hsplit] at hpart ⊢
  obtain ⟨-, hafter, hbefore⟩ := List.pairwise_append.mp hpart
  have hzero : (later :: after).countP
      (fun r => r.index < later.index ∧ score ≤ r.score) = 0 := by
    rw [List.countP_eq_zero]
    intro r hr
    rcases List.mem_cons.mp hr with rfl | hr
    · simp
    · have hlt := (List.pairwise_cons.mp hafter).1 r hr
      simp only [decide_eq_true_eq, not_and]
      intro hgt
      omega
  rw [List.countP_append, hzero, Nat.add_zero, reaching, Multiset.coe_countP]
  refine List.countP_congr fun r hr => ?_
  have hlt := hbefore r hr later List.mem_cons_self
  simp [hlt]

variable (pq : PriorityQueue (SearchResult.score (K := K)))

/-- Under `TieSafe` every heap keeps the top items of its scale. -/
theorem topItems_mem_heapOf (hlimit : 0 < limit)
    (hindex : items.Pairwise fun a b => a.index < b.index) (hsafe : TieSafe limit items)
    {wanted : SearchResult K} (h : wanted ∈ topItems limit items) :
    wanted ∈ pq.items (heapOf pq limit items wanted.scale) := by
  have hnodup : (items.map SearchResult.index).Nodup := by
    rw [List.Nodup, List.pairwise_map]
    exact hindex.imp Nat.ne_of_lt
  have hmem : wanted ∈ ofScale wanted.scale items :=
    List.mem_filter.mpr ⟨mem_items_of_topItems h, by simp⟩
  obtain ⟨before, after, hsplit⟩ := List.append_of_mem hmem
  have hpart : (ofScale wanted.scale items).Pairwise fun a b => a.index < b.index :=
    hindex.sublist List.filter_sublist
  rw [heapOf, hsplit]
  refine pq.mem_foldl_of_few hlimit ?_ ?_
  · -- Everything before that scores as high is better by its index.
    refine lt_of_le_of_lt ?_ (countP_better_lt hnodup h)
    rw [hsplit] at hpart
    have hbetter : reaching SearchResult.score wanted.score
        (before : Multiset (SearchResult K)) ≤ before.countP (betterResult · wanted) := by
      rw [reaching, Multiset.coe_countP]
      refine List.countP_mono_left fun r hr hscore => ?_
      have hlt := (List.pairwise_append.mp hpart).2.2 r hr wanted List.mem_cons_self
      rw [decide_eq_true_eq] at hscore
      rw [betterResult_iff]
      rcases hscore.lt_or_eq with hgt | heq
      · exact .inl hgt
      · exact .inr ⟨heq.symm, hlt⟩
    have hsub : before.Sublist items := by
      refine List.Sublist.trans ?_ (List.filter_sublist (p := (·.scale = wanted.scale)))
      rw [ofScale] at hsplit
      rw [hsplit]
      exact List.sublist_append_left _ _
    exact hbetter.trans hsub.countP_le
  · intro mid later rest hafter hscore
    have hlater : later ∈ ofScale wanted.scale items := by
      rw [hsplit, hafter]
      simp
    rw [hsplit] at hpart
    have hlt := (List.pairwise_cons.mp (List.pairwise_append.mp hpart).2.1).1 later
      (by rw [hafter]; simp)
    have hbound := hsafe wanted h later (List.mem_filter.mp hlater).1
      (by simpa using (List.mem_filter.mp hlater).2) hlt hscore
    have hordered : ofScale wanted.scale items = (before ++ wanted :: mid) ++ later :: rest := by
      rw [hsplit, hafter, List.append_assoc]
      rfl
    rwa [countP_before (before ++ wanted :: mid) hindex hordered] at hbound

theorem mem_sortResults_scan (hlimit : 0 < limit) (wanted : SearchResult K) :
    wanted ∈ sortResults (drainHeaps pq (scanHeaps pq limit items)) ↔
      wanted ∈ pq.items (heapOf pq limit items wanted.scale) := by
  rw [← ofScale_drainHeaps pq hlimit, Multiset.mem_coe,
    (sortResults_perm _).mem_iff, List.mem_filter]
  simp

/-- Heaps that keep the top items merge into exactly these. -/
theorem take_merged_eq (hnodup : (items.map SearchResult.index).Nodup)
    {merged : List (SearchResult K)} (h : Merged limit items merged)
    (hkept : ∀ wanted ∈ topItems limit items, wanted ∈ merged) :
    merged.take limit = topItems limit items := by
  have hord := ordered_sortResults hnodup
  have hsame : merged = (sortResults items).filter (· ∈ merged) := by
    refine eq_of_ordered h.ordered (hord.sublist List.filter_sublist) ?_
    rw [List.perm_ext_iff_of_nodup (nodup_of_ordered h.ordered)
      ((nodup_of_ordered hord).filter _)]
    intro r
    rw [List.mem_filter, (sortResults_perm items).mem_iff, decide_eq_true_eq]
    exact ⟨fun hr => ⟨h.mem_items hr, hr⟩, fun hr => hr.2⟩
  rw [topItems, ← take_filter (p := (· ∈ merged))
    (fun r hr => decide_eq_true (hkept r hr)), ← hsame]

/-- Without `TieSafe` some queue drops a top item. -/
theorem exists_dropped (hlimit : 0 < limit)
    (hindex : items.Pairwise fun a b => a.index < b.index) (hrisk : ¬TieSafe limit items) :
    ∃ wanted ∈ topItems limit items,
      wanted ∉ (preferring SearchResult.score wanted).items
        (heapOf (preferring SearchResult.score wanted) limit items wanted.scale) := by
  simp only [TieSafe, not_forall, not_lt] at hrisk
  obtain ⟨wanted, hwanted, later, hlater, hscale, hlt, hscore, hmany⟩ := hrisk
  refine ⟨wanted, hwanted, ?_⟩
  have hmem : later ∈ ofScale wanted.scale items :=
    List.mem_filter.mpr ⟨hlater, by simpa using hscale⟩
  obtain ⟨seen, rest, hsplit⟩ := List.append_of_mem hmem
  have hpart : (ofScale wanted.scale items).Pairwise fun a b => a.index < b.index :=
    hindex.sublist List.filter_sublist
  have hseen : wanted ∈ seen := by
    have hself : wanted ∈ ofScale wanted.scale items :=
      List.mem_filter.mpr ⟨mem_items_of_topItems hwanted, by simp⟩
    rw [hsplit] at hself hpart
    rcases List.mem_append.mp hself with hseen | hrest
    · exact hseen
    · rcases List.mem_cons.mp hrest with rfl | hrest
      · omega
      · have hgt := (List.pairwise_cons.mp (List.pairwise_append.mp hpart).2.1).1 wanted hrest
        omega
  rw [countP_before seen hindex hsplit] at hmany
  have hnodup : (seen ++ later :: rest).Nodup := by
    rw [← hsplit]
    exact hpart.imp fun hab heq => by rw [heq] at hab; omega
  rw [heapOf, hsplit]
  exact foldl_evicts hlimit hnodup hseen hmany hscore

end Ties

/-- An unrestricted search returns exactly the first `top_k` items by score and index,
whatever its queues do with ties, exactly when no top item can be tied out and there is room
for the results the heaps of all scales could hold. -/
theorem search_exact_iff {K : Type} [LinearOrder K] (memory : Memory) (ops : FloatOps K)
    (img : Image) (index : MmapIndex)
    (hopen : (MmapIndex.openImage img).result = .ok index)
    (query : List FloatBits) (metric : Metric) (topK : Nat) (dimensions count : UInt64)
    (hdimensions : index.dimensions.result = .ok dimensions)
    (hcount : index.size.result = .ok count)
    (hquery : query.length = dimensions.toNat)
    (hnorm : metric = .cosine → ops.isZero (searchNorm ops .cosine query) = false) :
    (∀ pq : PriorityQueue (SearchResult.score (K := K)),
      ∃ results, (search pq memory ops index query topK ⟨metric, 0⟩).result = .ok results ∧
        results.map SearchResult.unranked =
          topItems (min topK count.toNat) (finiteItems ops index metric query count.toNat)) ↔
    TieSafe (min topK count.toNat) (finiteItems ops index metric query count.toNat) ∧
      memory.ReservesResults (scaleCount (finiteItems ops index metric query count.toNat))
        (min topK count.toNat) := by
  obtain ⟨ha, rfl, hdims, rfl⟩ := opened_cases hopen hdimensions hcount
  rw [hdims] at hquery
  rcases Nat.eq_zero_or_pos topK with rfl | htop
  · simp [search_zero _ hquery, TieSafe, topItems, Memory.ReservesResults, Memory.Reserves]
  have hlimit := ha.limit_pos htop
  generalize hitems : finiteItems ops ⟨some img⟩ metric query img.header.itemCount.toNat = items
  generalize hcap : min topK img.header.itemCount.toNat = limit at *
  have hnorm' : (⟨metric, 0⟩ : SearchOptions).metric = .cosine →
      ops.isZero (searchNorm ops .cosine query) = false := hnorm
  have hsearch : ∀ (pq : PriorityQueue (SearchResult.score (K := K))) results,
      (search pq memory ops ⟨some img⟩ query topK ⟨metric, 0⟩).result = .ok results ↔
        memory.ReservesResults (scaleCount items) limit ∧
          mergeHeaps pq limit (scanHeaps pq limit items) = results := by
    intro pq results
    simpa only [hitems, hcap, heapCapacity, if_true] using
      search_ok_iff pq ha hquery hnorm' htop results
  have hfront : ∀ (pq : PriorityQueue (SearchResult.score (K := K))) {results},
      (search pq memory ops ⟨some img⟩ query topK ⟨metric, 0⟩).result = .ok results →
        results.map SearchResult.unranked =
          (sortResults (drainHeaps pq (scanHeaps pq limit items))).take limit := by
    intro pq results hok
    simpa only [hitems, hcap, heapCapacity, if_true] using
      search_merged pq ha hquery hnorm' htop hok
  have hindex : items.Pairwise fun a b => a.index < b.index := by
    rw [← hitems]
    exact finiteItems_increasing _ _ _ _
  have hnodup : (items.map SearchResult.index).Nodup := by
    rw [← hitems]
    exact finiteItems_nodup _ _ _ _
  constructor
  · intro hexact
    constructor
    · by_contra hrisk
      obtain ⟨wanted, hwanted, hdropped⟩ := exists_dropped hlimit hindex hrisk
      obtain ⟨results, hok, hresults⟩ := hexact (preferring SearchResult.score wanted)
      rw [← hresults, hfront _ hok] at hwanted
      exact hdropped ((mem_sortResults_scan _ hlimit wanted).mp (List.mem_of_mem_take hwanted))
    · -- A queue exists as soon as there is an item to prefer.
      cases hempty : items with
      | nil => simp [scaleCount, Memory.ReservesResults, Memory.Reserves]
      | cons item rest =>
          obtain ⟨results, hok, -⟩ := hexact (preferring SearchResult.score item)
          rw [← hempty]
          exact ((hsearch _ results).mp hok).1
  · rintro ⟨hsafe, hroom⟩ pq
    have hok := (hsearch pq _).mpr ⟨hroom, rfl⟩
    refine ⟨_, hok, (hfront pq hok).trans ?_⟩
    refine take_merged_eq hnodup (merged_scanHeaps pq hlimit hnodup) fun wanted hwanted => ?_
    rw [mem_sortResults_scan pq hlimit]
    exact topItems_mem_heapOf pq hlimit hindex hsafe hwanted

section Sample

/-- With room for all three items nothing is dropped, whichever item the queue prefers. -/
theorem search_exact_all :
    ∃ results, (search (preferring SearchResult.score ⟨0, 1, 0, 1, 0⟩) .unbounded sampleOps
        ⟨some sampleImage⟩ [oneF] 3 ⟨.dotProduct, 0⟩).result = .ok results ∧
      results.map SearchResult.unranked =
        topItems 3 (finiteItems sampleOps ⟨some sampleImage⟩ .dotProduct [oneF] 3) :=
  (search_exact_iff .unbounded sampleOps sampleImage ⟨some sampleImage⟩ sampleImage_open [oneF]
    .dotProduct 3 1 3 sampleImage_dimensions sampleImage_size rfl nofun).mpr (by decide +kernel) _

/-- Of two items scoring 1, the queue drops the one with the lower index for the item
scoring 2. -/
theorem search_drops_lower_index :
    ¬ ∀ pq : PriorityQueue (SearchResult.score (K := Nat)),
      ∃ results, (search pq .unbounded sampleOps ⟨some sampleImage⟩ [oneF] 2
          ⟨.dotProduct, 0⟩).result = .ok results ∧
        results.map SearchResult.unranked =
          topItems 2 (finiteItems sampleOps ⟨some sampleImage⟩ .dotProduct [oneF] 3) := by
  intro h
  obtain ⟨results, hok, hresults⟩ := h (preferring SearchResult.score ⟨0, 1, 0, 1, 0⟩)
  have hfound : (search (preferring SearchResult.score ⟨0, 1, 0, 1, 0⟩) .unbounded sampleOps
      ⟨some sampleImage⟩ [oneF] 2 ⟨.dotProduct, 0⟩).result.toOption =
        some [⟨2, 2, 0, 1, 1⟩, ⟨1, 1, 0, 1, 2⟩] := by
    decide +kernel
  have hwanted : topItems 2 (finiteItems sampleOps ⟨some sampleImage⟩ .dotProduct [oneF] 3) =
      [⟨2, 2, 0, 1, 0⟩, ⟨0, 1, 0, 1, 0⟩] := by
    decide +kernel
  rw [hok] at hfound
  cases hfound
  rw [hwanted] at hresults
  exact absurd hresults (by decide)

end Sample

end CppRag
