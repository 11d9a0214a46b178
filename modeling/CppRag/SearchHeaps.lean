import CppRag.VectorSearch
import CppRag.Foundation.Ranking

/-!
What the heaps hold when the scan is over. Each scale's heap has seen exactly the
candidates of that scale, so the merged list, cut to one scale, is a best-scored part of
that scale's candidates. `Merged` states this without mentioning heaps.
-/
namespace CppRag
open Observed Ranking

section Order
variable {K : Type} [LinearOrder K]

theorem betterResult_iff (lhs rhs : SearchResult K) : betterResult lhs rhs = true ↔
    lhs.score > rhs.score ∨ lhs.score = rhs.score ∧ lhs.index < rhs.index := by
  unfold betterResult
  split
  · next hne => simp [hne]
  · next heq =>
      rw [ne_eq, not_not] at heq
      simp [heq]

theorem betterResult_asymm {lhs rhs : SearchResult K} (h : betterResult lhs rhs = true) :
    betterResult rhs lhs = false := by
  rw [← Bool.not_eq_true, betterResult_iff]
  rcases (betterResult_iff lhs rhs).mp h with hgt | ⟨heq, hlt⟩
  · rintro (hgt' | ⟨heq', -⟩)
    · exact absurd hgt (not_lt.mpr hgt'.le)
    · exact absurd heq' hgt.ne
  · rintro (hgt' | ⟨-, hlt'⟩)
    · exact absurd heq hgt'.ne
    · omega

theorem betterResult_total {lhs rhs : SearchResult K} (hne : lhs.index ≠ rhs.index)
    (h : betterResult rhs lhs = false) : betterResult lhs rhs = true := by
  rw [← Bool.not_eq_true, betterResult_iff, not_or] at h
  rw [betterResult_iff]
  rcases lt_trichotomy lhs.score rhs.score with hlt | heq | hgt
  · exact absurd hlt h.1
  · refine .inr ⟨heq, ?_⟩
    have hindex : ¬ rhs.index < lhs.index := fun hlt => h.2 ⟨heq.symm, hlt⟩
    omega
  · exact .inl hgt

theorem betterResult_score {lhs rhs : SearchResult K} (h : betterResult lhs rhs = true) :
    rhs.score ≤ lhs.score := by
  rcases (betterResult_iff lhs rhs).mp h with hgt | ⟨heq, -⟩
  · exact hgt.le
  · exact heq.ge

theorem not_better_trans {a b c : SearchResult K} (hab : betterResult b a = false)
    (hbc : betterResult c b = false) : betterResult c a = false := by
  rw [← Bool.not_eq_true, betterResult_iff] at *
  rw [not_or, not_and, not_lt] at *
  refine ⟨hbc.1.trans hab.1, ?_⟩
  intro heq
  have hscores : b.score = a.score ∧ c.score = b.score :=
    ⟨le_antisymm hab.1 (heq ▸ hbc.1), le_antisymm hbc.1 (heq ▸ hab.1)⟩
  have h₁ := hab.2 hscores.1
  have h₂ := hbc.2 hscores.2
  omega

theorem not_better_total (a b : SearchResult K) :
    betterResult b a = false ∨ betterResult a b = false := by
  cases hba : betterResult b a with
  | false => exact .inl rfl
  | true => exact .inr (betterResult_asymm hba)

/-- Best first, ties by index. -/
abbrev Ordered (results : List (SearchResult K)) : Prop :=
  results.Pairwise fun lhs rhs => betterResult lhs rhs = true

theorem sortResults_perm (results : List (SearchResult K)) :
    (sortResults results).Perm results :=
  List.perm_insertionSort _ _

theorem ordered_sortResults {results : List (SearchResult K)}
    (h : (results.map SearchResult.index).Nodup) : Ordered (sortResults results) := by
  have hsorted : (sortResults results).Pairwise fun lhs rhs => betterResult rhs lhs = false := by
    have htotal : Std.Total fun lhs rhs : SearchResult K => betterResult rhs lhs = false :=
      ⟨not_better_total⟩
    have htrans : IsTrans (SearchResult K) fun lhs rhs => betterResult rhs lhs = false :=
      ⟨fun _ _ _ => not_better_trans⟩
    exact List.pairwise_insertionSort _ results
  have hdistinct : ((sortResults results).map SearchResult.index).Nodup :=
    ((sortResults_perm results).map _).nodup_iff.mpr h
  rw [List.Nodup, List.pairwise_map] at hdistinct
  exact (hsorted.and hdistinct).imp fun hboth =>
    betterResult_total hboth.2 hboth.1

theorem ranked_of_ordered {results : List (SearchResult K)} (h : Ordered results) :
    Ranked (results.map SearchResult.score) := by
  rw [Ranked, List.pairwise_map]
  exact h.imp betterResult_score

theorem nodup_of_ordered {results : List (SearchResult K)} (h : Ordered results) :
    results.Nodup := by
  refine h.imp ?_
  rintro lhs _ hbetter rfl
  have hself := betterResult_asymm hbetter
  rw [hbetter] at hself
  cases hself

/-- Two ordered lists of the same results are the same list. -/
theorem eq_of_ordered {xs ys : List (SearchResult K)} (hx : Ordered xs) (hy : Ordered ys)
    (h : xs.Perm ys) : xs = ys := by
  refine h.eq_of_pairwise (fun lhs rhs _ _ hlr hrl => ?_) hx hy
  have hfalse := betterResult_asymm hlr
  rw [hrl] at hfalse
  cases hfalse

end Order

/-! The map of heaps. -/

section Heaps
variable {K : Type}

abbrev ofScale (scale : UInt32) (items : List (SearchResult K)) : List (SearchResult K) :=
  items.filter (·.scale = scale)

theorem ofScale_cons_self {scale : UInt32} {item : SearchResult K} (h : item.scale = scale)
    (items : List (SearchResult K)) :
    ofScale scale (item :: items) = item :: ofScale scale items :=
  List.filter_cons_of_pos (by simpa using h)

theorem ofScale_cons_other {scale : UInt32} {item : SearchResult K} (h : item.scale ≠ scale)
    (items : List (SearchResult K)) : ofScale scale (item :: items) = ofScale scale items :=
  List.filter_cons_of_neg (by simpa using h)

theorem ofScale_append (scale : UInt32) (xs ys : List (SearchResult K)) :
    ofScale scale (xs ++ ys) = ofScale scale xs ++ ofScale scale ys :=
  List.filter_append ..

variable [LinearOrder K] (pq : PriorityQueue (SearchResult.score (K := K)))

def scanHeaps (capacity : Nat) (items : List (SearchResult K)) : PerScale pq :=
  items.foldl (PerScale.add pq capacity) ∅

/-- How many scales the items have. -/
def scaleCount (items : List (SearchResult K)) : Nat :=
  (items.map SearchResult.scale).dedup.length

theorem mem_foldl_add (capacity : Nat) (scale : UInt32) (items : List (SearchResult K))
    (perScale : PerScale pq) :
    scale ∈ items.foldl (PerScale.add pq capacity) perScale ↔
      scale ∈ perScale ∨ scale ∈ items.map SearchResult.scale := by
  induction items generalizing perScale with
  | nil => simp
  | cons item items ih =>
      rw [List.foldl_cons, ih, PerScale.add, Std.TreeMap.mem_alter, List.map_cons, List.mem_cons]
      by_cases hscale : item.scale = scale
      · simp [hscale]
      · simp [hscale, Ne.symm hscale]

/-- There is one heap for each scale. -/
theorem size_scanHeaps (capacity : Nat) (items : List (SearchResult K)) :
    (scanHeaps pq capacity items).size = scaleCount items := by
  have hmem : ∀ scale, scale ∈ (scanHeaps pq capacity items).keys ↔
      scale ∈ (items.map SearchResult.scale).dedup := by
    intro scale
    rw [Std.TreeMap.mem_keys, List.mem_dedup, scanHeaps, mem_foldl_add]
    simp
  rw [← Std.TreeMap.length_keys, scaleCount]
  exact ((List.perm_ext_iff_of_nodup Std.TreeMap.nodup_keys (List.nodup_dedup _)).mpr
    hmem).length_eq

/-- A scale's heap is the heap of that scale's candidates alone. -/
theorem getD_foldl_add (capacity : Nat) (scale : UInt32) (items : List (SearchResult K))
    (perScale : PerScale pq) :
    ((items.foldl (PerScale.add pq capacity) perScale)[scale]?).getD pq.empty =
      (ofScale scale items).foldl (pq.offer capacity) ((perScale[scale]?).getD pq.empty) := by
  induction items generalizing perScale with
  | nil => rfl
  | cons item items ih =>
      rw [List.foldl_cons, ih, PerScale.add, Std.TreeMap.getElem?_alter]
      by_cases hscale : item.scale = scale
      · rw [ofScale_cons_self hscale, List.foldl_cons, hscale]
        simp
      · rw [ofScale_cons_other hscale]
        simp [hscale]

theorem filter_flatMap_keyed {κ V α : Type} [DecidableEq κ] {entries : List (κ × V)}
    {values : V → List α} {tag : α → κ} {k : κ} {v : V}
    (hkeys : entries.Pairwise fun a b => a.1 ≠ b.1)
    (htag : ∀ entry ∈ entries, ∀ a ∈ values entry.2, tag a = entry.1)
    (hmem : (k, v) ∈ entries) :
    (entries.flatMap fun entry => values entry.2).filter (tag · = k) = values v := by
  induction entries with
  | nil => cases hmem
  | cons entry entries ih =>
      obtain ⟨hne, hrest⟩ := List.pairwise_cons.mp hkeys
      have htail := fun e he => htag e (List.mem_cons_of_mem entry he)
      rw [List.flatMap_cons, List.filter_append]
      rcases List.mem_cons.mp hmem with rfl | hmem
      · have hhead : (values v).filter (tag · = k) = values v := by
          rw [List.filter_eq_self]
          intro a ha
          simpa using htag (k, v) List.mem_cons_self a ha
        have hnone : (entries.flatMap fun entry => values entry.2).filter (tag · = k) = [] := by
          rw [List.filter_eq_nil_iff]
          intro a ha
          obtain ⟨e, he, ha⟩ := List.mem_flatMap.mp ha
          simpa [htail e he a ha] using (hne e he).symm
        rw [hhead, hnone, List.append_nil]
      · have hnone : (values entry.2).filter (tag · = k) = [] := by
          rw [List.filter_eq_nil_iff]
          intro a ha
          simpa [htag entry List.mem_cons_self a ha] using hne (k, v) hmem
        rw [hnone, ih hrest htail hmem, List.nil_append]

theorem filter_flatMap_absent {κ V α : Type} [DecidableEq κ] {entries : List (κ × V)}
    {values : V → List α} {tag : α → κ} {k : κ}
    (htag : ∀ entry ∈ entries, ∀ a ∈ values entry.2, tag a = entry.1)
    (habsent : ∀ v, (k, v) ∉ entries) :
    (entries.flatMap fun entry => values entry.2).filter (tag · = k) = [] := by
  rw [List.filter_eq_nil_iff]
  intro a ha
  obtain ⟨⟨k', v⟩, he, ha⟩ := List.mem_flatMap.mp ha
  have htag' := htag _ he a ha
  rintro hk
  rw [decide_eq_true_eq] at hk
  rw [hk] at htag'
  subst htag'
  exact habsent v he

/-- The merged heaps, best first: of each scale's items as many as the capacity allows,
and none left out scored above one that is in. -/
structure Merged (capacity : Nat) (items merged : List (SearchResult K)) : Prop where
  ordered : Ordered merged
  retained : ∀ scale, ∃ dropped : Multiset (SearchResult K),
    (ofScale scale items : Multiset (SearchResult K)) = ofScale scale merged + dropped ∧
    (ofScale scale merged).length = min capacity (ofScale scale items).length ∧
    ∀ d ∈ dropped, ∀ m ∈ ofScale scale merged, d.score ≤ m.score

def heapOf (capacity : Nat) (items : List (SearchResult K)) (scale : UInt32) : pq.Queue :=
  (ofScale scale items).foldl (pq.offer capacity) pq.empty

theorem getD_scanHeaps (capacity : Nat) (items : List (SearchResult K)) (scale : UInt32) :
    ((scanHeaps pq capacity items)[scale]?).getD pq.empty = heapOf pq capacity items scale := by
  rw [scanHeaps, getD_foldl_add]
  simp [heapOf]

theorem heapOf_mem {capacity : Nat} (hcap : 0 < capacity) (items : List (SearchResult K))
    (scale : UInt32) :
    ∀ item ∈ pq.items (heapOf pq capacity items scale), item ∈ ofScale scale items := by
  obtain ⟨dropped, hretains⟩ := pq.retains_foldl hcap (ofScale scale items)
  intro item hitem
  rw [← Multiset.mem_coe, hretains.seen_eq]
  exact Multiset.mem_add.mpr (.inl hitem)

theorem ofScale_drainHeaps {capacity : Nat} (hcap : 0 < capacity)
    (items : List (SearchResult K)) (scale : UInt32) :
    (ofScale scale (drainHeaps pq (scanHeaps pq capacity items)) : Multiset (SearchResult K)) =
      pq.items (heapOf pq capacity items scale) := by
  have hheap : ∀ entry ∈ (scanHeaps pq capacity items).toList,
      entry.2 = heapOf pq capacity items entry.1 := by
    rintro ⟨k, q⟩ hentry
    have hget := getD_scanHeaps pq capacity items k
    rw [Std.TreeMap.mem_toList_iff_getElem?_eq_some.mp hentry, Option.getD_some] at hget
    exact hget
  have htag : ∀ entry ∈ (scanHeaps pq capacity items).toList, ∀ item ∈ pq.drain entry.2,
      item.scale = entry.1 := by
    intro entry hentry item hitem
    rw [pq.mem_drain, hheap entry hentry] at hitem
    simpa using (List.mem_filter.mp (heapOf_mem pq hcap items entry.1 item hitem)).2
  have hget := getD_scanHeaps pq capacity items scale
  cases hentry : (scanHeaps pq capacity items)[scale]? with
  | none =>
      rw [hentry, Option.getD_none] at hget
      rw [← hget, pq.items_empty, ofScale, drainHeaps, filter_flatMap_absent htag]
      · rfl
      · intro q hmem
        rw [Std.TreeMap.mem_toList_iff_getElem?_eq_some, hentry] at hmem
        cases hmem
  | some q =>
      rw [hentry, Option.getD_some] at hget
      have hkeys : (scanHeaps pq capacity items).toList.Pairwise fun a b => a.1 ≠ b.1 :=
        Std.TreeMap.distinct_keys_toList.imp fun hne heq => hne (by simp [heq])
      rw [ofScale, drainHeaps, filter_flatMap_keyed hkeys htag
        (Std.TreeMap.mem_toList_iff_getElem?_eq_some.mpr hentry), pq.drain_items, hget]

theorem drainHeaps_le {capacity : Nat} (hcap : 0 < capacity) (items : List (SearchResult K)) :
    (drainHeaps pq (scanHeaps pq capacity items) : Multiset (SearchResult K)) ≤ items := by
  rw [Multiset.le_iff_count]
  intro result
  obtain ⟨dropped, hretains⟩ := pq.retains_foldl hcap (ofScale result.scale items)
  have hpart : ∀ xs : List (SearchResult K),
      Multiset.count result (xs : Multiset (SearchResult K)) =
        Multiset.count result (ofScale result.scale xs : Multiset (SearchResult K)) := by
    intro xs
    rw [Multiset.coe_count, Multiset.coe_count, List.count_filter (by simp)]
  rw [hpart (drainHeaps pq _), hpart items, ofScale_drainHeaps pq hcap, hretains.seen_eq,
    Multiset.count_add]
  exact Nat.le_add_right _ _

/-- The heaps of a scan, merged. -/
theorem merged_scanHeaps {capacity : Nat} (hcap : 0 < capacity)
    {items : List (SearchResult K)} (hitems : (items.map SearchResult.index).Nodup) :
    Merged capacity items (sortResults (drainHeaps pq (scanHeaps pq capacity items))) := by
  have hnodup : ((drainHeaps pq (scanHeaps pq capacity items)).map
      SearchResult.index).Nodup := by
    have hle := Multiset.map_le_map (f := SearchResult.index) (drainHeaps_le pq hcap items)
    rw [Multiset.map_coe, Multiset.map_coe] at hle
    exact Multiset.coe_nodup.mp (Multiset.nodup_of_le hle (Multiset.coe_nodup.mpr hitems))
  have hperm := sortResults_perm (drainHeaps pq (scanHeaps pq capacity items))
  refine ⟨ordered_sortResults hnodup, fun scale => ?_⟩
  obtain ⟨dropped, hretains⟩ := pq.retains_foldl hcap (ofScale scale items)
  have hheap : (ofScale scale (sortResults (drainHeaps pq (scanHeaps pq capacity items))) :
      Multiset (SearchResult K)) = pq.items (heapOf pq capacity items scale) := by
    rw [← ofScale_drainHeaps pq hcap]
    exact Multiset.coe_eq_coe.mpr (hperm.filter _)
  refine ⟨dropped, ?_, ?_, ?_⟩
  · rw [hheap]
    exact hretains.seen_eq
  · rw [← Multiset.coe_card, hheap]
    exact hretains.card_eq
  · intro d hd m hm
    rw [← Multiset.mem_coe, hheap] at hm
    exact hretains.dropped_le d hd m hm

theorem Merged.mem_items {capacity : Nat} {items merged : List (SearchResult K)}
    (h : Merged capacity items merged) {result : SearchResult K} (hr : result ∈ merged) :
    result ∈ items := by
  obtain ⟨dropped, hsplit, -, -⟩ := h.retained result.scale
  have hpart : result ∈ (ofScale result.scale items : Multiset (SearchResult K)) := by
    rw [hsplit]
    exact Multiset.mem_add.mpr (.inl (List.mem_filter.mpr ⟨hr, by simp⟩))
  exact (List.mem_filter.mp hpart).1

end Heaps

end CppRag
