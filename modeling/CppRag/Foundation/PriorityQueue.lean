import Mathlib.Algebra.Order.Group.Multiset

/-!
Priority queues and the streaming selection of the best elements of a sequence.

A `PriorityQueue` is any implementation whose top has the least key; among elements of
equal key it may choose as it likes, and theorems quantify over the choice. `offer`
keeps a queue at a capacity by replacing a strictly worse top. Whatever the choices,
what is dropped is never better than what is kept.
-/
structure PriorityQueue {α K : Type} [LinearOrder K] (key : α → K) where
  Queue : Type
  empty : Queue
  push : α → Queue → Queue
  top : Queue → Option α
  pop : Queue → Queue
  size : Queue → Nat
  /-- The contents; every operation is specified by what it does to them. -/
  items : Queue → Multiset α
  items_empty : items empty = 0
  items_push : ∀ a q, items (push a q) = a ::ₘ items q
  items_top_none : ∀ q, top q = none → items q = 0
  items_pop : ∀ q a, top q = some a → items q = a ::ₘ items (pop q)
  key_top_le : ∀ q a, top q = some a → ∀ b ∈ items q, key a ≤ key b
  size_eq : ∀ q, size q = (items q).card

namespace PriorityQueue
variable {α K : Type} [LinearOrder K] {key : α → K} (pq : PriorityQueue key)

/-- Adds an element while there is room, else in place of a strictly worse top. -/
def offer (capacity : Nat) (q : pq.Queue) (a : α) : pq.Queue :=
  if pq.size q < capacity then pq.push a q
  else
    match pq.top q with
    | none => q
    | some lowest => if key a > key lowest then pq.push a (pq.pop q) else q

/-- The elements of a queue in the order it gives them up. -/
def drain (q : pq.Queue) : List α :=
  go (pq.size q) q
where
  go : Nat → pq.Queue → List α
    | 0, _ => []
    | n + 1, q =>
        match pq.top q with
        | none => []
        | some a => a :: go n (pq.pop q)

theorem drain_go_items (n : Nat) (q : pq.Queue) (h : (pq.items q).card ≤ n) :
    (drain.go pq n q : Multiset α) = pq.items q := by
  induction n generalizing q with
  | zero =>
      rw [Multiset.card_eq_zero.mp (Nat.le_zero.mp h)]
      rfl
  | succ n ih =>
      unfold drain.go
      cases htop : pq.top q with
      | none => exact (pq.items_top_none q htop).symm
      | some a =>
          have hitems := pq.items_pop q a htop
          rw [hitems, Multiset.card_cons] at h
          simp only
          rw [← Multiset.cons_coe, ih (pq.pop q) (by omega), hitems]

theorem drain_items (q : pq.Queue) : (pq.drain q : Multiset α) = pq.items q :=
  pq.drain_go_items _ q (Nat.le_of_eq (pq.size_eq q).symm)

theorem mem_drain (q : pq.Queue) (a : α) : a ∈ pq.drain q ↔ a ∈ pq.items q := by
  rw [← Multiset.mem_coe, drain_items]

/-- What an offer does: the element goes in beside the others, it replaces a worse top,
or a full queue with no worse top stays as it is. -/
theorem offer_cases {capacity : Nat} (hcap : 0 < capacity) (q : pq.Queue) (a : α) :
    ((pq.items q).card < capacity ∧ pq.items (pq.offer capacity q a) = a ::ₘ pq.items q) ∨
    (∃ lowest rest, capacity ≤ (pq.items q).card ∧ pq.top q = some lowest ∧
      pq.items q = lowest ::ₘ rest ∧ (∀ b ∈ pq.items q, key lowest ≤ key b) ∧
      ((key lowest < key a ∧ pq.items (pq.offer capacity q a) = a ::ₘ rest) ∨
        (key a ≤ key lowest ∧ pq.items (pq.offer capacity q a) = pq.items q))) := by
  unfold offer
  rw [pq.size_eq]
  split
  · next hroom => exact .inl ⟨hroom, pq.items_push a q⟩
  · next hfull =>
      rw [Nat.not_lt] at hfull
      right
      cases htop : pq.top q with
      | none =>
          rw [pq.items_top_none q htop, Multiset.card_zero] at hfull
          omega
      | some lowest =>
          refine ⟨lowest, pq.items (pq.pop q), hfull, rfl, pq.items_pop q lowest htop,
            pq.key_top_le q lowest htop, ?_⟩
          simp only
          split
          · next hlt => exact .inl ⟨hlt, pq.items_push a _⟩
          · next hle => exact .inr ⟨not_lt.mp hle, rfl⟩

/-- The queue holds as many elements of `seen` as the capacity allows, and what it has
dropped is no better than what it holds. -/
structure Retains (capacity : Nat) (seen dropped : Multiset α) (q : pq.Queue) : Prop where
  seen_eq : seen = pq.items q + dropped
  card_eq : (pq.items q).card = min capacity seen.card
  dropped_le : ∀ d ∈ dropped, ∀ m ∈ pq.items q, key d ≤ key m

theorem retains_empty (capacity : Nat) : pq.Retains capacity 0 0 pq.empty := by
  refine ⟨?_, ?_, ?_⟩
  · rw [pq.items_empty, add_zero]
  · rw [pq.items_empty, Multiset.card_zero, Nat.min_zero]
  · intro d hd
    exact absurd hd (Multiset.notMem_zero d)

theorem Retains.card_le {pq : PriorityQueue key} {capacity : Nat}
    {seen dropped : Multiset α} {q : pq.Queue}
    (h : pq.Retains capacity seen dropped q) : (pq.items q).card ≤ capacity := by
  rw [h.card_eq]
  exact Nat.min_le_left _ _

theorem Retains.dropped_eq_zero {pq : PriorityQueue key} {capacity : Nat}
    {seen dropped : Multiset α} {q : pq.Queue}
    (h : pq.Retains capacity seen dropped q) (hroom : (pq.items q).card < capacity) :
    dropped = 0 := by
  have hcard := congrArg Multiset.card h.seen_eq
  rw [Multiset.card_add] at hcard
  have hmin := h.card_eq
  rw [← Multiset.card_eq_zero]
  omega

theorem retains_offer {capacity : Nat} (hcap : 0 < capacity) {seen dropped : Multiset α}
    {q : pq.Queue} (h : pq.Retains capacity seen dropped q) (a : α) :
    ∃ dropped', pq.Retains capacity (a ::ₘ seen) dropped' (pq.offer capacity q a) := by
  have hmin := h.card_eq
  have hle := h.card_le
  have hseen := h.seen_eq
  rcases pq.offer_cases hcap q a with ⟨hroom, hitems⟩ |
    ⟨lowest, rest, hfull, -, hq, hlowest, ⟨hlt, hitems⟩ | ⟨hge, hitems⟩⟩
  · have hzero := h.dropped_eq_zero hroom
    refine ⟨0, ?_, ?_, ?_⟩
    · rw [hitems, hseen, hzero, add_zero, add_zero]
    · rw [hitems, Multiset.card_cons, Multiset.card_cons]
      omega
    · intro d hd
      exact absurd hd (Multiset.notMem_zero d)
  · refine ⟨lowest ::ₘ dropped, ?_, ?_, ?_⟩
    · rw [hitems, hseen, hq, Multiset.cons_add, Multiset.cons_add, Multiset.add_cons,
        Multiset.cons_swap]
    · rw [hq, Multiset.card_cons] at hmin hle hfull
      rw [hitems, Multiset.card_cons, Multiset.card_cons]
      omega
    · intro d hd m hm
      rw [hitems, Multiset.mem_cons] at hm
      have hbelow : key d ≤ key lowest := by
        rcases Multiset.mem_cons.mp hd with rfl | hd
        · exact le_rfl
        · exact h.dropped_le d hd lowest (by rw [hq]; exact Multiset.mem_cons_self _ _)
      rcases hm with rfl | hm
      · exact hbelow.trans hlt.le
      · exact hbelow.trans (hlowest m (by rw [hq]; exact Multiset.mem_cons_of_mem hm))
  · refine ⟨a ::ₘ dropped, ?_, ?_, ?_⟩
    · rw [hitems, hseen, Multiset.add_cons]
    · rw [hitems, Multiset.card_cons]
      omega
    · intro d hd m hm
      rw [hitems] at hm
      rcases Multiset.mem_cons.mp hd with rfl | hd
      · exact hge.trans (hlowest m hm)
      · exact h.dropped_le d hd m hm

/-- A whole stream keeps the invariant, whatever the queue does with ties. -/
theorem retains_foldl {capacity : Nat} (hcap : 0 < capacity) (stream : List α) :
    ∃ dropped, pq.Retains capacity stream dropped
      (stream.foldl (pq.offer capacity) pq.empty) := by
  suffices h : ∀ (q : pq.Queue) (seen dropped : Multiset α),
      pq.Retains capacity seen dropped q →
        ∃ dropped', pq.Retains capacity (seen + stream) dropped'
          (stream.foldl (pq.offer capacity) q) by
    simpa only [zero_add] using h pq.empty 0 0 (pq.retains_empty capacity)
  induction stream with
  | nil =>
      intro q seen dropped h
      exact ⟨dropped, by simpa using h⟩
  | cons a stream ih =>
      intro q seen dropped h
      obtain ⟨dropped', h'⟩ := pq.retains_offer hcap h a
      have hsplit : seen + ((a :: stream : List α) : Multiset α) = a ::ₘ seen + stream := by
        rw [← Multiset.cons_coe, Multiset.add_cons, Multiset.cons_add]
      rw [List.foldl_cons, hsplit]
      exact ih _ _ _ h'

end PriorityQueue
