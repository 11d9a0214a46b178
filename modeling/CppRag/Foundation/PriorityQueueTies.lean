import CppRag.Foundation.PriorityQueue
import Mathlib.Data.List.Induction
import Mathlib.Data.List.MinMax
import Mathlib.Data.Prod.Lex

/-!
Which elements of a stream survive in a bounded queue when keys tie. An element is safe
from every queue while few elements reach its key; once enough do, some queue gives it
up for a better one.
-/
namespace PriorityQueue
variable {α K : Type} [LinearOrder K] {key : α → K} (pq : PriorityQueue key)

/-- How many elements of a stream have at least the key `k`. -/
def reaching (key : α → K) (k : K) (seen : Multiset α) : Nat :=
  seen.countP fun b => k ≤ key b

theorem Retains.card_le_reaching {pq : PriorityQueue key} {capacity : Nat}
    {seen dropped : Multiset α} {q : pq.Queue} (h : pq.Retains capacity seen dropped q) {a : α}
    (hall : ∀ b ∈ pq.items q, key a ≤ key b) : (pq.items q).card ≤ reaching key (key a) seen := by
  rw [← Multiset.countP_eq_card.mpr hall, reaching, h.seen_eq]
  exact Multiset.countP_le_of_le _ (Multiset.le_add_right _ _)

/-- An element few others reach is let in. -/
theorem mem_offer_self {capacity : Nat} (hcap : 0 < capacity) {seen dropped : Multiset α}
    {q : pq.Queue} (h : pq.Retains capacity seen dropped q) {a : α}
    (hfew : reaching key (key a) seen < capacity) : a ∈ pq.items (pq.offer capacity q a) := by
  rcases pq.offer_cases hcap q a with ⟨-, hitems⟩ |
    ⟨lowest, rest, hfull, -, -, hlowest, ⟨-, hitems⟩ | ⟨hge, -⟩⟩
  · rw [hitems]
    exact Multiset.mem_cons_self _ _
  · rw [hitems]
    exact Multiset.mem_cons_self _ _
  · have hcard := h.card_le_reaching fun b hb => hge.trans (hlowest b hb)
    omega

/-- An element few others reach is not pushed out. -/
theorem mem_offer_of_mem {capacity : Nat} (hcap : 0 < capacity) {seen dropped : Multiset α}
    {q : pq.Queue} (h : pq.Retains capacity seen dropped q) {a b : α} (hb : b ∈ pq.items q)
    (hfew : key b < key a → reaching key (key b) seen < capacity) :
    b ∈ pq.items (pq.offer capacity q a) := by
  rcases pq.offer_cases hcap q a with ⟨-, hitems⟩ |
    ⟨lowest, rest, hfull, -, hq, hlowest, ⟨hlt, hitems⟩ | ⟨-, hitems⟩⟩
  · rw [hitems]
    exact Multiset.mem_cons_of_mem hb
  · rw [hitems]
    rw [hq] at hb
    rcases Multiset.mem_cons.mp hb with rfl | hb
    · have hcard := h.card_le_reaching hlowest
      have hreach := hfew hlt
      omega
    · exact Multiset.mem_cons_of_mem hb
  · rw [hitems]
    exact hb

theorem mem_items_offer {capacity : Nat} (hcap : 0 < capacity) {q : pq.Queue} {a b : α}
    (h : b ∈ pq.items (pq.offer capacity q a)) : b = a ∨ b ∈ pq.items q := by
  rcases pq.offer_cases hcap q a with ⟨-, hitems⟩ |
    ⟨lowest, rest, -, -, hq, -, ⟨-, hitems⟩ | ⟨-, hitems⟩⟩
  · rw [hitems] at h
    exact Multiset.mem_cons.mp h
  · rw [hitems] at h
    rw [hq]
    exact (Multiset.mem_cons.mp h).imp_right Multiset.mem_cons_of_mem
  · rw [hitems] at h
    exact .inr h

theorem mem_items_foldl {capacity : Nat} (hcap : 0 < capacity) {b : α} (stream : List α)
    (q : pq.Queue) (h : b ∈ pq.items (stream.foldl (pq.offer capacity) q)) :
    b ∈ stream ∨ b ∈ pq.items q := by
  induction stream generalizing q with
  | nil => exact .inr h
  | cons a stream ih =>
      rcases ih _ h with hmem | hmem
      · exact .inl (List.mem_cons_of_mem a hmem)
      · rcases pq.mem_items_offer hcap hmem with rfl | hmem
        · exact .inl List.mem_cons_self
        · exact .inr hmem

/-- An element survives a stream when few reach it as it arrives, and few have reached
it whenever a better one arrives later. -/
theorem mem_foldl_of_few {capacity : Nat} (hcap : 0 < capacity) {before after : List α} {a : α}
    (harrival : reaching key (key a) before < capacity)
    (hlater : ∀ mid b rest, after = mid ++ b :: rest → key a < key b →
      reaching key (key a) (before ++ a :: mid : List α) < capacity) :
    a ∈ pq.items ((before ++ a :: after).foldl (pq.offer capacity) pq.empty) := by
  induction after using List.reverseRecOn with
  | nil =>
      obtain ⟨dropped, hretains⟩ := pq.retains_foldl hcap before
      rw [List.foldl_append, List.foldl_cons, List.foldl_nil]
      exact pq.mem_offer_self hcap hretains harrival
  | append_singleton after b ih =>
      obtain ⟨dropped, hretains⟩ := pq.retains_foldl hcap (before ++ a :: after)
      have hkept := ih fun mid b' rest hsplit hlt =>
        hlater mid b' (rest ++ [b]) (by rw [hsplit, List.append_assoc]; rfl) hlt
      rw [← List.cons_append, ← List.append_assoc, List.foldl_append, List.foldl_cons,
        List.foldl_nil]
      exact pq.mem_offer_of_mem hcap hretains hkept (hlater after b [] rfl)

/-! A queue that gives up one element as soon as ties allow it. -/

section Preferring
variable [DecidableEq α]

/-- The key, ties broken in favour of `victim`. -/
def victimKey (key : α → K) (victim a : α) : K ×ₗ Nat :=
  toLex (key a, if a = victim then 0 else 1)

def preferring (key : α → K) (victim : α) : PriorityQueue key where
  Queue := List α
  empty := []
  push := List.cons
  top := List.argmin (victimKey key victim)
  pop q :=
    match q.argmin (victimKey key victim) with
    | none => q
    | some a => q.erase a
  size := List.length
  items := fun q => q
  items_empty := rfl
  items_push := fun _ _ => rfl
  items_top_none := by
    intro q h
    rw [List.argmin_eq_none.mp h]
    rfl
  items_pop := by
    intro q a h
    simp only [h]
    exact Multiset.coe_eq_coe.mpr (List.perm_cons_erase (List.argmin_mem h))
  key_top_le := by
    intro q a h b hb
    have hle := List.le_of_mem_argmin hb h
    rw [victimKey, victimKey, Prod.Lex.toLex_le_toLex] at hle
    exact hle.elim le_of_lt fun heq => heq.1.le
  size_eq := fun _ => rfl

/-- The victim is on top whenever its key is least. -/
theorem preferring_top {victim : α} {q : List α} (hmem : victim ∈ q)
    (hleast : ∀ b ∈ q, key victim ≤ key b) : (preferring key victim).top q = some victim := by
  cases htop : q.argmin (victimKey key victim) with
  | none =>
      rw [List.argmin_eq_none.mp htop] at hmem
      cases hmem
  | some a =>
      have hle := List.le_of_mem_argmin hmem htop
      have ha : a = victim := by
        rw [victimKey, victimKey, Prod.Lex.toLex_le_toLex] at hle
        rcases hle with hlt | ⟨-, hle⟩
        · exact absurd hlt (not_lt.mpr (hleast a (List.argmin_mem htop)))
        · by_contra hne
          simp [hne] at hle
      rw [ha] at htop
      exact htop

/-- A full queue loses its victim to a better element once enough elements reach it. -/
theorem offer_evicts {capacity : Nat} (hcap : 0 < capacity) {seen dropped : Multiset α}
    {victim b : α} {q : (preferring key victim).Queue}
    (h : (preferring key victim).Retains capacity seen dropped q) (hnodup : seen.Nodup)
    (hmany : capacity ≤ reaching key (key victim) seen) (hlt : key victim < key b) :
    victim ∉ (preferring key victim).items ((preferring key victim).offer capacity q b) := by
  have hne : victim ≠ b := fun heq => absurd (congrArg key heq) hlt.ne
  by_cases hin : victim ∈ (preferring key victim).items q
  · have hitems_nodup : ((preferring key victim).items q).Nodup :=
      Multiset.nodup_of_le (by rw [h.seen_eq]; exact Multiset.le_add_right _ _) hnodup
    -- An element below the victim would keep everything that reaches the victim inside.
    have hleast : ∀ c ∈ (preferring key victim).items q, key victim ≤ key c := by
      intro c hc
      by_contra hbelow
      rw [not_le] at hbelow
      have hdropped : Multiset.countP (fun d => key victim ≤ key d) dropped = 0 := by
        rw [Multiset.countP_eq_zero]
        intro d hd
        exact not_le.mpr ((h.dropped_le d hd c hc).trans_lt hbelow)
      have hstrict : Multiset.countP (fun d => key victim ≤ key d)
          ((preferring key victim).items q) < ((preferring key victim).items q).card := by
        refine lt_of_le_of_ne (Multiset.countP_le_card _ _) fun heq => ?_
        exact absurd (Multiset.countP_eq_card.mp heq c hc) (not_le.mpr hbelow)
      have hle := h.card_le
      rw [reaching, h.seen_eq, Multiset.countP_add, hdropped] at hmany
      omega
    rcases (preferring key victim).offer_cases hcap q b with ⟨hroom, -⟩ |
      ⟨lowest, rest, -, htop, hq, -, hcases⟩
    · have hcard := h.card_eq
      have hreach : reaching key (key victim) seen ≤ seen.card := Multiset.countP_le_card _ _
      omega
    · rw [preferring_top hin hleast] at htop
      cases htop
      rcases hcases with ⟨-, hitems⟩ | ⟨hge, -⟩
      · rw [hitems, Multiset.mem_cons, not_or]
        rw [hq] at hitems_nodup
        exact ⟨hne, (Multiset.nodup_cons.mp hitems_nodup).1⟩
      · exact absurd hlt (not_lt.mpr hge)
  · intro hmem
    exact ((preferring key victim).mem_items_offer hcap hmem).elim hne hin

theorem foldl_evicts {capacity : Nat} (hcap : 0 < capacity) {seen rest : List α} {victim b : α}
    (hnodup : (seen ++ b :: rest).Nodup) (hseen : victim ∈ seen)
    (hmany : capacity ≤ reaching key (key victim) (seen : Multiset α)) (hlt : key victim < key b) :
    victim ∉ (preferring key victim).items
      ((seen ++ b :: rest).foldl ((preferring key victim).offer capacity)
        (preferring key victim).empty) := by
  obtain ⟨hseen_nodup, -, hdisjoint⟩ := List.nodup_append.mp hnodup
  obtain ⟨dropped, hretains⟩ := (preferring key victim).retains_foldl hcap seen
  have hevicted := offer_evicts hcap hretains (Multiset.coe_nodup.mpr hseen_nodup) hmany hlt
  rw [List.foldl_append, List.foldl_cons]
  intro hmem
  rcases (preferring key victim).mem_items_foldl hcap rest _ hmem with hrest | hq
  · exact hdisjoint victim hseen victim (List.mem_cons_of_mem b hrest) rfl
  · exact hevicted hq

end Preferring

end PriorityQueue
