import Mathlib.Data.List.Infix
import Mathlib.Data.List.Chain

/-!
Where a pattern occurs in a text, overlapping occurrences included. A symbol that the
pattern does not contain separates: no occurrence straddles it. A text without the first
two symbols of a pattern side by side has no occurrence.
-/
namespace Occurrences
variable {α : Type} {pattern : List α}

/-- A prefix cannot reach past a symbol it does not contain. -/
theorem prefix_separator_iff {separator : α} (hsep : separator ∉ pattern)
    (before after : List α) :
    pattern <+: before ++ separator :: after ↔ pattern <+: before := by
  refine ⟨fun h => ?_, fun h => h.trans (List.prefix_append _ _)⟩
  induction before generalizing pattern with
  | nil =>
      cases pattern with
      | nil => exact List.nil_prefix
      | cons symbol pattern =>
          obtain ⟨heq, -⟩ := List.cons_prefix_cons.mp h
          exact absurd (heq ▸ List.mem_cons_self) hsep
  | cons symbol before ih =>
      cases pattern with
      | nil => exact List.nil_prefix
      | cons first pattern =>
          obtain ⟨rfl, htail⟩ := List.cons_prefix_cons.mp h
          exact List.cons_prefix_cons.mpr
            ⟨rfl, ih (fun hmem => hsep (List.mem_cons_of_mem first hmem)) htail⟩

/-- A pair of neighbours is an infix exactly when some step of the text makes it. -/
theorem pair_infix_iff (first second : α) (text : List α) :
    ¬[first, second] <:+: text ↔ text.IsChain fun a b => ¬(a = first ∧ b = second) := by
  induction text with
  | nil => simp
  | cons a text ih =>
      cases text with
      | nil => simp [List.infix_cons_iff]
      | cons b text =>
          rw [List.infix_cons_iff, not_or, ih, List.isChain_cons_cons]
          refine and_congr_left fun _ => not_congr ?_
          rw [List.cons_prefix_cons, List.cons_prefix_cons]
          simp [eq_comm]

variable [DecidableEq α]

/-- The positions at which `pattern` occurs in a text that starts at position `start`. -/
def occurrencesFrom (pattern : List α) (start : Nat) : List α → List Nat
  | [] => if pattern = [] then [start] else []
  | symbol :: text =>
      if pattern <+: symbol :: text then
        start :: occurrencesFrom pattern (start + 1) text
      else occurrencesFrom pattern (start + 1) text

def occurrences (pattern text : List α) : List Nat := occurrencesFrom pattern 0 text

theorem occurrencesFrom_add (start shift : Nat) (text : List α) :
    occurrencesFrom pattern (start + shift) text =
      (occurrencesFrom pattern start text).map (· + shift) := by
  induction text generalizing start with
  | nil =>
      unfold occurrencesFrom
      split <;> rfl
  | cons symbol text ih =>
      unfold occurrencesFrom
      rw [Nat.add_right_comm, ih]
      split <;> rfl

theorem occurrencesFrom_eq_map (start : Nat) (text : List α) :
    occurrencesFrom pattern start text = (occurrences pattern text).map (· + start) := by
  have h : occurrencesFrom pattern (0 + start) text = _ := occurrencesFrom_add 0 start text
  rwa [Nat.zero_add] at h

/-- Occurrences on the two sides of a separator are independent. -/
theorem occurrencesFrom_separator (hne : pattern ≠ []) {separator : α}
    (hsep : separator ∉ pattern) (start : Nat) (before after : List α) :
    occurrencesFrom pattern start (before ++ separator :: after) =
      occurrencesFrom pattern start before ++
        occurrencesFrom pattern (start + before.length + 1) after := by
  induction before generalizing start with
  | nil =>
      have hstart : ¬pattern <+: separator :: after := by
        intro h
        have hnil := (prefix_separator_iff hsep [] after).mp h
        exact hne (List.prefix_nil.mp hnil)
      simp only [List.nil_append, occurrencesFrom, if_neg hstart, if_neg hne, List.length_nil,
        Nat.add_zero]
  | cons symbol before ih =>
      have hiff := prefix_separator_iff hsep (symbol :: before) after
      rw [List.cons_append] at hiff
      rw [List.cons_append, occurrencesFrom, occurrencesFrom, ih, List.length_cons,
        Nat.add_right_comm start 1, Nat.add_assoc start before.length 1]
      by_cases hprefix : pattern <+: symbol :: before
      · rw [if_pos (hiff.mpr hprefix), if_pos hprefix, List.cons_append]
      · rw [if_neg (fun h => hprefix (hiff.mp h)), if_neg hprefix]

theorem occurrencesFrom_eq_nil_iff (start : Nat) (text : List α) :
    occurrencesFrom pattern start text = [] ↔ ¬pattern <:+: text := by
  induction text generalizing start with
  | nil =>
      rw [List.infix_nil, occurrencesFrom]
      split
      · next h => simp [h]
      · next h => simp [h]
  | cons symbol text ih =>
      rw [occurrencesFrom, List.infix_cons_iff, not_or]
      split
      · next h => simp [h]
      · next h => rw [ih]; simp [h]

/-- A pattern does not start inside a stretch that lacks its first symbol. -/
theorem occurrencesFrom_skip {first : α} {rest : List α} (start : Nat) (before after : List α)
    (h : first ∉ before) :
    occurrencesFrom (first :: rest) start (before ++ after) =
      occurrencesFrom (first :: rest) (start + before.length) after := by
  induction before generalizing start with
  | nil => rfl
  | cons symbol before ih =>
      have hne : ¬first :: rest <+: symbol :: (before ++ after) := by
        intro hprefix
        exact h ((List.cons_prefix_cons.mp hprefix).1 ▸ List.mem_cons_self)
      rw [List.cons_append, occurrencesFrom, if_neg hne,
        ih _ (fun hmem => h (List.mem_cons_of_mem symbol hmem)), List.length_cons,
        Nat.add_right_comm, Nat.add_assoc]

theorem infix_separator_iff (hne : pattern ≠ []) {separator : α} (hsep : separator ∉ pattern)
    (before after : List α) :
    pattern <:+: before ++ separator :: after ↔ pattern <:+: before ∨ pattern <:+: after := by
  have hsplit := occurrencesFrom_separator hne hsep 0 before after
  constructor
  · intro h
    by_contra hnone
    rw [not_or] at hnone
    rw [(occurrencesFrom_eq_nil_iff 0 before).mpr hnone.1,
      (occurrencesFrom_eq_nil_iff _ after).mpr hnone.2, List.append_nil] at hsplit
    exact (occurrencesFrom_eq_nil_iff 0 _).mp hsplit h
  · rintro (h | h)
    · exact h.trans (List.prefix_append _ _).isInfix
    · exact h.trans ((List.suffix_cons separator after).trans (List.suffix_append _ _)).isInfix

/-- The first position at which `pattern` occurs. -/
def find (pattern : List α) : List α → Option Nat
  | [] => if pattern = [] then some 0 else none
  | symbol :: text =>
      if pattern <+: symbol :: text then some 0 else (find pattern text).map (· + 1)

theorem find_eq_none_iff (text : List α) : find pattern text = none ↔ ¬pattern <:+: text := by
  induction text with
  | nil =>
      rw [List.infix_nil, find]
      split
      · next h => simp [h]
      · next h => simp [h]
  | cons symbol text ih =>
      rw [find, List.infix_cons_iff, not_or]
      split
      · next h => simp [h]
      · next h => rw [Option.map_eq_none_iff, ih]; simp [h]

theorem find_eq_some {position : Nat} {text : List α} (h : find pattern text = some position) :
    position ≤ text.length ∧ pattern <+: text.drop position ∧
      ∀ before, before < position → ¬pattern <+: text.drop before := by
  induction text generalizing position with
  | nil =>
      rw [find] at h
      split at h
      · next hnil =>
          cases h
          exact ⟨Nat.le_refl 0, hnil ▸ List.nil_prefix, fun before hlt => absurd hlt (by omega)⟩
      · cases h
  | cons symbol text ih =>
      rw [find] at h
      split at h
      · next hprefix =>
          cases h
          exact ⟨Nat.zero_le _, hprefix, fun before hlt => absurd hlt (by omega)⟩
      · next hprefix =>
          obtain ⟨found, hfound, rfl⟩ := Option.map_eq_some_iff.mp h
          obtain ⟨hle, hat, hbefore⟩ := ih hfound
          refine ⟨Nat.succ_le_succ hle, hat, fun before hlt => ?_⟩
          cases before with
          | zero => exact hprefix
          | succ before => exact hbefore before (by omega)

/-- A pattern in the beginning of a text is first found before the end of the beginning. -/
theorem find_of_infix_take {size : Nat} {text : List α} (hne : pattern ≠ [])
    (h : pattern <:+: text.take size) : ∃ position, find pattern text = some position ∧
      position < size := by
  obtain ⟨before, after, hsplit⟩ := h
  have hat : pattern <+: text.drop before.length := by
    refine ⟨after ++ text.drop size, ?_⟩
    have htext : before ++ (pattern ++ (after ++ text.drop size)) = text := by
      rw [← List.append_assoc, ← List.append_assoc, hsplit, List.take_append_drop]
    have hdrop : (before ++ (pattern ++ (after ++ text.drop size))).drop before.length =
        pattern ++ (after ++ text.drop size) := List.drop_left
    rwa [htext, eq_comm] at hdrop
  have hlen := congrArg List.length hsplit
  simp only [List.length_append, List.length_take] at hlen
  have hpos := List.length_pos_of_ne_nil hne
  cases hfind : find pattern text with
  | none =>
      exact absurd (hat.isInfix.trans (List.drop_suffix _ _).isInfix)
        ((find_eq_none_iff text).mp hfind)
  | some position =>
      refine ⟨position, rfl, ?_⟩
      have hfirst := (find_eq_some hfind).2.2 before.length
      by_contra hlarge
      exact hfirst (by omega) hat

end Occurrences
