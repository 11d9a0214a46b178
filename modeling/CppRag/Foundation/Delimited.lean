import Mathlib.Data.List.Infix

/-!
Texts that a delimiter ends. A text that the delimiter does not occur in, not even with its own
beginning after the text, is read back from whatever follows the delimiter.
-/
namespace Delimited
variable {α : Type} {delimiter text text' rest rest' : List α}

/-- The delimiter occurs for the first time right after the text. -/
def EndsAt (delimiter text : List α) : Prop := ¬delimiter <:+: text ++ delimiter.dropLast

theorem EndsAt.ne_nil (h : EndsAt delimiter text) : delimiter ≠ [] := by
  rintro rfl
  exact h (List.nil_infix)

/-- The longer one of two texts would have the delimiter inside. -/
theorem EndsAt.length_le (h : EndsAt delimiter text')
    (heq : text ++ (delimiter ++ rest) = text' ++ (delimiter ++ rest')) :
    text'.length ≤ text.length := by
  by_contra hlt
  have hne := h.ne_nil
  have hsplit := List.dropLast_append_getLast hne
  have hlong : text' ++ delimiter.dropLast <+: text' ++ (delimiter ++ rest') := by
    refine (List.prefix_append_right_inj text').mpr ?_
    exact (List.dropLast_prefix delimiter).trans (List.prefix_append _ _)
  have hshort : text ++ delimiter <+: text' ++ (delimiter ++ rest') := by
    rw [← heq, ← List.append_assoc]
    exact List.prefix_append _ _
  have hwithin : text ++ delimiter <+: text' ++ delimiter.dropLast := by
    refine List.prefix_of_prefix_length_le hshort hlong ?_
    have hpos := List.length_pos_iff.mpr hne
    rw [List.length_append, List.length_append, List.length_dropLast]
    omega
  exact h ((List.suffix_append text delimiter).isInfix.trans hwithin.isInfix)

theorem EndsAt.unique (h : EndsAt delimiter text) (h' : EndsAt delimiter text')
    (heq : text ++ (delimiter ++ rest) = text' ++ (delimiter ++ rest')) :
    text = text' ∧ rest = rest' := by
  have hlength := Nat.le_antisymm (h.length_le heq.symm) (h'.length_le heq)
  obtain ⟨htext, hrest⟩ := List.append_inj heq hlength
  exact ⟨htext, List.append_cancel_left hrest⟩

/-- A delimiter whose first symbol does not come back cannot begin in the text and end in
itself. -/
theorem endsAt_of_head {first : α} {tail : List α} (hfirst : first ∉ tail)
    (h : ¬first :: tail <:+: text) : EndsAt (first :: tail) text := by
  rintro ⟨front, back, heq⟩
  rcases List.append_eq_append_iff.mp heq with ⟨middle, htext, hback⟩ | ⟨middle, hfront, hrest⟩
  · exact h ⟨front, middle, htext.symm⟩
  · cases middle with
    | nil => exact h ⟨front, [], by rw [hfront, List.append_nil, List.append_nil]⟩
    | cons symbol middle =>
        have hlength := congrArg List.length hrest
        rw [List.length_dropLast, List.length_append, List.length_cons, List.length_cons] at hlength
        have hsymbol : symbol = first := by
          cases tail with
          | nil => cases hrest
          | cons next tail => exact (List.cons.inj hrest).1.symm
        subst hsymbol
        rcases List.append_eq_append_iff.mp hfront with ⟨start, htext, htail⟩ | ⟨start, -, htail⟩
        · cases start with
          | nil =>
              have hsame := congrArg List.length htail
              rw [List.nil_append, List.length_cons, List.length_cons] at hsame
              omega
          | cons other start =>
              refine hfirst ?_
              rw [(List.cons.inj htail).2]
              exact List.mem_append_right _ List.mem_cons_self
        · have hlong := congrArg List.length htail
          rw [List.length_append, List.length_cons, List.length_cons] at hlong
          omega

theorem endsAt_singleton {symbol : α} (h : symbol ∉ text) : EndsAt [symbol] text := by
  refine endsAt_of_head List.not_mem_nil fun hinside => h ?_
  exact hinside.subset List.mem_cons_self

/-- What a separator ends from behind. -/
theorem unique_last {symbol : α} (h : symbol ∉ text) (h' : symbol ∉ text')
    (heq : rest ++ symbol :: text = rest' ++ symbol :: text') : rest = rest' ∧ text = text' := by
  have hreverse := congrArg List.reverse heq
  simp only [List.reverse_append, List.reverse_cons, List.append_assoc] at hreverse
  have hunique := (endsAt_singleton (by simpa using h)).unique
    (endsAt_singleton (by simpa using h')) hreverse
  exact ⟨List.reverse_inj.mp hunique.2, List.reverse_inj.mp hunique.1⟩

end Delimited
