import CppRag.Foundation.Slice
import Mathlib.Data.List.Infix

/-!
Positions in a text that is the UTF-8 encoding of a list of code points. A byte is a
continuation byte exactly when it is not the first of its code point, so the code point
boundaries are the positions without one.
-/
namespace Utf8
open Slice

def encodeChars (chars : List Char) : List UInt8 := chars.flatMap String.utf8EncodeChar

/-- What holds of the numbers below 256 holds of bytes. -/
theorem forall_byte {p : UInt8 → Prop} (h : ∀ byte : Fin 256, p (UInt8.ofNat byte))
    (value : UInt8) : p value := by
  have hvalue := h ⟨value.toNat, value.toNat_lt⟩
  rwa [UInt8.ofNat_toNat] at hvalue

/-- The two highest bits are 10. -/
def IsContinuation (value : UInt8) : Prop := value &&& 0xC0 = 0x80

instance (value : UInt8) : Decidable (IsContinuation value) :=
  inferInstanceAs (Decidable (value &&& 0xC0 = 0x80))

theorem not_isContinuation_of_first (value : UInt8) (h : value.IsUTF8FirstByte) :
    ¬IsContinuation value :=
  forall_byte (p := fun value => value.IsUTF8FirstByte → ¬IsContinuation value)
    (by decide +kernel) value h

theorem isContinuation_low_six (value : UInt8) : IsContinuation (value &&& 0x3f ||| 0x80) :=
  forall_byte (p := fun value => IsContinuation (value &&& 0x3f ||| 0x80)) (by decide +kernel) value

theorem isContinuation_of_mem_tail {c : Char} {value : UInt8}
    (h : value ∈ (String.utf8EncodeChar c).tail) : IsContinuation value := by
  rcases c.utf8Size_eq with hsize | hsize | hsize | hsize
  · rw [String.utf8EncodeChar_eq_singleton hsize] at h
    cases h
  · rw [String.utf8EncodeChar_eq_cons_cons hsize, List.tail_cons, List.mem_singleton] at h
    exact h ▸ isContinuation_low_six _
  · rw [String.utf8EncodeChar_eq_cons_cons_cons hsize] at h
    simp only [List.tail_cons, List.mem_cons, List.not_mem_nil, or_false] at h
    rcases h with rfl | rfl <;> exact isContinuation_low_six _
  · rw [String.utf8EncodeChar_eq_cons_cons_cons_cons hsize] at h
    simp only [List.tail_cons, List.mem_cons, List.not_mem_nil, or_false] at h
    rcases h with rfl | rfl | rfl <;> exact isContinuation_low_six _

/-- Of the bytes of a code point all but the first are continuation bytes. -/
theorem isContinuation_iff {c : Char} {j : Nat} (hj : j < (String.utf8EncodeChar c).length) :
    IsContinuation (String.utf8EncodeChar c)[j] ↔ j ≠ 0 := by
  constructor
  · rintro h rfl
    exact not_isContinuation_of_first _ UInt8.isUTF8FirstByte_getElem_zero_utf8EncodeChar h
  · intro hne
    obtain ⟨k, rfl⟩ := Nat.exists_eq_succ_of_ne_zero hne
    refine isContinuation_of_mem_tail (List.mem_iff_getElem.mpr ⟨k, ?_, List.getElem_tail _⟩)
    rw [List.length_tail]
    omega

/-! The code point a byte belongs to. -/

theorem encodeChars_append (first second : List Char) :
    encodeChars (first ++ second) = encodeChars first ++ encodeChars second :=
  List.flatMap_append

theorem encodeChars_cons (c : Char) (chars : List Char) :
    encodeChars (c :: chars) = String.utf8EncodeChar c ++ encodeChars chars :=
  List.flatMap_cons

theorem exists_char_at {chars : List Char} {i : Nat} (h : i < (encodeChars chars).length) :
    ∃ before c after j, chars = before ++ c :: after ∧ j < c.utf8Size ∧
      i = (encodeChars before).length + j := by
  induction chars generalizing i with
  | nil => exact absurd h (Nat.not_lt_zero i)
  | cons c chars ih =>
      rw [encodeChars_cons, List.length_append, String.length_utf8EncodeChar] at h
      by_cases hi : i < c.utf8Size
      · exact ⟨[], c, chars, i, rfl, hi, (Nat.zero_add i).symm⟩
      · obtain ⟨before, d, after, j, rfl, hj, heq⟩ :=
          ih (i := i - c.utf8Size) (by omega)
        refine ⟨c :: before, d, after, j, rfl, hj, ?_⟩
        rw [encodeChars_cons, List.length_append, String.length_utf8EncodeChar]
        omega

theorem getElem?_char (before : List Char) (c : Char) (after : List Char) {j : Nat}
    (hj : j < c.utf8Size) :
    (encodeChars (before ++ c :: after))[(encodeChars before).length + j]? =
      (String.utf8EncodeChar c)[j]? := by
  rw [encodeChars_append, encodeChars_cons, List.getElem?_append_right (Nat.le_add_right _ _),
    Nat.add_sub_cancel_left, List.getElem?_append_left]
  rwa [String.length_utf8EncodeChar]

/-- A position whose byte is a continuation byte. -/
def ContinuesAt (text : List UInt8) (i : Nat) : Prop := ∃ value ∈ text[i]?, IsContinuation value

theorem continuesAt_char_iff (before : List Char) (c : Char) (after : List Char) {j : Nat}
    (hj : j < c.utf8Size) :
    ContinuesAt (encodeChars (before ++ c :: after)) ((encodeChars before).length + j) ↔
      j ≠ 0 := by
  have hlength : j < (String.utf8EncodeChar c).length := by rwa [String.length_utf8EncodeChar]
  rw [ContinuesAt, getElem?_char before c after hj, List.getElem?_eq_getElem hlength]
  simpa using isContinuation_iff hlength

theorem not_continuesAt_of_length_le {text : List UInt8} {i : Nat} (h : text.length ≤ i) :
    ¬ContinuesAt text i := by
  rintro ⟨value, hvalue, -⟩
  rw [List.getElem?_eq_none h] at hvalue
  cases hvalue

/-- A position between two code points. -/
def Boundary (chars : List Char) (i : Nat) : Prop :=
  ∃ before after, chars = before ++ after ∧ (encodeChars before).length = i

theorem Boundary.not_continuesAt {chars : List Char} {i : Nat} (h : Boundary chars i) :
    ¬ContinuesAt (encodeChars chars) i := by
  obtain ⟨before, after, rfl, rfl⟩ := h
  cases after with
  | nil =>
      rw [List.append_nil]
      exact not_continuesAt_of_length_le (Nat.le_refl _)
  | cons c after =>
      have hiff := continuesAt_char_iff before c after c.utf8Size_pos
      rw [Nat.add_zero] at hiff
      exact fun h => hiff.mp h rfl

theorem boundary_of_not_continuesAt {chars : List Char} {i : Nat}
    (hle : i ≤ (encodeChars chars).length) (h : ¬ContinuesAt (encodeChars chars) i) :
    Boundary chars i := by
  rcases Nat.eq_or_lt_of_le hle with rfl | hlt
  · exact ⟨chars, [], (List.append_nil _).symm, rfl⟩
  · obtain ⟨before, c, after, j, rfl, hj, rfl⟩ := exists_char_at hlt
    have hzero : j = 0 := by
      by_contra hne
      exact h ((continuesAt_char_iff before c after hj).mpr hne)
    subst hzero
    exact ⟨before, c :: after, rfl, rfl⟩

/-- The end of the code point a byte belongs to. -/
theorem exists_next_boundary {chars : List Char} {i : Nat}
    (h : i < (encodeChars chars).length) :
    ∃ c ∈ chars, ∃ j next, j < c.utf8Size ∧ next + j = i + c.utf8Size ∧ Boundary chars next ∧
      (ContinuesAt (encodeChars chars) i ↔ j ≠ 0) ∧
      (encodeChars chars)[i]? = (String.utf8EncodeChar c)[j]? := by
  obtain ⟨before, c, after, j, rfl, hj, rfl⟩ := exists_char_at h
  refine ⟨c, List.mem_append_right _ List.mem_cons_self, j,
    (encodeChars before).length + c.utf8Size, hj, by omega,
    ⟨before ++ [c], after, by rw [List.append_assoc]; rfl, ?_⟩,
    continuesAt_char_iff before c after hj, getElem?_char before c after hj⟩
  rw [encodeChars_append, List.length_append, encodeChars_cons, List.length_append,
    String.length_utf8EncodeChar]
  rfl

/-- From any position the next boundary is at most three bytes away. -/
theorem exists_boundary_within (chars : List Char) {i : Nat}
    (h : i ≤ (encodeChars chars).length) :
    ∃ next, i ≤ next ∧ next ≤ i + 3 ∧ Boundary chars next := by
  rcases Nat.eq_or_lt_of_le h with rfl | hlt
  · exact ⟨_, Nat.le_refl _, Nat.le_add_right _ _, chars, [], (List.append_nil _).symm, rfl⟩
  · obtain ⟨c, -, j, next, hj, hnext, hboundary, hiff, -⟩ := exists_next_boundary hlt
    by_cases hzero : ContinuesAt (encodeChars chars) i
    · have hne := hiff.mp hzero
      have hfour := c.utf8Size_le_four
      exact ⟨next, by omega, by omega, hboundary⟩
    · exact ⟨i, Nat.le_refl _, Nat.le_add_right _ _, boundary_of_not_continuesAt h hzero⟩

/-- From a boundary inside the text the next one is the size of a code point away. -/
theorem Boundary.exists_next {chars : List Char} {i limit : Nat} (h : Boundary chars i)
    (hlt : i < (encodeChars chars).length) (hlimit : ∀ c ∈ chars, c.utf8Size ≤ limit) :
    ∃ next, i < next ∧ next ≤ i + limit ∧ Boundary chars next := by
  obtain ⟨c, hc, j, next, hj, hnext, hboundary, hiff, -⟩ := exists_next_boundary hlt
  have hzero : j = 0 := by
    by_contra hne
    exact h.not_continuesAt (hiff.mpr hne)
  have hfits := hlimit c hc
  exact ⟨next, by omega, by omega, hboundary⟩

theorem lead_not_ascii (value : UInt8) {lead : UInt8}
    (h : lead = 0xc0 ∨ lead = 0xe0 ∨ lead = 0xf0) :
    (value ||| lead) &&& 0x80 ≠ 0 := by
  have hvalue := forall_byte (p := fun value => (value ||| 0xc0) &&& 0x80 ≠ 0 ∧
    (value ||| 0xe0) &&& 0x80 ≠ 0 ∧ (value ||| 0xf0) &&& 0x80 ≠ 0) (by decide +kernel) value
  rcases h with rfl | rfl | rfl
  · exact hvalue.1
  · exact hvalue.2.1
  · exact hvalue.2.2

/-- A code point whose first byte is in the ASCII range has no other. -/
theorem utf8Size_eq_one_of_ascii {c : Char} {value : UInt8}
    (h : (String.utf8EncodeChar c)[0]? = some value) (hascii : value &&& 0x80 = 0) :
    c.utf8Size = 1 := by
  rcases c.utf8Size_eq with hsize | hsize | hsize | hsize
  · exact hsize
  · rw [String.utf8EncodeChar_eq_cons_cons hsize] at h
    cases h
    exact absurd hascii (lead_not_ascii _ (.inl rfl))
  · rw [String.utf8EncodeChar_eq_cons_cons_cons hsize] at h
    cases h
    exact absurd hascii (lead_not_ascii _ (.inr (.inl rfl)))
  · rw [String.utf8EncodeChar_eq_cons_cons_cons_cons hsize] at h
    cases h
    exact absurd hascii (lead_not_ascii _ (.inr (.inr rfl)))

/-- After a byte of the ASCII range a code point begins. -/
theorem boundary_after_ascii {chars : List Char} {i : Nat} {value : UInt8}
    (h : (encodeChars chars)[i]? = some value) (hascii : value &&& 0x80 = 0) :
    Boundary chars (i + 1) := by
  have hlt : i < (encodeChars chars).length := (List.getElem?_eq_some_iff.mp h).1
  obtain ⟨c, -, j, next, hj, hnext, hboundary, hiff, hbyte⟩ := exists_next_boundary hlt
  have hzero : j = 0 := by
    by_contra hne
    obtain ⟨value', hvalue', hcontinuation⟩ := hiff.mpr hne
    rw [h] at hvalue'
    cases hvalue'
    exact not_isContinuation_of_first value (.inl hascii) hcontinuation
  subst hzero
  rw [h] at hbyte
  have hone := utf8Size_eq_one_of_ascii hbyte.symm hascii
  rwa [show i + 1 = next by omega]

/-- The code points between two boundaries. -/
theorem Boundary.between {chars : List Char} {i j : Nat} (hi : Boundary chars i)
    (hj : Boundary chars j) (hle : i ≤ j) :
    ∃ before middle after, chars = before ++ (middle ++ after) ∧
      (encodeChars before).length = i ∧ (encodeChars (before ++ middle)).length = j ∧
      slice (encodeChars chars) i (j - i) = encodeChars middle := by
  obtain ⟨before, rest, hsplit, rfl⟩ := hi
  obtain ⟨before', rest', hsplit', rfl⟩ := hj
  have hprefix : before <+: before' := by
    have hp : before <+: chars := ⟨rest, hsplit.symm⟩
    have hp' : before' <+: chars := ⟨rest', hsplit'.symm⟩
    rcases List.prefix_or_prefix_of_prefix hp hp' with h | ⟨more, rfl⟩
    · exact h
    · rw [encodeChars_append, List.length_append] at hle
      have hnil : encodeChars more = [] := List.eq_nil_of_length_eq_zero (by omega)
      cases more with
      | nil => rw [List.append_nil]
      | cons c more =>
          rw [encodeChars_cons] at hnil
          exact absurd (List.append_eq_nil_iff.mp hnil).1 String.utf8EncodeChar_ne_nil
  obtain ⟨middle, rfl⟩ := hprefix
  refine ⟨before, middle, rest', by rw [hsplit', List.append_assoc], rfl, rfl, ?_⟩
  rw [hsplit', List.append_assoc, encodeChars_append, encodeChars_append]
  refine slice_middle _ _ _ _ _ rfl ?_
  rw [encodeChars_append, List.length_append, Nat.add_sub_cancel_left]

end Utf8
