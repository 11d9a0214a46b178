import CppRag.PromptSizes
import CppRag.Foundation.Utf8

/-!
The escaping of chunk text as an operation on texts: what it inserts and where, the texts it
leaves alone, and that it keeps a text well-formed UTF-8.
-/
namespace CppRag
open Characters Observed Separation Utf8

/-- Where in its output `append_escaped` pushes a space of its own. -/
def insertedSpaces (text : Bytes) : List Nat := insertedFrom needsEscape 0 text

/-! Texts that are left alone. -/

theorem pair_mem_of_needsEscape {current next : UInt8} (h : needsEscape current next = true) :
    [current, next] ∈ delimiterPairs := by
  unfold needsEscape at h
  split at h
  · next hless =>
      obtain ⟨rfl, rfl | rfl⟩ := hless
      · decide
      · decide
  · split at h
    · next hgreater =>
        obtain ⟨rfl, rfl⟩ := hgreater
        decide
    · obtain ⟨rfl, rfl⟩ := of_decide_eq_true h
      decide

theorem Plain.isChain {text : Bytes} (h : Plain text) :
    text.IsChain fun a b => needsEscape a b = false := by
  rw [List.isChain_iff_forall_rel_of_append_cons_cons]
  intro current next before after hsplit
  refine Bool.eq_false_iff.mpr fun hescape => ?_
  refine h [current, next] (pair_mem_of_needsEscape hescape) ⟨before, after, ?_⟩
  rw [hsplit, List.append_assoc]
  rfl

theorem escapeText_eq_self_iff (text : Bytes) : escapeText text = text ↔ Plain text := by
  constructor
  · intro heq
    have hplain := plain_escapeText text
    rwa [heq] at hplain
  · intro hplain
    rw [escapeText_eq_separate]
    exact separate_eq_self hplain.isChain

theorem escapeText_escapeText (text : Bytes) : escapeText (escapeText text) = escapeText text := by
  rw [escapeText_eq_separate (escapeText text), escapeText_eq_separate text]
  exact separate_separate (fun byte => (needsEscape_space byte).1)
    (fun byte => (needsEscape_space byte).2) text

/-! Well-formed UTF-8. -/

theorem ascii_of_needsEscape {current next : UInt8} (h : needsEscape current next = true) :
    current &&& 0x80 = 0 := by
  unfold needsEscape at h
  split at h
  · next hless =>
      rw [hless.1]
      decide
  · split at h
    · next hgreater =>
        rw [hgreater.1]
        decide
    · rw [(of_decide_eq_true h).1]
      decide

/-- Nothing is inserted after bytes outside the ASCII range. -/
theorem escapeText_append {bytes : Bytes} (h : ∀ byte ∈ bytes, byte &&& 0x80 ≠ 0)
    (text : Bytes) : escapeText (bytes ++ text) = bytes ++ escapeText text := by
  induction bytes with
  | nil => rfl
  | cons byte bytes ih =>
      have hquiet : ∀ next, ¬needsEscape byte next = true := by
        intro next hescape
        exact h byte List.mem_cons_self (ascii_of_needsEscape hescape)
      have hrest := ih fun byte hbyte => h byte (List.mem_cons_of_mem _ hbyte)
      cases hnext : bytes ++ text with
      | nil =>
          rw [hnext] at hrest
          rw [List.cons_append, hnext, List.cons_append, ← hrest]
          rfl
      | cons next rest =>
          rw [hnext] at hrest
          rw [List.cons_append, hnext, escapeText, if_neg (hquiet next), hrest, List.cons_append]

/-- After one byte at most one space is inserted. -/
theorem escapeText_cons (byte : UInt8) (text : Bytes) :
    ∃ inserted, (inserted = [] ∨ inserted = [space]) ∧
      escapeText (byte :: text) = byte :: (inserted ++ escapeText text) := by
  cases text with
  | nil => exact ⟨[], .inl rfl, rfl⟩
  | cons next text =>
      rw [escapeText]
      split
      · exact ⟨[space], .inr rfl, rfl⟩
      · exact ⟨[], .inl rfl, rfl⟩

/-- A code point of one byte, or of bytes outside the ASCII range. -/
theorem encoded_char (c : Char) :
    (∃ byte, String.utf8EncodeChar c = [byte]) ∨
      ∀ byte ∈ String.utf8EncodeChar c, byte &&& 0x80 ≠ 0 := by
  by_cases hone : c.utf8Size = 1
  · exact .inl ⟨_, String.utf8EncodeChar_eq_singleton hone⟩
  · refine .inr fun byte hbyte hascii => ?_
    cases hencoded : String.utf8EncodeChar c with
    | nil => exact String.utf8EncodeChar_ne_nil hencoded
    | cons first tail =>
        rw [hencoded] at hbyte
        cases List.mem_cons.mp hbyte with
        | inl heq =>
            refine hone (utf8Size_eq_one_of_ascii ?_ hascii)
            rw [hencoded, heq]
            rfl
        | inr hmem =>
            have htail : byte ∈ (String.utf8EncodeChar c).tail := by
              rw [hencoded]
              exact hmem
            exact not_isContinuation_of_first byte (.inl hascii) (isContinuation_of_mem_tail htail)

theorem encodeChars_space : encodeChars [' '] = [space] := by decide

theorem escapeText_encodeChars (chars : List Char) :
    ∃ escaped, escapeText (encodeChars chars) = encodeChars escaped := by
  induction chars with
  | nil => exact ⟨[], rfl⟩
  | cons c chars ih =>
      obtain ⟨escaped, hescaped⟩ := ih
      rw [encodeChars_cons]
      cases encoded_char c with
      | inl hone =>
          obtain ⟨byte, hbyte⟩ := hone
          obtain ⟨inserted, hinserted, heq⟩ := escapeText_cons byte (encodeChars chars)
          rw [hbyte, List.singleton_append, heq, hescaped]
          cases hinserted with
          | inl hnone =>
              refine ⟨c :: escaped, ?_⟩
              rw [hnone, encodeChars_cons, hbyte]
              rfl
          | inr hspace =>
              refine ⟨c :: ([' '] ++ escaped), ?_⟩
              rw [hspace, encodeChars_cons, encodeChars_append, encodeChars_space, hbyte]
              rfl
      | inr hwide =>
          refine ⟨c :: escaped, ?_⟩
          rw [escapeText_append hwide, hescaped, encodeChars_cons]

/-- The escaping removes the delimiter pairs and changes nothing else: it only inserts the
spaces at the listed positions, is the identity on texts without a pair and so on its own output,
and the precomputed size is the size of its output. -/
theorem escapeText_exact (text : Bytes) :
    Plain (escapeText text) ∧
    (escapeText text).length = escapedSize text ∧
    (∀ view : StringView, view.bytes = text → ∃ size,
      Returns (Access.Exact 0) (SizeT.escapedSize view) size ∧
      size.toNat = (escapeText text).length) ∧
    (escapeText text = text ↔ Plain text) ∧
    escapeText (escapeText text) = escapeText text ∧
    (insertedSpaces text).Pairwise (· < ·) ∧
    (∀ position ∈ insertedSpaces text, (escapeText text)[position]? = some space) ∧
    remove (insertedSpaces text) (escapeText text) = text ∧
    ∀ chars, text = encodeChars chars → ∃ escaped, escapeText text = encodeChars escaped := by
  refine ⟨plain_escapeText text, length_escapeText text, ?_, escapeText_eq_self_iff text,
    escapeText_escapeText text, pairwise_insertedFrom 0 text, ?_, ?_, ?_⟩
  · rintro view rfl
    obtain ⟨size, hreturns, hsize⟩ := SizeT.returns_escapedSize view
    exact ⟨size, hreturns, by rw [hsize, length_escapeText]⟩
  · intro position hposition
    rw [escapeText_eq_separate]
    exact separate_getElem?_of_mem hposition
  · rw [escapeText_eq_separate]
    exact remove_separate text
  · rintro chars rfl
    exact escapeText_encodeChars chars

/-- Overlapping pairs. -/
theorem escapeText_exact_overlapping :
    insertedSpaces (ascii "<<|>>") = [1, 3, 5, 7] ∧
    (∀ position ∈ [1, 3, 5, 7], (escapeText (ascii "<<|>>"))[position]? = some space) ∧
    (∃ size, Returns (Access.Exact 0) (SizeT.escapedSize ⟨ascii "<<|>>", by decide⟩) size ∧
      size.toNat = (escapeText (ascii "<<|>>")).length) ∧
    ∃ escaped, escapeText (ascii "<<|>>") = encodeChars escaped := by
  obtain ⟨-, -, hsize, -, -, -, hspaces, -, hutf8⟩ := escapeText_exact (ascii "<<|>>")
  have hpositions : insertedSpaces (ascii "<<|>>") = [1, 3, 5, 7] := by decide
  rw [hpositions] at hspaces
  exact ⟨hpositions, hspaces, hsize ⟨ascii "<<|>>", by decide⟩ rfl,
    hutf8 ['<', '<', '|', '>', '>'] (by decide)⟩

end CppRag
