import CppRag.PromptBudget
import CppRag.Foundation.Occurrences
import CppRag.Foundation.Separation
import CppRag.Foundation.Slice

/-!
Where the structural markers occur in an assembled prompt. None contains a newline or a
closing bracket, which stand around every variable part, so no occurrence straddles two
parts; and escaped text has no two neighbours that a marker needs.
-/
namespace CppRag
open Characters Occurrences Separation Slice

def beginMarker : Bytes := ascii "<<<BEGIN RETRIEVED CHUNK>>>"
def endMarker : Bytes := ascii "<<<END RETRIEVED CHUNK>>>"

def delimiterPairs : List Bytes := [ascii "<<", ascii ">>", ascii "<|", ascii "|>"]

/-- None of the four delimiter pairs occurs. -/
def Plain (text : Bytes) : Prop := ∀ pair ∈ delimiterPairs, ¬pair <:+: text

instance (text : Bytes) : Decidable (Plain text) :=
  inferInstanceAs (Decidable (∀ pair ∈ delimiterPairs, ¬pair <:+: text))

/-- What the fences and the chat delimiters have in common. -/
structure Structural (marker : Bytes) : Prop where
  ne_nil : marker ≠ []
  no_newline : newline ∉ marker
  no_bracket : 93 ∉ marker
  no_colon : 58 ∉ marker
  starts : marker.head? = some less ∨ marker.head? = some bar
  pair : ∃ pair ∈ delimiterPairs, pair <:+: marker

theorem structural_beginMarker : Structural beginMarker := by
  constructor <;> decide

theorem structural_endMarker : Structural endMarker := by
  constructor <;> decide

theorem structural_open : Structural (ascii "<|") := by
  constructor <;> decide

theorem structural_close : Structural (ascii "|>") := by
  constructor <;> decide

/-! Escaped text. -/

theorem needsEscape_space (byte : UInt8) :
    needsEscape byte space = false ∧ needsEscape space byte = false := by
  simp [needsEscape, space, less, greater, bar]

theorem escapeText_eq_separate (text : Bytes) :
    escapeText text = separate needsEscape space text := by
  induction text using escapeText.induct with
  | case1 current next text hescape ih =>
      rw [escapeText, separate, if_pos hescape, if_pos hescape, ih]
  | case2 current next text hescape ih =>
      rw [escapeText, separate, if_neg hescape, if_neg hescape, ih]
  | case3 text hshort =>
      rw [escapeText, separate]
      · exact hshort
      · exact hshort

theorem escapeText_isChain (text : Bytes) :
    (escapeText text).IsChain fun a b => needsEscape a b = false := by
  rw [escapeText_eq_separate]
  exact isChain_separate (fun byte => (needsEscape_space byte).1)
    (fun byte => (needsEscape_space byte).2) text

/-- No text gets a delimiter pair through the escaping. -/
theorem plain_escapeText (text : Bytes) : Plain (escapeText text) := by
  have hchain := escapeText_isChain text
  have hpair : ∀ a b, needsEscape a b = true → ¬[a, b] <:+: escapeText text := by
    intro a b hescape
    rw [pair_infix_iff]
    refine hchain.imp ?_
    rintro _ _ hfalse ⟨rfl, rfl⟩
    rw [hescape] at hfalse
    cases hfalse
  intro pair hpairs
  simp only [delimiterPairs, List.mem_cons, List.not_mem_nil, or_false] at hpairs
  rcases hpairs with rfl | rfl | rfl | rfl
  · exact hpair less less rfl
  · exact hpair greater greater rfl
  · exact hpair less bar rfl
  · exact hpair bar greater rfl

section Markers
variable {marker : Bytes} (hm : Structural marker)
include hm

theorem Structural.not_infix {text : Bytes} (h : Plain text) : ¬marker <:+: text := by
  obtain ⟨pair, hpairs, hinside⟩ := hm.pair
  exact fun hmarker => h pair hpairs (hinside.trans hmarker)

theorem Structural.none_in_plain {text : Bytes} (h : Plain text) (start : Nat) :
    occurrencesFrom marker start text = [] :=
  (occurrencesFrom_eq_nil_iff start text).mpr (hm.not_infix h)

/-- A stretch without `<` and `|` has no marker and starts none. -/
theorem Structural.skip (before : Bytes) (hless : less ∉ before) (hbar : bar ∉ before)
    (start : Nat) (after : Bytes) :
    occurrencesFrom marker start (before ++ after) =
      occurrencesFrom marker (start + before.length) after := by
  cases hmarker : marker with
  | nil => exact absurd hmarker hm.ne_nil
  | cons first rest =>
      have hstarts := hm.starts
      rw [hmarker, List.head?_cons, Option.some.injEq, Option.some.injEq] at hstarts
      refine occurrencesFrom_skip start before after ?_
      rcases hstarts with rfl | rfl
      · exact hless
      · exact hbar

theorem Structural.none_in_quiet (text : Bytes) (hless : less ∉ text) (hbar : bar ∉ text)
    (start : Nat) : occurrencesFrom marker start text = [] := by
  have hskip := hm.skip text hless hbar start []
  rw [List.append_nil] at hskip
  rw [hskip, occurrencesFrom, if_neg hm.ne_nil]

theorem Structural.line (start : Nat) (before after : Bytes) :
    occurrencesFrom marker start (before ++ newline :: after) =
      occurrencesFrom marker start before ++
        occurrencesFrom marker (start + before.length + 1) after :=
  occurrencesFrom_separator hm.ne_nil hm.no_newline start before after

end Markers

/-! One chunk block, line by line. -/

def beginOffset (chunk : PromptChunk) : Nat := chunk.id.length + 13

def endOffset (chunk : PromptChunk) : Nat :=
  beginOffset chunk + 28 + (escapeText chunk.text).length + 1

theorem chunkBlock_length (chunk : PromptChunk) :
    (chunkBlock chunk).length = endOffset chunk + 27 := by
  have hlengths : kChunkPrefix.length = 11 ∧ kChunkSuffix.length = 2 ∧
      kContextBegin.length = 28 ∧ kContextEnd.length = 26 ∧ kSectionBreak.length = 2 := by
    decide
  simp only [chunkBlock, List.length_append, endOffset, beginOffset]
  omega

theorem chunkBlock_append (chunk : PromptChunk) (rest : Bytes) :
    chunkBlock chunk ++ rest =
      (kChunkPrefix ++ (chunk.id ++ [93])) ++ newline :: (beginMarker ++ newline ::
        (escapeText chunk.text ++ newline :: (endMarker ++ newline :: ([] ++ newline ::
          rest)))) := by
  have hsuffix : kChunkSuffix = [93, newline] := rfl
  have hbegin : kContextBegin = beginMarker ++ [newline] := rfl
  have hend : kContextEnd = newline :: endMarker := rfl
  have hbreak : kSectionBreak = [newline, newline] := rfl
  simp only [chunkBlock, hsuffix, hbegin, hend, hbreak, List.append_assoc, List.cons_append,
    List.nil_append]

theorem occurrencesFrom_id {marker : Bytes} (hm : Structural marker) (start : Nat)
    (id : Bytes) :
    occurrencesFrom marker start (kChunkPrefix ++ (id ++ [93])) =
      occurrencesFrom marker (start + 11) id := by
  rw [hm.skip _ (by decide) (by decide), occurrencesFrom_separator hm.ne_nil hm.no_bracket,
    hm.none_in_quiet [] (by decide) (by decide), List.append_nil]
  rfl

/-- A block has the occurrences of its id and those of its own fences. -/
theorem occurrencesFrom_block {marker : Bytes} (hm : Structural marker) (start : Nat)
    (chunk : PromptChunk) (rest : Bytes) :
    occurrencesFrom marker start (chunkBlock chunk ++ rest) =
      occurrencesFrom marker (start + 11) chunk.id ++
        (occurrencesFrom marker (start + beginOffset chunk) beginMarker ++
          (occurrencesFrom marker (start + endOffset chunk) endMarker ++
            occurrencesFrom marker (start + (chunkBlock chunk).length) rest)) := by
  have hlengths : kChunkPrefix.length = 11 ∧ beginMarker.length = 27 ∧
      endMarker.length = 25 := by decide
  rw [chunkBlock_append, hm.line, occurrencesFrom_id hm, hm.line, hm.line,
    hm.none_in_plain (plain_escapeText chunk.text), hm.line, hm.line,
    hm.none_in_quiet [] (by decide) (by decide), chunkBlock_length]
  simp only [List.nil_append, List.length_append, List.length_singleton, List.length_nil,
    endOffset, beginOffset, hlengths.1, hlengths.2.1, hlengths.2.2]
  congr 2
  · congr 1
    omega
  · congr 2 <;> omega

end CppRag
