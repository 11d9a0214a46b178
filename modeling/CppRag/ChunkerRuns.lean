import CppRag.ChunkCuts

/-!
What the functions of the chunker return, with every access they make exact: the snaps
and the cut find the positions their relations describe, and the loop ends within as many
steps as the text has bytes.
-/
namespace CppRag
open Observed Slice

theorem returns_charAt {text : StringView} {position : UInt64}
    (h : position.toNat < text.bytes.length) :
    Returns (Access.Exact text.bytes.length) (charAt text position)
      (text.bytes.getD position.toNat 0) :=
  returns_bind (returns_report h) returns_pure

theorem returns_substr {text : StringView} {position count : UInt64}
    (h : position.toNat + count.toNat ≤ text.bytes.length) :
    Returns (Access.Exact text.bytes.length) (substr text position count)
      (slice text.bytes position.toNat count.toNat) :=
  returns_bind (returns_report h) returns_pure

theorem StringView.lt_size_iff {text : StringView} {position : UInt64} :
    position < text.size ↔ position.toNat < text.bytes.length := by
  rw [UInt64.lt_iff_toNat_lt, text.toNat_size]

theorem exact_add_one {mapped : Nat} {lhs rhs : UInt64} (h : lhs < rhs) :
    (Access.add lhs 1).Exact mapped := by
  rw [Access.Exact, toNat_succ_of_lt h]
  rfl

theorem exact_sub_one {mapped : Nat} {lhs rhs : UInt64} (h : lhs < rhs) :
    (Access.sub rhs 1).Exact mapped := by
  have hlt := UInt64.lt_iff_toNat_lt.mp h
  rw [Access.Exact, toNat_pred_of_lt h, show (1 : UInt64).toNat = 1 from rfl]
  omega

theorem returns_advanceToCodepoint (text : StringView) (position : UInt64)
    (h : position.toNat ≤ text.bytes.length) :
    ∃ next, Returns (Access.Exact text.bytes.length) (advanceToCodepoint text position) next ∧
      NextBoundary text.bytes position.toNat next.toNat := by
  induction position using advanceToCodepoint.induct text with
  | case1 position hinside ih =>
      have hlt := StringView.lt_size_iff.mp hinside
      rw [advanceToCodepoint, if_pos hinside]
      by_cases hcontinuation : isUtf8Continuation (text.bytes.getD position.toNat 0) = true
      · obtain ⟨next, hreturns, hnext⟩ := ih (by rw [toNat_succ_of_lt hinside]; exact hlt)
        rw [toNat_succ_of_lt hinside] at hnext
        refine ⟨next, returns_bind (returns_charAt hlt) ?_, ?_⟩
        · rw [if_pos hcontinuation]
          exact returns_bind (returns_report (exact_add_one hinside)) hreturns
        · refine ⟨by have hle := hnext.le; omega, hnext.le_length, fun i hi hbefore => ?_,
            hnext.stops⟩
          rcases Nat.eq_or_lt_of_le hi with rfl | hlater
          · exact hcontinuation
          · exact hnext.skipped i hlater hbefore
      · refine ⟨position, returns_bind (returns_charAt hlt) ?_, ?_⟩
        · rw [if_neg hcontinuation]
          exact returns_pure
        · exact ⟨Nat.le_refl _, h, fun i hi hbefore => by omega, hcontinuation⟩
  | case2 position hpast =>
      have hge := fun hlt => hpast (StringView.lt_size_iff.mpr hlt)
      rw [advanceToCodepoint, if_neg hpast]
      exact ⟨position, returns_pure, Nat.le_refl _, h, fun i hi hbefore => by omega,
        fun hcontinuation => hge hcontinuation.lt_length⟩

theorem returns_retreatToCodepoint (text : StringView) (begin safeEnd : UInt64)
    (hbegin : begin.toNat ≤ safeEnd.toNat) (h : safeEnd.toNat < text.bytes.length) :
    ∃ boundary,
      Returns (Access.Exact text.bytes.length) (retreatToCodepoint text begin safeEnd) boundary ∧
      LastBoundary text.bytes begin.toNat safeEnd.toNat boundary.toNat := by
  induction safeEnd using retreatToCodepoint.induct begin with
  | case1 safeEnd hinside ih =>
      have hlt := UInt64.lt_iff_toNat_lt.mp hinside
      rw [retreatToCodepoint, if_pos hinside]
      by_cases hcontinuation : isUtf8Continuation (text.bytes.getD safeEnd.toNat 0) = true
      · rw [toNat_pred_of_lt hinside] at ih
        obtain ⟨boundary, hreturns, hlast⟩ := ih (by omega) (by omega)
        refine ⟨boundary, returns_bind (returns_charAt h) ?_, ?_⟩
        · rw [if_pos hcontinuation]
          exact returns_bind (returns_report (exact_sub_one hinside)) hreturns
        · have hle := hlast.le_limit
          refine ⟨hlast.begin_le, by omega, fun i hi hwithin => ?_, hlast.stops⟩
          rcases Nat.eq_or_lt_of_le hwithin with rfl | hearlier
          · exact hcontinuation
          · exact hlast.skipped i hi (by omega)
      · refine ⟨safeEnd, returns_bind (returns_charAt h) ?_, ?_⟩
        · rw [if_neg hcontinuation]
          exact returns_pure
        · exact ⟨hbegin, Nat.le_refl _, fun i hi hwithin => by omega, fun _ => hcontinuation⟩
  | case2 safeEnd hpast =>
      rw [retreatToCodepoint, if_neg hpast]
      refine ⟨safeEnd, returns_pure, hbegin, Nat.le_refl _, fun i hi hwithin => by omega,
        fun hinside => absurd (UInt64.lt_iff_toNat_lt.mpr hinside) hpast⟩

/-- A break just after the last whitespace between `earliest` and `cursor`. -/
def FoundBreak (text : Bytes) (earliest cursor : Nat) : Option Nat → Prop
  | some cut => earliest < cut ∧ cut ≤ cursor ∧ SpaceAt text (cut - 1) ∧
      ∀ i, cut < i → i ≤ cursor → ¬SpaceAt text (i - 1)
  | none => ∀ i, earliest < i → i ≤ cursor → ¬SpaceAt text (i - 1)

theorem FoundBreak.extend {text : Bytes} {earliest cursor : Nat} {found : Option Nat}
    (h : FoundBreak text earliest (cursor - 1) found) (hnot : ¬SpaceAt text (cursor - 1)) :
    FoundBreak text earliest cursor found := by
  have hlater : ∀ i, i ≤ cursor → (i ≤ cursor - 1 → ¬SpaceAt text (i - 1)) →
      ¬SpaceAt text (i - 1) := by
    intro i hi hbefore
    by_cases hlast : i ≤ cursor - 1
    · exact hbefore hlast
    · rwa [show i = cursor by omega]
  cases found with
  | none => exact fun i hi hwithin => hlater i hwithin (h i hi)
  | some cut =>
      obtain ⟨hcut, hle, hspace, hnone⟩ := h
      exact ⟨hcut, by omega, hspace, fun i hi hwithin => hlater i hwithin (hnone i hi)⟩

theorem newline_or_isSpace (ch : UInt8) : (ch = 10 || isSpace ch) = isSpace ch := by
  by_cases h : ch = 10
  · subst h
    rfl
  · rw [decide_eq_false h, Bool.false_or]

theorem returns_findBreak (text : StringView) (earliestBreak cursor : UInt64)
    (h : cursor.toNat ≤ text.bytes.length) :
    ∃ found, Returns (Access.Exact text.bytes.length) (findBreak text earliestBreak cursor) found ∧
      FoundBreak text.bytes earliestBreak.toNat cursor.toNat (found.map UInt64.toNat) := by
  induction cursor using findBreak.induct earliestBreak with
  | case1 cursor hinside ih =>
      have hlt := UInt64.lt_iff_toNat_lt.mp hinside
      have hpred := toNat_pred_of_lt hinside
      have hread : (cursor - 1).toNat < text.bytes.length := by omega
      rw [findBreak, if_pos hinside]
      by_cases hspace : isSpace (text.bytes.getD (cursor - 1).toNat 0) = true
      · refine ⟨some cursor, returns_bind (returns_subU64 (one_le_of_lt hinside))
          (returns_bind (returns_charAt hread) ?_), ?_⟩
        · rw [newline_or_isSpace, if_pos hspace]
          exact returns_pure
        · rw [hpred] at hspace
          exact ⟨hlt, Nat.le_refl _, hspace, fun i hi hwithin => by omega⟩
      · obtain ⟨found, hreturns, hfound⟩ := ih (by omega)
        refine ⟨found, returns_bind (returns_subU64 (one_le_of_lt hinside))
          (returns_bind (returns_charAt hread) ?_), ?_⟩
        · rw [newline_or_isSpace, if_neg hspace]
          exact returns_bind (returns_report (exact_sub_one hinside)) hreturns
        · rw [hpred] at hfound hspace
          exact hfound.extend hspace
  | case2 cursor hpast =>
      rw [findBreak, if_neg hpast]
      refine ⟨none, returns_pure, fun i hi hwithin => ?_⟩
      exact absurd (UInt64.lt_iff_toNat_lt.mpr (Nat.lt_of_lt_of_le hi hwithin)) hpast

/-- The end of a window: the end of the text when the window reaches it. -/
theorem min_size_eq (text : StringView) (limit : UInt64) :
    min text.size limit = if text.bytes.length ≤ limit.toNat then text.size else limit := by
  rw [← text.toNat_size]
  by_cases h : text.size ≤ limit
  · rw [if_pos (UInt64.le_iff_toNat_le.mp h)]
    exact if_pos h
  · rw [if_neg fun hle => h (UInt64.le_iff_toNat_le.mpr hle)]
    exact if_neg h

/-- A boundary and a break found in a full window make a cut. -/
theorem cut_of_found {text : Bytes} {maxBytes begin boundary : Nat} {found : Option Nat}
    (hwindow : begin + maxBytes < text.length)
    (hlast : LastBoundary text begin (begin + maxBytes) boundary)
    (hfound : FoundBreak text (begin + maxBytes / 2) boundary found) :
    Cut text maxBytes begin
      (found.getD (if begin < boundary then boundary else begin + maxBytes)) := by
  cases found with
  | some cut =>
      obtain ⟨hafter, hwithin, hspace, hnone⟩ := hfound
      exact .space hwindow hlast hafter hwithin hspace hnone
  | none =>
      rw [Option.getD_none]
      by_cases hinside : begin < boundary
      · rw [if_pos hinside]
        exact .boundary hwindow hlast hinside hfound
      · have hsame : boundary = begin := Nat.le_antisymm (Nat.not_lt.mp hinside) hlast.begin_le
        rw [if_neg hinside]
        exact .hard hwindow (hsame ▸ hlast)

theorem toNat_found (found : Option UInt64) {begin safeEnd hardEnd : UInt64} :
    (found.getD (if begin < safeEnd then safeEnd else hardEnd)).toNat =
      (found.map UInt64.toNat).getD
        (if begin.toNat < safeEnd.toNat then safeEnd.toNat else hardEnd.toNat) := by
  cases found with
  | some cursor => rfl
  | none =>
      rw [Option.getD_none, Option.map_none, Option.getD_none]
      simp only [← UInt64.lt_iff_toNat_lt]
      split <;> rfl

theorem returns_chooseEnd (text : StringView) (begin maxBytes : UInt64)
    (hbegin : begin.toNat < text.bytes.length) (hmax : maxBytes.toNat < 2 ^ 32) :
    ∃ last, Returns (Access.Exact text.bytes.length) (chooseEnd text begin maxBytes) last ∧
      Cut text.bytes maxBytes.toNat begin.toNat last.toNat := by
  have hlength := text.length_lt
  have hhalf : (maxBytes / 2).toNat = maxBytes.toNat / 2 := UInt64.toNat_div maxBytes 2
  have hlimit : (begin + maxBytes).toNat = begin.toNat + maxBytes.toNat :=
    toNat_add_of_lt (by omega)
  have hearliest : (begin + maxBytes / 2).toNat = begin.toNat + maxBytes.toNat / 2 := by
    rw [toNat_add_of_lt (by omega), hhalf]
  have hsum : Returns (Access.Exact text.bytes.length) (addU64 begin maxBytes) _ :=
    returns_addU64 (by omega)
  have hmin := min_size_eq text (begin + maxBytes)
  rw [hlimit] at hmin
  by_cases hwindow : text.bytes.length ≤ begin.toNat + maxBytes.toNat
  · rw [if_pos hwindow] at hmin
    refine ⟨text.size, returns_bind hsum ?_, ?_⟩
    · simp only [hmin, if_pos]
      exact returns_pure
    · rw [text.toNat_size]
      exact .rest hwindow
  · rw [if_neg hwindow] at hmin
    have hne : begin + maxBytes ≠ text.size := by
      intro heq
      rw [heq, text.toNat_size] at hlimit
      omega
    obtain ⟨safeEnd, hretreat, hlast⟩ :=
      returns_retreatToCodepoint text begin (begin + maxBytes) (by omega) (by omega)
    have hsafe := hlast.le_limit
    obtain ⟨found, hfind, hfound⟩ :=
      returns_findBreak text (begin + maxBytes / 2) safeEnd (by omega)
    refine ⟨found.getD (if begin < safeEnd then safeEnd else begin + maxBytes),
      returns_bind hsum ?_, ?_⟩
    · simp only [hmin, if_neg hne]
      exact returns_bind hretreat (returns_bind (returns_addU64 (by omega))
        (returns_bind hfind returns_pure))
    · rw [hlimit] at hlast
      rw [hearliest] at hfound
      rw [toNat_found, hlimit]
      exact cut_of_found (Nat.not_le.mp hwindow) hlast hfound

/-! The loop. -/

/-- The ranges of the chunks from position `begin` on. -/
inductive Spans (text : Bytes) (maxBytes overlap : Nat) : Nat → List (Nat × Nat) → Prop where
  | past {begin : Nat} (h : text.length ≤ begin) : Spans text maxBytes overlap begin []
  | last {begin : Nat} (h : begin < text.length)
      (hcut : Cut text maxBytes begin text.length) :
      Spans text maxBytes overlap begin [(begin, text.length)]
  | more {begin cut next : Nat} {spans : List (Nat × Nat)} (h : begin < text.length)
      (hcut : Cut text maxBytes begin cut) (hinside : cut < text.length)
      (hnext : NextBoundary text (overlapStart overlap begin cut) next)
      (hspans : Spans text maxBytes overlap next spans) :
      Spans text maxBytes overlap begin ((begin, cut) :: spans)

theorem Spans.unique {text : Bytes} {maxBytes overlap begin : Nat}
    {first second : List (Nat × Nat)} (hfirst : Spans text maxBytes overlap begin first)
    (hsecond : Spans text maxBytes overlap begin second) : first = second := by
  induction hfirst generalizing second with
  | past hpast =>
      cases hsecond with
      | past => rfl
      | last h | more h => omega
  | last h hcut =>
      cases hsecond with
      | past hpast => omega
      | last => rfl
      | more _ hcut' hinside =>
          have hsame := hcut.unique hcut'
          omega
  | more h hcut hinside hnext hspans ih =>
      cases hsecond with
      | past hpast => omega
      | last _ hcut' =>
          have hsame := hcut.unique hcut'
          omega
      | more _ hcut' _ hnext' hspans' =>
          have hsame := hcut.unique hcut'
          subst hsame
          have hsame := hnext.unique hnext'
          subst hsame
          rw [ih hspans']

/-- The chunk a range of the text makes. -/
def chunkOf (text source : Bytes) (options : ChunkOptions) (span : Nat × Nat) : Chunk :=
  ⟨source, slice text span.1 (span.2 - span.1), UInt64.ofNat span.1, UInt64.ofNat span.2, 0,
    options.maxBytes.toUInt32⟩

theorem toNat_min (lhs rhs : UInt64) : (min lhs rhs).toNat = min lhs.toNat rhs.toNat := by
  by_cases h : lhs ≤ rhs
  · rw [show min lhs rhs = lhs from if_pos h, Nat.min_eq_left (UInt64.le_iff_toNat_le.mp h)]
  · rw [show min lhs rhs = rhs from if_neg h]
    have hlt := Nat.not_le.mp fun hle => h (UInt64.le_iff_toNat_le.mpr hle)
    exact (Nat.min_eq_right (Nat.le_of_lt hlt)).symm

section Step
variable {begin last : UInt64} (hafter : begin.toNat < last.toNat)
include hafter

theorem toNat_chunkLength : (last - begin).toNat = last.toNat - begin.toNat :=
  UInt64.toNat_sub_of_le _ _ (UInt64.le_iff_toNat_le.mpr (Nat.le_of_lt hafter))

theorem one_le_chunkLength : 1 ≤ last - begin := by
  rw [UInt64.le_iff_toNat_le, toNat_chunkLength hafter]
  exact Nat.sub_pos_of_lt hafter

theorem toNat_chunkRoom : (last - begin - 1).toNat = last.toNat - begin.toNat - 1 := by
  rw [UInt64.toNat_sub_of_le _ _ (one_le_chunkLength hafter), toNat_chunkLength hafter]
  rfl

theorem overlap_le (overlap : UInt64) : min overlap (last - begin - 1) ≤ last := by
  rw [UInt64.le_iff_toNat_le, toNat_min, toNat_chunkRoom hafter]
  omega

/-- The clamped overlap is exact. -/
theorem toNat_overlapStart (overlap : UInt64) :
    (last - min overlap (last - begin - 1)).toNat =
      overlapStart overlap.toNat begin.toNat last.toNat := by
  rw [UInt64.toNat_sub_of_le _ _ (overlap_le hafter overlap), toNat_min, toNat_chunkRoom hafter]
  rfl

theorem chunkOf_toNat (text source : Bytes) (options : ChunkOptions) :
    chunkOf text source options (begin.toNat, last.toNat) =
      ⟨source, slice text begin.toNat (last - begin).toNat, begin, last, 0,
        options.maxBytes.toUInt32⟩ := by
  simp only [chunkOf, UInt64.ofNat_toNat, toNat_chunkLength hafter]

end Step

theorem returns_chunkFrom (text : StringView) (source : Bytes) {options : ChunkOptions}
    (haccepted : options.Accepted) (steps : Nat) (begin : UInt64)
    (hbegin : begin.toNat ≤ text.bytes.length)
    (hsteps : text.bytes.length ≤ begin.toNat + steps) :
    ∃ spans, Returns (Access.Exact text.bytes.length)
        (chunkFrom text source options steps begin)
        (some (spans.map (chunkOf text.bytes source options))) ∧
      Spans text.bytes options.maxBytes.toNat options.overlapBytes.toNat begin.toNat spans := by
  induction steps generalizing begin with
  | zero =>
      have hpast : ¬begin < text.size := fun h => by
        have hlt := StringView.lt_size_iff.mp h
        omega
      rw [chunkFrom, if_neg hpast]
      exact ⟨[], returns_pure, .past hsteps⟩
  | succ steps ih =>
      rw [chunkFrom]
      by_cases hinside : begin < text.size
      case neg =>
        rw [if_neg hinside]
        exact ⟨[], returns_pure, .past (Nat.not_lt.mp fun h =>
          hinside (StringView.lt_size_iff.mpr h))⟩
      have hlt := StringView.lt_size_iff.mp hinside
      have hoptions := haccepted.overlap_lt
      obtain ⟨last, hchoose, hcut⟩ :=
        returns_chooseEnd text begin options.maxBytes hlt haccepted.max_le
      have hafter := hcut.lt (by omega) hlt
      have hend := hcut.le_length
      have hle : begin ≤ last := UInt64.le_iff_toNat_le.mpr (Nat.le_of_lt hafter)
      have hlength := toNat_chunkLength hafter
      have hchunk := chunkOf_toNat hafter text.bytes source options
      have hsubstr : Returns _ (substr text begin (last - begin)) _ := returns_substr (by omega)
      rw [if_pos hinside]
      by_cases hdone : last = text.size
      · have hlast := congrArg UInt64.toNat hdone
        rw [text.toNat_size] at hlast
        rw [hlast] at hcut
        refine ⟨[(begin.toNat, text.bytes.length)], ?_, .last hlt hcut⟩
        refine returns_bind hchoose (returns_bind (returns_subU64 hle)
          (returns_bind hsubstr ?_))
        rw [if_pos hdone, ← hchunk, hlast]
        exact returns_pure
      · have hbefore : last.toNat < text.bytes.length := by
          refine Nat.lt_of_le_of_ne hend fun heq => hdone (UInt64.toNat_inj.mp ?_)
          rw [heq, text.toNat_size]
        have hstart := toNat_overlapStart hafter options.overlapBytes
        have hlater := lt_overlapStart options.overlapBytes.toNat hafter
        have hwithin := overlapStart_le options.overlapBytes.toNat begin.toNat last.toNat
        obtain ⟨next, hadvance, hnext⟩ := returns_advanceToCodepoint text
          (last - min options.overlapBytes (last - begin - 1)) (by omega)
        rw [hstart] at hnext
        have hforward := hnext.le
        -- the next chunk begins later, so one step fewer is enough
        obtain ⟨spans, hrest, hspans⟩ := ih next hnext.le_length (by omega)
        refine ⟨(begin.toNat, last.toNat) :: spans, ?_, .more hlt hcut hbefore hnext hspans⟩
        refine returns_bind hchoose (returns_bind (returns_subU64 hle) (returns_bind hsubstr ?_))
        rw [if_neg hdone]
        refine returns_bind (returns_subU64 hle) (returns_bind
          (returns_subU64 (one_le_chunkLength hafter)) (returns_bind
            (returns_subU64 (overlap_le hafter options.overlapBytes)) (returns_bind hadvance
              (returns_bind hrest ?_))))
        rw [Option.map_some, List.map_cons, hchunk]
        exact returns_pure

end CppRag
