import CppRag.Chunker

/-!
Where a chunk is cut and where the next one begins, as relations between positions of a
text: the declarative counterpart of `choose_end` and `advance_to_codepoint`.
-/
namespace CppRag

def ContinuationAt (text : Bytes) (position : Nat) : Prop :=
  isUtf8Continuation (text.getD position 0) = true

instance (text : Bytes) (position : Nat) : Decidable (ContinuationAt text position) :=
  inferInstanceAs (Decidable (_ = true))

def SpaceAt (text : Bytes) (position : Nat) : Prop := isSpace (text.getD position 0) = true

variable {text : Bytes} {maxBytes overlap : Nat}

theorem ContinuationAt.lt_length {position : Nat} (h : ContinuationAt text position) :
    position < text.length := by
  by_contra hge
  rw [ContinuationAt, List.getD_eq_getElem?_getD, List.getElem?_eq_none (Nat.not_lt.mp hge)] at h
  exact absurd h (by decide)

theorem isSpace_not_continuation (value : UInt8) (h : isSpace value = true) :
    isUtf8Continuation value = false :=
  Utf8.forall_byte (p := fun value => isSpace value = true → isUtf8Continuation value = false)
    (by decide +kernel) value h

theorem SpaceAt.not_continuationAt {position : Nat} (h : SpaceAt text position) :
    ¬ContinuationAt text position := by
  rw [ContinuationAt, isSpace_not_continuation _ h]
  exact Bool.false_ne_true

/-- The first position from `position` on that is no continuation byte. -/
structure NextBoundary (text : Bytes) (position boundary : Nat) : Prop where
  le : position ≤ boundary
  le_length : boundary ≤ text.length
  skipped : ∀ i, position ≤ i → i < boundary → ContinuationAt text i
  stops : ¬ContinuationAt text boundary

/-- The last position up to `limit` that is no continuation byte, or `begin`. -/
structure LastBoundary (text : Bytes) (begin limit boundary : Nat) : Prop where
  begin_le : begin ≤ boundary
  le_limit : boundary ≤ limit
  skipped : ∀ i, boundary < i → i ≤ limit → ContinuationAt text i
  stops : begin < boundary → ¬ContinuationAt text boundary

/-- Where a chunk that begins at `begin` ends: at the end of the text when the window
reaches it, else after the last whitespace of the window's second half, else at the last
boundary in the window, else at the end of the window. -/
inductive Cut (text : Bytes) (maxBytes begin : Nat) : Nat → Prop where
  | rest (hwindow : text.length ≤ begin + maxBytes) : Cut text maxBytes begin text.length
  | space {boundary cut : Nat} (hwindow : begin + maxBytes < text.length)
      (hboundary : LastBoundary text begin (begin + maxBytes) boundary)
      (hhalf : begin + maxBytes / 2 < cut) (hcut : cut ≤ boundary)
      (hspace : SpaceAt text (cut - 1))
      (hlast : ∀ i, cut < i → i ≤ boundary → ¬SpaceAt text (i - 1)) :
      Cut text maxBytes begin cut
  | boundary {boundary : Nat} (hwindow : begin + maxBytes < text.length)
      (hboundary : LastBoundary text begin (begin + maxBytes) boundary)
      (hinside : begin < boundary)
      (hnone : ∀ i, begin + maxBytes / 2 < i → i ≤ boundary → ¬SpaceAt text (i - 1)) :
      Cut text maxBytes begin boundary
  | hard (hwindow : begin + maxBytes < text.length)
      (hboundary : LastBoundary text begin (begin + maxBytes) begin) :
      Cut text maxBytes begin (begin + maxBytes)

/-! Both snaps and the cut are functions. -/

theorem NextBoundary.unique {position first second : Nat}
    (hfirst : NextBoundary text position first) (hsecond : NextBoundary text position second) :
    first = second := by
  rcases Nat.lt_trichotomy first second with hlt | heq | hgt
  · exact absurd (hsecond.skipped first hfirst.le hlt) hfirst.stops
  · exact heq
  · exact absurd (hfirst.skipped second hsecond.le hgt) hsecond.stops

theorem LastBoundary.unique {begin limit first second : Nat}
    (hfirst : LastBoundary text begin limit first)
    (hsecond : LastBoundary text begin limit second) : first = second := by
  rcases Nat.lt_trichotomy first second with hlt | heq | hgt
  · exact absurd (hfirst.skipped second hlt hsecond.le_limit)
      (hsecond.stops (Nat.lt_of_le_of_lt hfirst.begin_le hlt))
  · exact heq
  · exact absurd (hsecond.skipped first hgt hfirst.le_limit)
      (hfirst.stops (Nat.lt_of_le_of_lt hsecond.begin_le hgt))

theorem Cut.unique {begin first second : Nat} (hfirst : Cut text maxBytes begin first)
    (hsecond : Cut text maxBytes begin second) : first = second := by
  cases hfirst with
  | rest hreach =>
      cases hsecond with
      | rest _ => rfl
      | space hwindow | boundary hwindow | hard hwindow => omega
  | @space boundary cut hwindow hboundary hhalf hcut hspace hlast =>
      cases hsecond with
      | rest hreach => omega
      | @space boundary' cut' _ hboundary' hhalf' hcut' hspace' hlast' =>
          have hsame := hboundary.unique hboundary'
          subst hsame
          rcases Nat.lt_trichotomy first second with hlt | heq | hgt
          · exact absurd hspace' (hlast second hlt hcut')
          · exact heq
          · exact absurd hspace (hlast' first hgt hcut)
      | boundary _ hboundary' _ hnone =>
          have hsame := hboundary.unique hboundary'
          subst hsame
          exact absurd hspace (hnone first hhalf hcut)
      | hard _ hboundary' =>
          have hsame := hboundary.unique hboundary'
          omega
  | boundary hwindow hboundary hinside hnone =>
      cases hsecond with
      | rest hreach => omega
      | space _ hboundary' hhalf hcut hspace hlast =>
          have hsame := hboundary.unique hboundary'
          subst hsame
          exact absurd hspace (hnone second hhalf hcut)
      | boundary _ hboundary' => exact hboundary.unique hboundary'
      | hard _ hboundary' =>
          have hsame := hboundary.unique hboundary'
          omega
  | hard hwindow hboundary =>
      cases hsecond with
      | rest hreach => omega
      | space _ hboundary' hhalf hcut =>
          have hsame := hboundary.unique hboundary'
          omega
      | boundary _ hboundary' hinside =>
          have hsame := hboundary.unique hboundary'
          omega
      | hard => rfl

/-! Bounds of a cut. -/

theorem Cut.le_length {begin cut : Nat} (h : Cut text maxBytes begin cut) :
    cut ≤ text.length := by
  cases h with
  | rest => exact Nat.le_refl _
  | space hwindow hboundary _ hcut =>
      have hlimit := hboundary.le_limit
      omega
  | boundary hwindow hboundary =>
      have hlimit := hboundary.le_limit
      omega
  | hard hwindow => omega

theorem Cut.lt {begin cut : Nat} (h : Cut text maxBytes begin cut) (hmax : 0 < maxBytes)
    (hbegin : begin < text.length) : begin < cut := by
  cases h with
  | rest => exact hbegin
  | space _ _ hhalf => omega
  | boundary _ _ hinside => exact hinside
  | hard => omega

theorem Cut.le_window {begin cut : Nat} (h : Cut text maxBytes begin cut) :
    cut ≤ begin + maxBytes := by
  cases h with
  | rest hwindow => exact hwindow
  | space _ hboundary _ hcut => exact Nat.le_trans hcut hboundary.le_limit
  | boundary _ hboundary => exact hboundary.le_limit
  | hard => exact Nat.le_refl _

/-- The window of a chunk that ends before the text. -/
theorem Cut.window_lt {begin cut : Nat} (h : Cut text maxBytes begin cut)
    (hcut : cut < text.length) : begin + maxBytes < text.length := by
  cases h with
  | rest => exact absurd hcut (Nat.lt_irrefl _)
  | space hwindow | boundary hwindow | hard hwindow => exact hwindow

/-! From one chunk to the next. -/

theorem NextBoundary.le_of_not_continuationAt {position boundary i : Nat}
    (h : NextBoundary text position boundary) (hi : position ≤ i)
    (hnot : ¬ContinuationAt text i) : boundary ≤ i := by
  by_contra hlt
  exact hnot (h.skipped i hi (Nat.not_le.mp hlt))

/-- Where the search for the next chunk starts. -/
def overlapStart (overlap begin cut : Nat) : Nat := cut - min overlap (cut - begin - 1)

theorem overlapStart_le (overlap begin cut : Nat) : overlapStart overlap begin cut ≤ cut :=
  Nat.sub_le _ _

theorem lt_overlapStart (overlap : Nat) {begin cut : Nat} (h : begin < cut) :
    begin < overlapStart overlap begin cut := by
  unfold overlapStart
  omega

/-- No byte is skipped between two chunks whose cut is a boundary or whose overlap has a
byte to start from. -/
theorem Cut.next_le {begin cut next : Nat} (hcut : Cut text maxBytes begin cut)
    (hinside : cut < text.length) (hoverlap : overlap < maxBytes)
    (hnext : NextBoundary text (overlapStart overlap begin cut) next)
    (hrun : ∃ i, begin < i ∧ i ≤ begin + maxBytes ∧ ¬ContinuationAt text i)
    (hspace : overlap = 0 → SpaceAt text (cut - 1) → ¬ContinuationAt text cut) :
    next ≤ cut := by
  have hstart := overlapStart_le overlap begin cut
  cases hcut with
  | rest => exact absurd hinside (Nat.lt_irrefl _)
  | space hwindow hboundary hhalf hle hat hlast =>
      by_cases hzero : overlap = 0
      · exact hnext.le_of_not_continuationAt hstart (hspace hzero hat)
      · -- at least two bytes long, the chunk can start its successor at its whitespace
        have hbefore : overlapStart overlap begin cut ≤ cut - 1 := by
          unfold overlapStart
          omega
        have hle := hnext.le_of_not_continuationAt hbefore hat.not_continuationAt
        omega
  | boundary hwindow hboundary hbegin =>
      exact hnext.le_of_not_continuationAt hstart (hboundary.stops hbegin)
  | hard hwindow hboundary =>
      obtain ⟨i, hi, hwithin, hnot⟩ := hrun
      exact absurd (hboundary.skipped i hi hwithin) hnot

theorem LastBoundary.mono {begin later limit limit' boundary boundary' : Nat}
    (h : LastBoundary text begin limit boundary)
    (h' : LastBoundary text later limit' boundary') (hbegin : begin < boundary)
    (hlimit : limit ≤ limit') : boundary ≤ boundary' := by
  by_contra hlt
  exact h.stops hbegin
    (h'.skipped boundary (Nat.not_le.mp hlt) (Nat.le_trans h.le_limit hlimit))

/-- A later chunk that begins at a boundary does not end earlier. -/
theorem Cut.mono {begin cut later cut' : Nat} (hcut : Cut text maxBytes begin cut)
    (hlater : begin < later) (hle : later ≤ cut) (hboundary : ¬ContinuationAt text later)
    (hcut' : Cut text maxBytes later cut') : cut ≤ cut' := by
  have hlength := hcut.le_length
  have hwindow := hcut.le_window
  cases hcut with
  | rest hreach =>
      cases hcut' with
      | rest => exact Nat.le_refl _
      | space hwindow' | boundary hwindow' | hard hwindow' => omega
  | space _ hlast _ hbefore hat =>
      have hinside : begin < _ := Nat.lt_of_lt_of_le hlater (Nat.le_trans hle hbefore)
      cases hcut' with
      | rest => exact hlength
      | space _ hlast' hhalf' _ _ hnone' =>
          have hmono := hlast.mono hlast' hinside (by omega)
          by_contra hlt
          exact hnone' cut (Nat.not_le.mp hlt) (Nat.le_trans hbefore hmono) hat
      | boundary _ hlast' => exact Nat.le_trans hbefore (hlast.mono hlast' hinside (by omega))
      | hard => omega
  | boundary _ hlast hinside hnone =>
      cases hcut' with
      | rest => exact hlength
      | space _ hlast' hhalf' _ hat' =>
          by_contra hlt
          exact hnone cut' (by omega) (by omega) hat'
      | boundary _ hlast' => exact hlast.mono hlast' hinside (by omega)
      | hard => omega
  | hard _ hlast => exact absurd (hlast.skipped later hlater hle) hboundary

end CppRag
