import CppRag.LlamaGenerator

/-!
What the two loops over the stop sequences find: the first position of any stop sequence,
and the length of the longest proper beginning of one that the response ends with.
-/
namespace CppRag
open Occurrences

/-- No stop sequence occurs; an empty one is ignored. -/
def StopFree (stopSequences : List Bytes) (text : Bytes) : Prop :=
  ∀ stop ∈ stopSequences, stop ≠ [] → ¬stop <:+: text

instance (stopSequences : List Bytes) (text : Bytes) :
    Decidable (StopFree stopSequences text) :=
  inferInstanceAs (Decidable (∀ stop ∈ stopSequences, _))

theorem stopFree_nil (stopSequences : List Bytes) : StopFree stopSequences [] :=
  fun _ _ hne hinside => hne (List.infix_nil.mp hinside)

theorem StopFree.of_prefix {stopSequences : List Bytes} {text shorter : Bytes}
    (h : StopFree stopSequences text) (hstart : shorter <+: text) :
    StopFree stopSequences shorter :=
  fun stop hstop hne hinside => h stop hstop hne (hinside.trans hstart.isInfix)

/-! The first stop sequence. -/

/-- A position before every occurrence of the sequences so far and of the next. -/
theorem le_earlierStop_iff (response stop : Bytes) (earliest : Option Nat) (limit : Nat) :
    (∀ found ∈ earlierStop response earliest stop, limit ≤ found) ↔
      (∀ found ∈ earliest, limit ≤ found) ∧
        (stop ≠ [] → ∀ position ∈ find stop response, limit ≤ position) := by
  unfold earlierStop
  split
  · next hempty => simp [List.isEmpty_iff.mp hempty]
  · next hempty =>
      have hne : stop ≠ [] := fun h => hempty (List.isEmpty_iff.mpr h)
      cases hfind : find stop response with
      | none => simp
      | some position =>
          cases earliest with
          | none => simp [hne]
          | some earliest =>
              simp only [hne, ne_eq, not_false_eq_true, Option.mem_def, Option.some.injEq,
                forall_eq', true_implies]
              split
              · next hlt =>
                  simp only [Option.some.injEq, forall_eq']
                  omega
              · next hlt =>
                  simp only [Option.some.injEq, forall_eq']
                  omega

theorem le_earliestStop_iff (response : Bytes) (stopSequences : List Bytes) (limit : Nat) :
    (∀ found ∈ earliestStop response stopSequences, limit ≤ found) ↔
      ∀ stop ∈ stopSequences, stop ≠ [] → ∀ position ∈ find stop response, limit ≤ position := by
  unfold earliestStop
  induction stopSequences using List.reverseRecOn with
  | nil => simp
  | append_singleton stops stop ih =>
      rw [List.foldl_append, List.foldl_cons, List.foldl_nil, le_earlierStop_iff, ih]
      simp only [List.mem_append, List.mem_singleton, or_imp, forall_and, forall_eq]

theorem earliestStop_eq_none_iff (response : Bytes) (stopSequences : List Bytes) :
    earliestStop response stopSequences = none ↔ StopFree stopSequences response := by
  constructor
  · intro hnone stop hstop hne hinside
    cases hfind : find stop response with
    | none => exact (find_eq_none_iff response).mp hfind hinside
    | some position =>
        have hle := (le_earliestStop_iff response stopSequences (position + 1)).mp
          (by simp [hnone]) stop hstop hne position hfind
        omega
  · intro hfree
    cases hfound : earliestStop response stopSequences with
    | none => rfl
    | some found =>
        have hle := (le_earliestStop_iff response stopSequences (found + 1)).mpr
          (fun stop hstop hne position hposition => by
            have hnone := (find_eq_none_iff response).mpr (hfree stop hstop hne)
            rw [hnone] at hposition
            cases hposition) found hfound
        omega

/-- In front of the first stop sequence there is none. -/
theorem stopFree_take_earliest {response : Bytes} {stopSequences : List Bytes} {earliest : Nat}
    (h : earliestStop response stopSequences = some earliest) :
    StopFree stopSequences (response.take earliest) := by
  intro stop hstop hne hinside
  obtain ⟨position, hposition, hlt⟩ := find_of_infix_take hne hinside
  have hle := (le_earliestStop_iff response stopSequences earliest).mp
    (fun found hfound => by
      rw [h] at hfound
      cases hfound
      exact Nat.le_refl _) stop hstop hne position hposition
  omega

theorem truncateAtStop_isPrefix (response : Bytes) (stopSequences : List Bytes) :
    (truncateAtStop response stopSequences).1 <+: response := by
  unfold truncateAtStop
  split
  · exact List.prefix_refl response
  · exact List.take_prefix _ response

theorem truncateAtStop_stopFree (response : Bytes) (stopSequences : List Bytes) :
    StopFree stopSequences (truncateAtStop response stopSequences).1 := by
  unfold truncateAtStop
  split
  · next hnone => exact (earliestStop_eq_none_iff response stopSequences).mp hnone
  · next earliest hsome => exact stopFree_take_earliest hsome

theorem truncateAtStop_of_stopFree {response : Bytes} {stopSequences : List Bytes}
    (h : StopFree stopSequences response) :
    truncateAtStop response stopSequences = (response, false) := by
  rw [truncateAtStop, (earliestStop_eq_none_iff response stopSequences).mpr h]

theorem truncateAtStop_stopped {response : Bytes} {stopSequences : List Bytes}
    (h : ¬StopFree stopSequences response) :
    (truncateAtStop response stopSequences).2 = true := by
  unfold truncateAtStop
  split
  · next hnone => exact absurd ((earliestStop_eq_none_iff response stopSequences).mp hnone) h
  · rfl

/-! The beginning of a stop sequence at the end of the response. -/

/-- The response ends with the first `length` bytes of `stop`, but not all of it. -/
structure PartialStop (response stop : Bytes) (length : Nat) : Prop where
  lt_stop : length < stop.length
  le_response : length ≤ response.length
  ends : response.drop (response.length - length) = stop.take length

theorem longestFrom_le_iff (response stop : Bytes) (longest limit bound : Nat) :
    longestFrom response stop longest limit ≤ bound ↔
      longest ≤ bound ∧
        ∀ length, length ≤ limit → endsWithStart response stop length → length ≤ bound := by
  induction limit with
  | zero =>
      rw [longestFrom]
      refine ⟨fun h => ⟨h, fun length hlength _ => by omega⟩, fun h => h.1⟩
  | succ limit ih =>
      rw [longestFrom]
      split
      · next hlonger =>
          split
          · next hends =>
              exact ⟨fun h => ⟨by omega, fun length hlength _ => by omega⟩,
                fun h => h.2 (limit + 1) (Nat.le_refl _) hends⟩
          · next hends =>
              rw [ih]
              refine and_congr_right fun _ => ⟨fun h length hlength hat => ?_,
                fun h length hlength => h length (by omega)⟩
              rcases Nat.le_succ_iff.mp hlength with hle | rfl
              · exact h length hle hat
              · exact absurd hat hends
      · next hlonger =>
          exact ⟨fun h => ⟨h, fun length hlength _ => by omega⟩, fun h => h.1⟩

theorem longerPartialStop_le_iff (response stop : Bytes) (longest bound : Nat) :
    longerPartialStop response longest stop ≤ bound ↔
      longest ≤ bound ∧ ∀ length, PartialStop response stop length → length ≤ bound := by
  rw [longerPartialStop, longestFrom_le_iff]
  refine and_congr_right fun _ => ⟨fun h length hpartial => ?_, fun h length hlength hends => ?_⟩
  · have hne : ¬stop.isEmpty = true := by
      intro hempty
      have hlt := hpartial.lt_stop
      rw [List.isEmpty_iff.mp hempty] at hlt
      exact absurd hlt (Nat.not_lt_zero _)
    rw [if_neg hne] at h
    have hlt := hpartial.lt_stop
    have hle := hpartial.le_response
    exact h length (by omega) (by simpa [endsWithStart] using hpartial.ends)
  · split at hlength
    · omega
    · next hne =>
        have hpos : 0 < stop.length :=
          List.length_pos_of_ne_nil fun hnil => hne (List.isEmpty_iff.mpr hnil)
        exact h length ⟨by omega, by omega, by simpa [endsWithStart] using hends⟩

theorem longestPartialStop_le_iff (response : Bytes) (stopSequences : List Bytes)
    (bound : Nat) : longestPartialStop response stopSequences ≤ bound ↔
      ∀ stop ∈ stopSequences, ∀ length, PartialStop response stop length → length ≤ bound := by
  unfold longestPartialStop
  induction stopSequences using List.reverseRecOn with
  | nil => simp
  | append_singleton stops stop ih =>
      rw [List.foldl_append, List.foldl_cons, List.foldl_nil, longerPartialStop_le_iff, ih]
      simp only [List.mem_append, List.mem_singleton, or_imp, forall_and, forall_eq]

theorem longestPartialStop_le_length (response : Bytes) (stopSequences : List Bytes) :
    longestPartialStop response stopSequences ≤ response.length :=
  (longestPartialStop_le_iff _ _ _).mpr fun _ _ _ h => h.le_response

theorem trimPartialStop_isPrefix (response : Bytes) (stopSequences : List Bytes) :
    trimPartialStop response stopSequences <+: response := by
  simp only [trimPartialStop]
  split
  · exact List.take_prefix _ response
  · exact List.prefix_refl response

/-- The proper beginnings of a stop sequence that end the response, as byte strings. -/
theorem partialStop_iff (response stop : Bytes) (length : Nat) :
    PartialStop response stop length ↔
      ∃ start, start.length = length ∧ start <+: stop ∧ start ≠ stop ∧ start <:+ response := by
  constructor
  · rintro ⟨hlt, hle, hends⟩
    refine ⟨stop.take length, List.length_take_of_le (Nat.le_of_lt hlt), List.take_prefix _ _,
      ?_, hends ▸ List.drop_suffix _ _⟩
    intro heq
    have hlen := congrArg List.length heq
    rw [List.length_take] at hlen
    omega
  · rintro ⟨start, rfl, hstart, hne, hsuffix⟩
    refine ⟨Nat.lt_of_le_of_ne hstart.length_le fun h => hne (hstart.eq_of_length h),
      hsuffix.length_le, ?_⟩
    rw [← List.suffix_iff_eq_drop.mp hsuffix]
    exact List.prefix_iff_eq_take.mp hstart

/-- Nothing is trimmed when the response ends with no beginning of a stop sequence. -/
theorem trimPartialStop_eq_self_iff (response : Bytes) (stopSequences : List Bytes) :
    trimPartialStop response stopSequences = response ↔
      ∀ stop ∈ stopSequences, ∀ start, start ≠ [] → start <+: stop → start ≠ stop →
        ¬start <:+ response := by
  have hself : trimPartialStop response stopSequences = response ↔
      longestPartialStop response stopSequences ≤ 0 := by
    have hle := longestPartialStop_le_length response stopSequences
    simp only [trimPartialStop]
    split
    · next hpos =>
        refine iff_of_false (fun heq => ?_) (by omega)
        have hlen := congrArg List.length heq
        rw [List.length_take] at hlen
        omega
    · next hzero => exact iff_of_true rfl (by omega)
  rw [hself, longestPartialStop_le_iff]
  refine forall₂_congr fun stop _ => ⟨fun h start hne hstart hproper hsuffix => ?_,
    fun h length hpartial => ?_⟩
  · have hzero := h start.length
      ((partialStop_iff response stop start.length).mpr ⟨start, rfl, hstart, hproper, hsuffix⟩)
    exact hne (List.length_eq_zero_iff.mp (by omega))
  · obtain ⟨start, rfl, hstart, hproper, hsuffix⟩ := (partialStop_iff _ _ _).mp hpartial
    by_contra hpos
    exact h start (List.ne_nil_of_length_pos (by omega)) hstart hproper hsuffix

/-- A beginning of some stop sequence that is not the whole of it. -/
def StartsStop (stopSequences : List Bytes) (bytes : Bytes) : Prop :=
  ∃ stop ∈ stopSequences, bytes <+: stop ∧ bytes ≠ stop

theorem longestPartialStop_le_iff_startsStop (response : Bytes) (stopSequences : List Bytes)
    (bound : Nat) : longestPartialStop response stopSequences ≤ bound ↔
      ∀ ending, ending <:+ response → StartsStop stopSequences ending → ending.length ≤ bound := by
  rw [longestPartialStop_le_iff]
  constructor
  · rintro h ending hsuffix ⟨stop, hstop, hstart, hproper⟩
    exact h stop hstop ending.length
      ((partialStop_iff response stop _).mpr ⟨ending, rfl, hstart, hproper, hsuffix⟩)
  · intro h stop hstop length hpartial
    obtain ⟨ending, rfl, hstart, hproper, hsuffix⟩ := (partialStop_iff _ _ _).mp hpartial
    exact h ending hsuffix ⟨stop, hstop, hstart, hproper⟩

/-- The longest one is reached, unless there is none. -/
theorem startsStop_longest {response : Bytes} {stopSequences : List Bytes}
    (hpos : 0 < longestPartialStop response stopSequences) :
    ∃ ending, ending.length = longestPartialStop response stopSequences ∧
      ending <:+ response ∧ StartsStop stopSequences ending := by
  by_contra hnone
  have hle := (longestPartialStop_le_iff_startsStop response stopSequences
    (longestPartialStop response stopSequences - 1)).mpr ?_
  · omega
  · intro ending hsuffix hstarts
    have hbound := (longestPartialStop_le_iff_startsStop response stopSequences _).mp
      (Nat.le_refl _) ending hsuffix hstarts
    have hne : ending.length ≠ longestPartialStop response stopSequences :=
      fun heq => hnone ⟨ending, heq, hsuffix, hstarts⟩
    omega

theorem trimPartialStop_append (response : Bytes) (stopSequences : List Bytes) :
    trimPartialStop response stopSequences ++
      response.drop (response.length - longestPartialStop response stopSequences) = response := by
  simp only [trimPartialStop]
  split
  · exact List.take_append_drop _ response
  · next hzero =>
      rw [show longestPartialStop response stopSequences = 0 by omega, Nat.sub_zero,
        List.drop_length, List.append_nil]

/-- The end that is removed is a beginning of a stop sequence and no longer one is another end
of the response; of the list only its members matter. -/
theorem trimPartialStop_exact (response : Bytes) (stopSequences : List Bytes) :
    (∃ removed, response = trimPartialStop response stopSequences ++ removed ∧
      (removed = [] ∨ StartsStop stopSequences removed) ∧
      ∀ ending, ending <:+ response → StartsStop stopSequences ending → ending <:+ removed) ∧
    ∀ reordered : List Bytes, (∀ stop, stop ∈ reordered ↔ stop ∈ stopSequences) →
      trimPartialStop response reordered = trimPartialStop response stopSequences := by
  constructor
  · have hlength := longestPartialStop_le_length response stopSequences
    refine ⟨response.drop (response.length - longestPartialStop response stopSequences),
      (trimPartialStop_append response stopSequences).symm, ?_, ?_⟩
    · by_cases hpos : 0 < longestPartialStop response stopSequences
      · obtain ⟨ending, hlongest, hsuffix, hstarts⟩ := startsStop_longest hpos
        rw [← hlongest, ← List.suffix_iff_eq_drop.mp hsuffix]
        exact .inr hstarts
      · rw [Nat.eq_zero_of_not_pos hpos, Nat.sub_zero, List.drop_length]
        exact .inl rfl
    · intro ending hsuffix hstarts
      have hle := (longestPartialStop_le_iff_startsStop response stopSequences _).mp
        (Nat.le_refl _) ending hsuffix hstarts
      refine List.suffix_of_suffix_length_le hsuffix (List.drop_suffix _ _) ?_
      rw [List.length_drop]
      omega
  · intro reordered hsame
    have hequal : longestPartialStop response reordered =
        longestPartialStop response stopSequences := by
      refine eq_of_forall_ge_iff fun bound => ?_
      rw [longestPartialStop_le_iff, longestPartialStop_le_iff]
      exact forall_congr' fun stop => imp_congr_left (hsame stop)
    rw [trimPartialStop, trimPartialStop, hequal]

/-- Two beginnings end `ab<|`, of `|>` and of `<|im`; the longer one is removed. -/
theorem trimPartialStop_exact_order :
    (∃ removed, [97, 98, 60, 124] =
      trimPartialStop [97, 98, 60, 124] [[124, 62], [], [60, 124, 105, 109]] ++ removed ∧
      [60, 124] <:+ removed) ∧
    trimPartialStop [97, 98, 60, 124] [[60, 124, 105, 109], [124, 62], [124, 62], []] =
      trimPartialStop [97, 98, 60, 124] [[124, 62], [], [60, 124, 105, 109]] := by
  obtain ⟨⟨removed, hsplit, -, hlongest⟩, hsame⟩ :=
    trimPartialStop_exact [97, 98, 60, 124] [[124, 62], [], [60, 124, 105, 109]]
  refine ⟨⟨removed, hsplit, hlongest _ ⟨[97, 98], rfl⟩ ?_⟩, hsame _ ?_⟩
  · exact ⟨[60, 124, 105, 109], by decide, by decide, by decide⟩
  · intro stop
    simp only [List.mem_cons, List.not_mem_nil, or_false]
    tauto

end CppRag
