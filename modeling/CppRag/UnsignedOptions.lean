import CppRag.CommandLine
import CppRag.PromptTurns

/-!
What the unsigned options accept. A value is read as `std::stoull` reads it, so a negative
numeral whose magnitude fits is accepted as a large value; on all other texts an accepted
value is the one the text denotes, and `--scales` accepts just the lists of pairs.
-/
namespace CppRag
open Characters Numerals

theorem separating_isSpace : Separating isSpace := by
  refine ⟨fun character hdigit => ?_, rfl, rfl⟩
  simp only [isDigit, Bool.and_eq_true, decide_eq_true_eq, UInt8.le_iff_toNat_le] at hdigit
  simp only [isSpace, Bool.or_eq_false_iff, decide_eq_false_iff_not, Bool.and_eq_false_iff,
    UInt8.le_iff_toNat_le]
  have h48 : (48 : UInt8).toNat = 48 := rfl
  have h13 : (13 : UInt8).toNat = 13 := rfl
  refine ⟨?_, .inr (by omega)⟩
  rintro rfl
  exact absurd hdigit.1 (by decide)

/-- What a text denotes: blanks, a sign and digits. -/
abbrev Spelled (text : Bytes) (value : Int) : Prop := Denotes isSpace text value

theorem spelled_not_mem {text : Bytes} {value : Int} (h : Spelled text value) :
    colon ∉ text ∧ comma ∉ text :=
  ⟨not_mem_of_denotes h rfl rfl (by decide) (by decide),
    not_mem_of_denotes h rfl rfl (by decide) (by decide)⟩

/-! One value. -/

/-- An accepted value is what the text denotes. -/
def MeansWhatItSays (text : Bytes) : Prop :=
  ∀ option value, sizeValue option text = .ok value → Spelled text (value.toNat : Int)

/-- A negative numeral whose magnitude fits in 64 bits. -/
def NegativeNumeral (text : Bytes) : Prop := ∃ z, Spelled text z ∧ -2 ^ 64 < z ∧ z < 0

theorem sizeValue_ok_iff {option text : Bytes} {value : UInt64} :
    sizeValue option text = .ok value ↔
      ∃ z, Spelled text z ∧ z.natAbs < 2 ^ 64 ∧ value = UInt64.ofInt z := by
  rw [← stoull_whole_iff separating_isSpace, sizeValue]
  cases hread : stoull isSpace text with
  | error error => exact iff_of_false nofun nofun
  | ok read =>
      obtain ⟨result, consumed⟩ := read
      by_cases hwhole : consumed = text.length
      · simp only [hwhole, ne_eq, not_true_eq_false, if_false, Except.ok.injEq, Prod.mk.injEq,
          and_true]
      · simp only [hwhole, ne_eq, not_false_eq_true, if_true, Except.ok.injEq, Prod.mk.injEq,
          and_false, reduceCtorEq]

theorem toNat_ofInt_of_nonneg {z : Int} (hz : 0 ≤ z) (hsmall : z.natAbs < 2 ^ 64) :
    ((UInt64.ofInt z).toNat : Int) = z := by
  rw [toNat_ofInt]
  omega

theorem means_iff (text : Bytes) : MeansWhatItSays text ↔ ¬NegativeNumeral text := by
  constructor
  · rintro hmeans ⟨z, hspelled, hlow, hneg⟩
    have haccepted : sizeValue [] text = .ok (UInt64.ofInt z) :=
      sizeValue_ok_iff.mpr ⟨z, hspelled, by omega, rfl⟩
    have hsame := denotes_unique separating_isSpace hspelled (hmeans [] _ haccepted)
    omega
  · intro hnone option value haccepted
    obtain ⟨z, hspelled, hsmall, rfl⟩ := sizeValue_ok_iff.mp haccepted
    have hnonneg : 0 ≤ z := Int.not_lt.mp fun hneg => hnone ⟨z, hspelled, by omega, hneg⟩
    rwa [toNat_ofInt_of_nonneg hnonneg hsmall]

/-! The pairs of `--scales`. -/

/-- The text is a comma-separated list of pairs of numerals. -/
inductive SpelledPairs : Bytes → List (Int × Int) → Prop
  | last {bytes overlap : Bytes} {y z : Int} (hbytes : Spelled bytes y)
      (hoverlap : Spelled overlap z) : SpelledPairs (bytes ++ colon :: overlap) [(y, z)]
  | cons {bytes overlap rest : Bytes} {y z : Int} {pairs : List (Int × Int)}
      (hbytes : Spelled bytes y) (hoverlap : Spelled overlap z) (hrest : SpelledPairs rest pairs) :
      SpelledPairs (bytes ++ colon :: overlap ++ comma :: rest) ((y, z) :: pairs)

/-- A pair as the code reads it. -/
def readPair (pair : Int × Int) : ChunkOptions := ⟨UInt64.ofInt pair.1, UInt64.ofInt pair.2⟩

/-- The code accepts the pair: both magnitudes fit, and the overlap it reads is below the
bytes it reads. -/
def AcceptedPair (pair : Int × Int) : Prop :=
  pair.1.natAbs < 2 ^ 64 ∧ pair.2.natAbs < 2 ^ 64 ∧ UInt64.ofInt pair.2 < UInt64.ofInt pair.1

/-- A returned pair as integers. -/
def pairValues (scale : ChunkOptions) : Int × Int :=
  (scale.maxBytes.toNat, scale.overlapBytes.toNat)

/-- The list of pairs is accepted exactly when every overlap is below its bytes, and its
values are returned in order. -/
def ParsesPairs (spec : Bytes) : Prop :=
  ∀ scales, parseScales spec = .ok scales ↔
    SpelledPairs spec (scales.map pairValues) ∧
      ∀ scale ∈ scales, scale.overlapBytes < scale.maxBytes

/-- A list that the code accepts although a value in it is negative. -/
def NegativePairs (spec : Bytes) : Prop :=
  ∃ pairs, SpelledPairs spec pairs ∧ (∀ pair ∈ pairs, AcceptedPair pair) ∧
    ∃ pair ∈ pairs, pair.1 < 0 ∨ pair.2 < 0

theorem takeWhile_append_cons {separator : UInt8} {front : Bytes} (h : separator ∉ front)
    (back : Bytes) : (front ++ separator :: back).takeWhile (· ≠ separator) = front := by
  have hall : ∀ character ∈ front, decide (character ≠ separator) = true := fun character hmem =>
    decide_eq_true fun heq => h (heq ▸ hmem)
  rw [List.takeWhile_append_of_pos hall, List.takeWhile_cons_of_neg (by simp), List.append_nil]

theorem dropWhile_append_cons {separator : UInt8} {front : Bytes} (h : separator ∉ front)
    (back : Bytes) :
    (front ++ separator :: back).dropWhile (· ≠ separator) = separator :: back := by
  have hall : ∀ character ∈ front, decide (character ≠ separator) = true := fun character hmem =>
    decide_eq_true fun heq => h (heq ▸ hmem)
  rw [List.dropWhile_append_of_pos hall, List.dropWhile_cons_of_neg (by simp)]

theorem dropWhile_of_not_mem {separator : UInt8} {text : Bytes} (h : separator ∉ text) :
    text.dropWhile (· ≠ separator) = [] ∧ text.takeWhile (· ≠ separator) = text := by
  have hall : ∀ character ∈ text, decide (character ≠ separator) = true := fun character hmem =>
    decide_eq_true fun heq => h (heq ▸ hmem)
  exact ⟨List.dropWhile_eq_nil_iff.mpr hall, List.takeWhile_eq_self_iff.mpr hall⟩

theorem parseScale_split {front : Bytes} (h : colon ∉ front) (back : Bytes) :
    parseScale (front ++ colon :: back) = (do
      let bytes ← sizeValue (ascii "--scales") front
      let overlap ← sizeValue (ascii "--scales") back
      if bytes = 0 ∨ overlap ≥ bytes then
        .error (.usage (ascii "--scales needs 0 < overlap < bytes in every pair"))
      else pure ⟨bytes, overlap⟩) := by
  rw [parseScale, dropWhile_append_cons h, takeWhile_append_cons h]

/-- The check of the code leaves the pairs with the overlap below the bytes. -/
theorem proper_iff (bytes overlap : UInt64) :
    ¬(bytes = 0 ∨ overlap ≥ bytes) ↔ overlap < bytes := by
  rw [not_or]
  constructor
  · rintro ⟨-, hless⟩
    exact UInt64.lt_iff_toNat_lt.mpr (Nat.lt_of_not_le fun hle =>
      hless (UInt64.le_iff_toNat_le.mpr hle))
  · intro hless
    have hnat := UInt64.lt_iff_toNat_lt.mp hless
    refine ⟨?_, fun hle => Nat.not_lt.mpr (UInt64.le_iff_toNat_le.mp hle) hnat⟩
    rintro rfl
    exact absurd hnat (Nat.not_lt_zero _)

theorem parseScale_ok_iff {item : Bytes} {scale : ChunkOptions} : parseScale item = .ok scale ↔
    ∃ bytes overlap y z, item = bytes ++ colon :: overlap ∧ Spelled bytes y ∧
      Spelled overlap z ∧ AcceptedPair (y, z) ∧ scale = readPair (y, z) := by
  constructor
  · intro h
    by_cases hcolon : colon ∈ item
    · obtain ⟨front, back, rfl, hfront⟩ := List.eq_append_cons_of_mem hcolon
      rw [parseScale_split hfront] at h
      cases hbytes : sizeValue (ascii "--scales") front with
      | error failure => rw [hbytes] at h; cases h
      | ok bytes =>
          cases hoverlap : sizeValue (ascii "--scales") back with
          | error failure => simp only [hbytes, hoverlap, bind, Except.bind] at h; cases h
          | ok overlap =>
              simp only [hbytes, hoverlap, bind, Except.bind] at h
              by_cases hbad : bytes = 0 ∨ overlap ≥ bytes
              · rw [if_pos hbad] at h
                cases h
              · rw [if_neg hbad] at h
                cases h
                obtain ⟨y, hy, hysmall, rfl⟩ := sizeValue_ok_iff.mp hbytes
                obtain ⟨z, hz, hzsmall, rfl⟩ := sizeValue_ok_iff.mp hoverlap
                exact ⟨front, back, y, z, rfl, hy, hz,
                  ⟨hysmall, hzsmall, (proper_iff _ _).mp hbad⟩, rfl⟩
    · rw [parseScale, (dropWhile_of_not_mem hcolon).1] at h
      cases h
  · rintro ⟨bytes, overlap, y, z, rfl, hy, hz, ⟨hysmall, hzsmall, hless⟩, rfl⟩
    rw [parseScale_split (spelled_not_mem hy).1,
      sizeValue_ok_iff.mpr ⟨y, hy, hysmall, rfl⟩, sizeValue_ok_iff.mpr ⟨z, hz, hzsmall, rfl⟩]
    simp only [bind, Except.bind, if_neg ((proper_iff _ _).mpr hless)]
    rfl

/-! The list. -/

theorem parseScalesFrom_last {item : Bytes} (h : comma ∉ item) :
    parseScalesFrom item = (parseScale item).map fun scale => [scale] := by
  obtain ⟨hdrop, htake⟩ := dropWhile_of_not_mem h
  rw [parseScalesFrom]
  split
  · rw [htake]
    cases parseScale item <;> rfl
  · rename_i hcons
    rw [hdrop] at hcons
    cases hcons

theorem parseScalesFrom_cons {item : Bytes} (h : comma ∉ item) (rest : Bytes) :
    parseScalesFrom (item ++ comma :: rest) = (do
      let scale ← parseScale item
      let scales ← parseScalesFrom rest
      pure (scale :: scales)) := by
  rw [parseScalesFrom]
  split
  · rename_i hnil
    rw [dropWhile_append_cons h] at hnil
    cases hnil
  · rename_i hcons
    rw [dropWhile_append_cons h] at hcons
    cases hcons
    rw [takeWhile_append_cons h]

/-- An accepted item has no comma in it. -/
theorem comma_not_mem {bytes overlap : Bytes} {y z : Int} (hbytes : Spelled bytes y)
    (hoverlap : Spelled overlap z) : comma ∉ bytes ++ colon :: overlap := by
  rw [List.mem_append, List.mem_cons, not_or, not_or]
  exact ⟨(spelled_not_mem hbytes).2, by decide, (spelled_not_mem hoverlap).2⟩

theorem parseScalesFrom_accepts {spec : Bytes} {pairs : List (Int × Int)}
    (h : SpelledPairs spec pairs) (haccepted : ∀ pair ∈ pairs, AcceptedPair pair) :
    parseScalesFrom spec = .ok (pairs.map readPair) := by
  induction h with
  | last hbytes hoverlap =>
      have hscale := parseScale_ok_iff.mpr
        ⟨_, _, _, _, rfl, hbytes, hoverlap, haccepted _ List.mem_cons_self, rfl⟩
      rw [parseScalesFrom_last (comma_not_mem hbytes hoverlap), hscale]
      rfl
  | cons hbytes hoverlap hrest ih =>
      have hscale := parseScale_ok_iff.mpr
        ⟨_, _, _, _, rfl, hbytes, hoverlap, haccepted _ List.mem_cons_self, rfl⟩
      rw [parseScalesFrom_cons (comma_not_mem hbytes hoverlap), hscale,
        ih fun pair hpair => haccepted pair (List.mem_cons_of_mem _ hpair)]
      rfl

/-- What is accepted is a list of accepted pairs; by induction on the length of the text. -/
theorem parseScalesFrom_ok {spec : Bytes} {scales : List ChunkOptions}
    (h : parseScalesFrom spec = .ok scales) :
    ∃ pairs, SpelledPairs spec pairs ∧ (∀ pair ∈ pairs, AcceptedPair pair) ∧
      scales = pairs.map readPair := by
  induction hlength : spec.length using Nat.strongRecOn generalizing spec scales with
  | ind n ih =>
      by_cases hcomma : comma ∈ spec
      · obtain ⟨item, rest, rfl, hitem⟩ := List.eq_append_cons_of_mem hcomma
        rw [parseScalesFrom_cons hitem] at h
        cases hscale : parseScale item with
        | error failure => rw [hscale] at h; cases h
        | ok scale =>
            cases hscales : parseScalesFrom rest with
            | error failure => simp only [hscale, hscales, bind, Except.bind] at h; cases h
            | ok later =>
                simp only [hscale, hscales, bind, Except.bind] at h
                cases h
                obtain ⟨bytes, overlap, y, z, rfl, hy, hz, hpair, rfl⟩ :=
                  parseScale_ok_iff.mp hscale
                have hshorter : rest.length < n := by
                  rw [← hlength, List.length_append, List.length_cons]
                  omega
                obtain ⟨pairs, hpairs, haccepted, rfl⟩ := ih _ hshorter hscales rfl
                exact ⟨(y, z) :: pairs, .cons hy hz hpairs,
                  List.forall_mem_cons.mpr ⟨hpair, haccepted⟩, rfl⟩
      · rw [parseScalesFrom_last hcomma] at h
        cases hscale : parseScale spec with
        | error failure => rw [hscale] at h; cases h
        | ok scale =>
            rw [hscale] at h
            cases h
            obtain ⟨bytes, overlap, y, z, rfl, hy, hz, hpair, rfl⟩ := parseScale_ok_iff.mp hscale
            exact ⟨[(y, z)], .last hy hz, List.forall_mem_singleton.mpr hpair, rfl⟩

/-! The lists and what is returned. -/

theorem spelled_item_unique {bytes overlap bytes' overlap' : Bytes} {y z y' z' : Int}
    (hbytes : Spelled bytes y) (hoverlap : Spelled overlap z) (hbytes' : Spelled bytes' y')
    (hoverlap' : Spelled overlap' z')
    (h : bytes ++ colon :: overlap = bytes' ++ colon :: overlap') : (y, z) = (y', z') := by
  have hfront := congrArg (List.takeWhile (· ≠ colon)) h
  rw [takeWhile_append_cons (spelled_not_mem hbytes).1,
    takeWhile_append_cons (spelled_not_mem hbytes').1] at hfront
  subst hfront
  have hback := List.cons.inj (List.append_cancel_left h)
  rw [← hback.2] at hoverlap'
  rw [denotes_unique separating_isSpace hbytes hbytes',
    denotes_unique separating_isSpace hoverlap hoverlap']

theorem spelledPairs_unique {spec : Bytes} {first second : List (Int × Int)}
    (hfirst : SpelledPairs spec first) (hsecond : SpelledPairs spec second) : first = second := by
  induction hfirst generalizing second with
  | last hbytes hoverlap =>
      generalize htext : _ ++ colon :: _ = text at hsecond
      cases hsecond with
      | last hbytes' hoverlap' =>
          rw [spelled_item_unique hbytes hoverlap hbytes' hoverlap' htext]
      | cons hbytes' hoverlap' hrest' =>
          have hcomma := comma_not_mem hbytes hoverlap
          rw [htext] at hcomma
          exact absurd (List.mem_append_right _ List.mem_cons_self) hcomma
  | cons hbytes hoverlap hrest ih =>
      generalize htext : _ ++ comma :: _ = text at hsecond
      cases hsecond with
      | last hbytes' hoverlap' =>
          have hcomma := comma_not_mem hbytes' hoverlap'
          rw [← htext] at hcomma
          exact absurd (List.mem_append_right _ List.mem_cons_self) hcomma
      | cons hbytes' hoverlap' hrest' =>
          have hitems := congrArg (List.takeWhile (· ≠ comma)) htext
          rw [takeWhile_append_cons (comma_not_mem hbytes hoverlap),
            takeWhile_append_cons (comma_not_mem hbytes' hoverlap')] at hitems
          rw [hitems] at htext
          have hlater := List.cons.inj (List.append_cancel_left htext)
          rw [← hlater.2] at hrest'
          rw [spelled_item_unique hbytes hoverlap hbytes' hoverlap' hitems, ih hrest']

theorem readPair_pairValues (scale : ChunkOptions) : readPair (pairValues scale) = scale := by
  have hread : ∀ value : UInt64, UInt64.ofInt (value.toNat : Int) = value := fun value => by
    refine UInt64.toNat_inj.mp ?_
    have hlt := value.toNat_lt
    rw [toNat_ofInt]
    omega
  rw [readPair, pairValues, hread, hread]

theorem pairValues_readPair {pair : Int × Int} (haccepted : AcceptedPair pair)
    (hnonneg : ¬(pair.1 < 0 ∨ pair.2 < 0)) : pairValues (readPair pair) = pair := by
  rw [not_or, Int.not_lt, Int.not_lt] at hnonneg
  rw [pairValues, readPair, toNat_ofInt_of_nonneg hnonneg.1 haccepted.1,
    toNat_ofInt_of_nonneg hnonneg.2 haccepted.2.1]

theorem accepted_pairValues {scale : ChunkOptions} (h : scale.overlapBytes < scale.maxBytes) :
    AcceptedPair (pairValues scale) := by
  have hsame := readPair_pairValues scale
  refine ⟨?_, ?_, ?_⟩
  · rw [pairValues, Int.natAbs_natCast]
    exact scale.maxBytes.toNat_lt
  · rw [pairValues, Int.natAbs_natCast]
    exact scale.overlapBytes.toNat_lt
  · rw [← hsame] at h
    exact h

theorem parses_iff {spec : Bytes} (hspec : spec ≠ []) : ParsesPairs spec ↔ ¬NegativePairs spec := by
  have hparse : parseScales spec = parseScalesFrom spec := by
    rw [parseScales, if_neg (by simpa using hspec)]
  constructor
  · rintro hparses ⟨pairs, hpairs, haccepted, pair, hpair, hnegative⟩
    have hok := parseScalesFrom_accepts hpairs haccepted
    have hreturned := ((hparses _).mp (hparse.trans hok)).1
    have hsame := spelledPairs_unique hpairs hreturned
    rw [hsame, List.map_map, List.mem_map] at hpair
    obtain ⟨original, -, rfl⟩ := hpair
    simp only [Function.comp_apply, pairValues] at hnegative
    omega
  · intro hnone scales
    rw [hparse]
    constructor
    · intro h
      obtain ⟨pairs, hpairs, haccepted, rfl⟩ := parseScalesFrom_ok h
      have hvalues : (pairs.map readPair).map pairValues = pairs := by
        rw [List.map_map]
        refine (List.map_congr_left fun pair hpair => ?_).trans (List.map_id pairs)
        exact pairValues_readPair (haccepted pair hpair) fun hnegative =>
          hnone ⟨pairs, hpairs, haccepted, pair, hpair, hnegative⟩
      rw [hvalues]
      refine ⟨hpairs, fun scale hscale => ?_⟩
      obtain ⟨pair, hpair, rfl⟩ := List.mem_map.mp hscale
      exact (haccepted pair hpair).2.2
    · rintro ⟨hpairs, hproper⟩
      have hread : (scales.map pairValues).map readPair = scales := by
        rw [List.map_map]
        exact (List.map_congr_left fun scale _ => readPair_pairValues scale).trans
          (List.map_id scales)
      refine (parseScalesFrom_accepts hpairs fun pair hpair => ?_).trans (by rw [hread])
      obtain ⟨scale, hscale, rfl⟩ := List.mem_map.mp hpair
      exact accepted_pairValues (hproper scale hscale)

/-- For every argument: a value means what it says unless it is a negative numeral whose
magnitude fits; and for every non-empty list of scales: it is parsed as it is spelled unless it
is accepted with a negative value in it. -/
theorem unsigned_options_iff (text spec : Bytes) (hspec : spec ≠ []) :
    (MeansWhatItSays text ↔ ¬NegativeNumeral text) ∧
      (ParsesPairs spec ↔ ¬NegativePairs spec) :=
  ⟨means_iff text, parses_iff hspec⟩

section Numerals

theorem spelled_plain (sign : Sign) (digits : Bytes)
    (hdigit : ∀ character ∈ digits, isDigit character = true) (hne : digits ≠ []) :
    Spelled (sign.text ++ digits) (sign.apply (digitsValue digits)) :=
  ⟨⟨[], sign, digits, nofun, hdigit, hne⟩, rfl, rfl⟩

theorem spelled_decimal (value : UInt64) : Spelled (decimal value) value.toNat := by
  have hdigit : ∀ character ∈ decimal value, isDigit character = true := fun character hmem => by
    have hrange := mem_decimal hmem
    simp only [isDigit, Bool.and_eq_true, decide_eq_true_eq]
    exact hrange
  have hne : decimal value ≠ [] := by
    rw [decimal, ne_eq, List.map_eq_nil_iff]
    exact Nat.toDigits_ne_nil
  have hvalue : digitsValue (decimal value) = value.toNat := by
    have hread := Nat.ofDigitChars_ten_toDigits (n := value.toNat)
    rw [Nat.ofDigitChars_eq_foldl] at hread
    rw [digitsValue, decimal, List.foldl_map]
    refine (List.foldl_ext _ _ _ fun total digit hmem => ?_).trans hread
    have hrange := Nat.isDigit_of_mem_toDigits (by decide) (by decide) hmem
    simp only [Char.isDigit, Bool.and_eq_true, decide_eq_true_eq, UInt32.le_iff_toNat_le] at hrange
    have hhigh : digit.toNat ≤ 57 := hrange.2
    rw [UInt8.toNat_ofNat_of_lt' (Nat.lt_of_le_of_lt hhigh (by decide))]
    rfl
  have hplain := spelled_plain .none (decimal value) hdigit hne
  rw [Sign.text, List.nil_append, hvalue] at hplain
  exact hplain

theorem sizeValue_decimal (option : Bytes) (value : UInt64) :
    sizeValue option (decimal value) = .ok value := by
  refine sizeValue_ok_iff.mpr ⟨value.toNat, spelled_decimal value, ?_, ?_⟩
  · rw [Int.natAbs_natCast]
    exact value.toNat_lt
  · refine UInt64.toNat_inj.mp ?_
    have hlt := value.toNat_lt
    rw [toNat_ofInt]
    omega

theorem spelled_300_50 : SpelledPairs (ascii "300:50") [(300, 50)] :=
  .last (spelled_plain .none (ascii "300") (List.all_eq_true.mp (by decide)) (by decide))
    (spelled_plain .none (ascii "50") (List.all_eq_true.mp (by decide)) (by decide))

theorem unsigned_options_iff_plain :
    MeansWhatItSays (ascii "50") ∧ ParsesPairs (ascii "300:50") := by
  have hiff := unsigned_options_iff (ascii "50") (ascii "300:50") (by decide)
  refine ⟨hiff.1.mpr ?_, hiff.2.mpr ?_⟩
  · rintro ⟨z, hspelled, -, hneg⟩
    have hsame := denotes_unique separating_isSpace hspelled
      (spelled_plain .none (ascii "50") (List.all_eq_true.mp (by decide)) (by decide))
    rw [hsame] at hneg
    exact absurd hneg (by decide)
  · rintro ⟨pairs, hpairs, -, pair, hpair, hneg⟩
    rw [spelledPairs_unique hpairs spelled_300_50] at hpair
    cases List.mem_singleton.mp hpair
    exact absurd hneg (by decide)

/-- `-1` is accepted as 18446744073709551615, and so is a scale of that size. -/
theorem unsigned_options_negative :
    sizeValue (ascii "--top-k") (ascii "-1") = .ok 18446744073709551615 ∧
      ¬MeansWhatItSays (ascii "-1") ∧ ¬ParsesPairs (ascii "-1:5") := by
  have hminus : Spelled (ascii "-1") (-1) :=
    spelled_plain .minus (ascii "1") (List.all_eq_true.mp (by decide)) (by decide)
  have hfive : Spelled (ascii "5") 5 :=
    spelled_plain .none (ascii "5") (List.all_eq_true.mp (by decide)) (by decide)
  refine ⟨sizeValue_ok_iff.mpr ⟨-1, hminus, by decide, by decide⟩, fun h => ?_, fun h => ?_⟩
  · exact (means_iff _).mp h ⟨-1, hminus, by decide, by decide⟩
  · exact (parses_iff (by decide)).mp h ⟨[(-1, 5)], .last hminus hfive,
      List.forall_mem_singleton.mpr ⟨by decide, by decide, by decide⟩, (-1, 5),
      List.mem_singleton_self _, .inl (by decide)⟩

end Numerals

end CppRag
