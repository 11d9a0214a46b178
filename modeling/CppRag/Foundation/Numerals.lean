import CppRag.Foundation.Characters
import Mathlib.Data.List.TakeWhile
import Mathlib.Data.UInt

/-!
Decimal numbers in text: blanks, an optional sign and digits. `std::stoull` reads the longest
beginning of this form, and with a minus sign returns the magnitude negated modulo `2^64`.
-/
namespace Numerals
open Characters

def digitsValue (digits : List UInt8) : Nat :=
  digits.foldl (fun value digit => 10 * value + (digit.toNat - 48)) 0

inductive Sign where
  | none
  | plus
  | minus
  deriving DecidableEq, Repr

def Sign.text : Sign → List UInt8
  | .none => []
  | .plus => [43]
  | .minus => [45]

def Sign.apply : Sign → Nat → Int
  | .minus, magnitude => -magnitude
  | _, magnitude => magnitude

/-- A numeral, with any blanks before its sign. -/
structure Numeral (isBlank : UInt8 → Bool) where
  blanks : List UInt8
  sign : Sign
  digits : List UInt8
  blank : ∀ character ∈ blanks, isBlank character = true
  digit : ∀ character ∈ digits, isDigit character = true
  nonempty : digits ≠ []

namespace Numeral
variable {isBlank : UInt8 → Bool}

def text (numeral : Numeral isBlank) : List UInt8 :=
  numeral.blanks ++ (numeral.sign.text ++ numeral.digits)

def value (numeral : Numeral isBlank) : Int := numeral.sign.apply (digitsValue numeral.digits)

end Numeral

/-- The text is a numeral for the integer. -/
def Denotes (isBlank : UInt8 → Bool) (text : List UInt8) (value : Int) : Prop :=
  ∃ numeral : Numeral isBlank, numeral.text = text ∧ numeral.value = value

/-! The conversion. -/

inductive StoullError where
  | invalidArgument
  | outOfRange
  deriving DecidableEq, Repr

def splitSign : List UInt8 → Sign × List UInt8
  | [] => (.none, [])
  | character :: text =>
      if character = 43 then (.plus, text)
      else if character = 45 then (.minus, text)
      else (.none, character :: text)

/-- The value and how many characters were read. -/
def stoull (isBlank : UInt8 → Bool) (text : List UInt8) : Except StoullError (UInt64 × Nat) :=
  let blanks := text.takeWhile isBlank
  let (sign, rest) := splitSign (text.dropWhile isBlank)
  let digits := rest.takeWhile isDigit
  if digits.isEmpty then .error .invalidArgument
  else if 2 ^ 64 ≤ digitsValue digits then .error .outOfRange
  else .ok (UInt64.ofInt (sign.apply (digitsValue digits)),
    blanks.length + (sign.text.length + digits.length))

/-- `std::stoll` reads the same texts, and refuses a value that has no signed 64 bits. -/
def stoll (isBlank : UInt8 → Bool) (text : List UInt8) : Except StoullError (Int × Nat) :=
  let blanks := text.takeWhile isBlank
  let (sign, rest) := splitSign (text.dropWhile isBlank)
  let digits := rest.takeWhile isDigit
  let value := sign.apply (digitsValue digits)
  if digits.isEmpty then .error .invalidArgument
  else if value < -2 ^ 63 ∨ 2 ^ 63 ≤ value then .error .outOfRange
  else .ok (value, blanks.length + (sign.text.length + digits.length))

/-! What it reads. -/

theorem toNat_ofInt (value : Int) : (UInt64.ofInt value).toNat = (value % 2 ^ 64).toNat := by
  refine UInt64.toNat_ofNat_of_lt' ?_
  rw [UInt64.size]
  omega

theorem natAbs_apply (sign : Sign) (magnitude : Nat) :
    (sign.apply magnitude).natAbs = magnitude := by
  cases sign with
  | none => exact Int.natAbs_natCast magnitude
  | plus => exact Int.natAbs_natCast magnitude
  | minus => rw [Sign.apply, Int.natAbs_neg, Int.natAbs_natCast]

theorem text_splitSign (text : List UInt8) :
    (splitSign text).1.text ++ (splitSign text).2 = text := by
  cases text with
  | nil => rfl
  | cons character text =>
      rw [splitSign]
      by_cases hplus : character = 43
      · rw [if_pos hplus, hplus]
        rfl
      · rw [if_neg hplus]
        by_cases hminus : character = 45
        · rw [if_pos hminus, hminus]
          rfl
        · rw [if_neg hminus]
          rfl

theorem splitSign_text {digits : List UInt8} (sign : Sign) (hne : digits ≠ [])
    (hdigit : ∀ character ∈ digits, isDigit character = true) :
    splitSign (sign.text ++ digits) = (sign, digits) := by
  cases sign with
  | plus => rfl
  | minus => rfl
  | none =>
      cases digits with
      | nil => exact absurd rfl hne
      | cons character digits =>
          have hfirst := hdigit character List.mem_cons_self
          rw [Sign.text, List.nil_append, splitSign, if_neg, if_neg]
          · rintro rfl
            cases hfirst
          · rintro rfl
            cases hfirst

/-- Only blanks, signs and digits stand in a numeral. -/
theorem not_mem_of_denotes {isBlank : UInt8 → Bool} {text : List UInt8} {value : Int}
    (h : Denotes isBlank text value) {character : UInt8} (hblank : isBlank character = false)
    (hdigit : isDigit character = false) (hplus : character ≠ 43) (hminus : character ≠ 45) :
    character ∉ text := by
  obtain ⟨numeral, rfl, -⟩ := h
  intro hmem
  rcases List.mem_append.mp hmem with hmem | hmem
  · rw [numeral.blank character hmem] at hblank
    cases hblank
  · rcases List.mem_append.mp hmem with hmem | hmem
    · cases hsign : numeral.sign with
      | none => rw [hsign] at hmem; cases hmem
      | plus => rw [hsign] at hmem; exact hplus (List.mem_singleton.mp hmem)
      | minus => rw [hsign] at hmem; exact hminus (List.mem_singleton.mp hmem)
    · rw [numeral.digit character hmem] at hdigit
      cases hdigit

theorem takeWhile_isDigit {digits : List UInt8}
    (hdigit : ∀ character ∈ digits, isDigit character = true) :
    digits.takeWhile isDigit = digits := by
  rw [List.takeWhile_eq_self_iff]
  exact hdigit

section Blanks
variable {isBlank : UInt8 → Bool}

/-- A blank is no digit and no sign. -/
structure Separating (isBlank : UInt8 → Bool) : Prop where
  digit : ∀ character, isDigit character = true → isBlank character = false
  plus : isBlank 43 = false
  minus : isBlank 45 = false

theorem Separating.boundary (h : Separating isBlank) (numeral : Numeral isBlank)
    {character : UInt8} (hfirst : character ∈ (numeral.sign.text ++ numeral.digits).head?) :
    isBlank character = false := by
  cases hsign : numeral.sign with
  | plus =>
      rw [hsign] at hfirst
      cases hfirst
      exact h.plus
  | minus =>
      rw [hsign] at hfirst
      cases hfirst
      exact h.minus
  | none =>
      rw [hsign, Sign.text, List.nil_append] at hfirst
      exact h.digit character (numeral.digit character (List.mem_of_mem_head? hfirst))

theorem takeWhile_text (h : Separating isBlank) (numeral : Numeral isBlank) :
    numeral.text.takeWhile isBlank = numeral.blanks := by
  rw [Numeral.text, List.takeWhile_append_of_pos numeral.blank]
  have hstop : ∀ character ∈ (numeral.sign.text ++ numeral.digits).head?,
      isBlank character = false := fun _ => h.boundary numeral
  cases hrest : numeral.sign.text ++ numeral.digits with
  | nil => rw [List.takeWhile_nil, List.append_nil]
  | cons character rest =>
      rw [hrest] at hstop
      rw [List.takeWhile_cons_of_neg (by rw [hstop character rfl]; nofun), List.append_nil]

theorem dropWhile_text (h : Separating isBlank) (numeral : Numeral isBlank) :
    numeral.text.dropWhile isBlank = numeral.sign.text ++ numeral.digits := by
  have hall := List.takeWhile_append_dropWhile (p := isBlank) (l := numeral.text)
  rw [takeWhile_text h] at hall
  exact List.append_cancel_left hall

theorem stoull_text (h : Separating isBlank) (numeral : Numeral isBlank) :
    stoull isBlank numeral.text =
      if 2 ^ 64 ≤ digitsValue numeral.digits then .error .outOfRange
      else .ok (UInt64.ofInt numeral.value, numeral.text.length) := by
  rw [stoull, takeWhile_text h, dropWhile_text h,
    splitSign_text numeral.sign numeral.nonempty numeral.digit]
  simp only [takeWhile_isDigit numeral.digit, List.isEmpty_iff, numeral.nonempty, if_false,
    Numeral.value, Numeral.text, List.length_append]

/-- What is read is a numeral, and the beginning of the text. -/
theorem stoull_ok {text : List UInt8} {value : UInt64} {consumed : Nat}
    (h : stoull isBlank text = .ok (value, consumed)) :
    ∃ (numeral : Numeral isBlank) (rest : List UInt8), text = numeral.text ++ rest ∧
      numeral.text.length = consumed := by
  unfold stoull at h
  simp only at h
  split at h
  · cases h
  split at h
  · cases h
  rename_i hne _
  cases h
  have hsplit := text_splitSign (text.dropWhile isBlank)
  have hdigits := List.takeWhile_append_dropWhile (p := isDigit)
    (l := (splitSign (text.dropWhile isBlank)).2)
  refine ⟨⟨text.takeWhile isBlank, (splitSign (text.dropWhile isBlank)).1,
    (splitSign (text.dropWhile isBlank)).2.takeWhile isDigit,
    fun _ => List.mem_takeWhile_imp, fun _ => List.mem_takeWhile_imp,
    fun hnil => hne (List.isEmpty_iff.mpr hnil)⟩,
    (splitSign (text.dropWhile isBlank)).2.dropWhile isDigit, ?_, ?_⟩
  · simp only [Numeral.text, List.append_assoc, hdigits, hsplit, List.takeWhile_append_dropWhile]
  · simp only [Numeral.text, List.length_append]

/-- A text that is read to its end is a numeral whose magnitude fits in 64 bits. -/
theorem stoull_whole_iff (hsep : Separating isBlank) {text : List UInt8} {value : UInt64} :
    stoull isBlank text = .ok (value, text.length) ↔
      ∃ z, Denotes isBlank text z ∧ z.natAbs < 2 ^ 64 ∧ value = UInt64.ofInt z := by
  constructor
  · intro h
    obtain ⟨numeral, rest, htext, hlength⟩ := stoull_ok h
    have hrest : rest = [] := by
      rw [htext, List.length_append] at hlength
      exact List.length_eq_zero_iff.mp (by omega)
    rw [hrest, List.append_nil] at htext
    subst htext
    rw [stoull_text hsep] at h
    split at h
    · cases h
    · rename_i hsmall
      cases h
      refine ⟨numeral.value, ⟨numeral, rfl, rfl⟩, ?_, rfl⟩
      rw [Numeral.value, natAbs_apply]
      exact Nat.lt_of_not_le hsmall
  · rintro ⟨z, ⟨numeral, rfl, rfl⟩, hsmall, rfl⟩
    rw [Numeral.value, natAbs_apply] at hsmall
    rw [stoull_text hsep, if_neg (Nat.not_le.mpr hsmall)]

theorem stoll_text (h : Separating isBlank) (numeral : Numeral isBlank) :
    stoll isBlank numeral.text =
      if numeral.value < -2 ^ 63 ∨ 2 ^ 63 ≤ numeral.value then .error .outOfRange
      else .ok (numeral.value, numeral.text.length) := by
  rw [stoll, takeWhile_text h, dropWhile_text h,
    splitSign_text numeral.sign numeral.nonempty numeral.digit]
  simp only [takeWhile_isDigit numeral.digit, List.isEmpty_iff, numeral.nonempty, if_false,
    Numeral.value, Numeral.text, List.length_append]

theorem stoll_ok {text : List UInt8} {value : Int} {consumed : Nat}
    (h : stoll isBlank text = .ok (value, consumed)) :
    ∃ result, stoull isBlank text = .ok (result, consumed) := by
  simp only [stoll] at h
  simp only [stoull]
  split at h
  · cases h
  split at h
  · cases h
  rename_i hne hrange
  cases h
  have hsize := natAbs_apply (splitSign (text.dropWhile isBlank)).1
    (digitsValue ((splitSign (text.dropWhile isBlank)).2.takeWhile isDigit))
  exact ⟨_, by rw [if_neg hne, if_neg (by omega)]⟩

/-- A text that is read to its end is a numeral for the value. -/
theorem stoll_whole_iff (hsep : Separating isBlank) {text : List UInt8} {value : Int} :
    stoll isBlank text = .ok (value, text.length) ↔
      Denotes isBlank text value ∧ -2 ^ 63 ≤ value ∧ value < 2 ^ 63 := by
  constructor
  · intro h
    obtain ⟨result, hresult⟩ := stoll_ok h
    obtain ⟨z, ⟨numeral, rfl, -⟩, -⟩ := (stoull_whole_iff hsep).mp hresult
    rw [stoll_text hsep] at h
    split at h
    · cases h
    · rename_i hrange
      have hvalue : numeral.value = value := (Prod.mk.inj (Except.ok.inj h)).1
      exact ⟨⟨numeral, rfl, hvalue⟩, by omega, by omega⟩
  · rintro ⟨⟨numeral, rfl, rfl⟩, hlow, hhigh⟩
    rw [stoll_text hsep, if_neg (by omega)]

theorem denotes_unique (hsep : Separating isBlank) {text : List UInt8} {y z : Int}
    (hy : Denotes isBlank text y) (hz : Denotes isBlank text z) : y = z := by
  obtain ⟨first, rfl, rfl⟩ := hy
  obtain ⟨second, hsame, rfl⟩ := hz
  have hrest := dropWhile_text hsep first
  rw [← hsame, dropWhile_text hsep second] at hrest
  have hsplit := congrArg splitSign hrest
  rw [splitSign_text _ first.nonempty first.digit,
    splitSign_text _ second.nonempty second.digit] at hsplit
  simp only [Prod.mk.injEq] at hsplit
  rw [Numeral.value, Numeral.value, hsplit.1, hsplit.2]

end Blanks
end Numerals
