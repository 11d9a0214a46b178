import Mathlib.Data.List.Basic
import Mathlib.Tactic.Ring

/-!
Unsigned integers as fixed-width byte sequences, least significant byte first.
-/
namespace LittleEndian

/-- The `width` low bytes of `value`. -/
def encode : Nat → Nat → List UInt8
  | 0, _ => []
  | width + 1, value => UInt8.ofNat value :: encode width (value / 256)

def decode : List UInt8 → Nat
  | [] => 0
  | byte :: rest => byte.toNat + 256 * decode rest

@[simp] theorem length_encode (width value : Nat) : (encode width value).length = width := by
  induction width generalizing value with
  | zero => rfl
  | succ width ih => simp only [encode, List.length_cons, ih]

theorem decode_encode (width value : Nat) :
    decode (encode width value) = value % 256 ^ width := by
  induction width generalizing value with
  | zero => simp [encode, decode, Nat.mod_one]
  | succ width ih =>
      have hbyte : (UInt8.ofNat value).toNat = value % 256 := UInt8.toNat_ofNat'
      rw [encode, decode, ih, hbyte, Nat.pow_succ, Nat.mul_comm (256 ^ width) 256,
        Nat.mod_mul]

theorem decode_lt (bytes : List UInt8) : decode bytes < 256 ^ bytes.length := by
  induction bytes with
  | nil => simp [decode]
  | cons byte bytes ih =>
      have hbyte := byte.toNat_lt
      rw [decode, List.length_cons, Nat.pow_succ]
      omega

theorem decode_append (xs ys : List UInt8) :
    decode (xs ++ ys) = decode xs + 256 ^ xs.length * decode ys := by
  induction xs with
  | nil => simp [decode]
  | cons x xs ih =>
      rw [List.cons_append, decode, decode, ih, List.length_cons, Nat.pow_succ]
      ring

/-- Sequences of one width that hold one number are the same. -/
theorem decode_injective {xs ys : List UInt8} (hlength : xs.length = ys.length)
    (h : decode xs = decode ys) : xs = ys := by
  induction xs generalizing ys with
  | nil => exact (List.length_eq_zero_iff.mp hlength.symm).symm
  | cons x xs ih =>
      cases ys with
      | nil => cases hlength
      | cons y ys =>
          have hx := x.toNat_lt
          have hy := y.toNat_lt
          simp only [decode] at h
          have hhead : x = y := UInt8.toNat_inj.mp (by omega)
          rw [hhead, ih (Nat.succ.inj hlength) (by omega)]

/-- A number read from one to three places later is smaller, or has bytes that follow it as its
high ones. -/
theorem decode_shift {bytes : List UInt8} {shift : Nat} (hlength : bytes.length = 8)
    (hshift : 0 < shift) (hshort : shift < 4) (hpos : 0 < decode bytes) (later : List UInt8) :
    decode (bytes.drop shift ++ later) < decode bytes ∨
      2 ^ 40 ≤ decode (bytes.drop shift ++ later) := by
  have hsplit : decode bytes =
      decode (bytes.take shift) + 256 ^ shift * decode (bytes.drop shift) := by
    conv_lhs => rw [← List.take_append_drop shift bytes, decode_append]
    rw [List.length_take, Nat.min_eq_left (by omega)]
  have hpow : 256 ^ 1 ≤ 256 ^ shift := Nat.pow_le_pow_right (by decide) hshift
  have hpow' : 256 ^ 5 ≤ 256 ^ (8 - shift) := Nat.pow_le_pow_right (by decide) (by omega)
  rw [decode_append, List.length_drop, hlength]
  rcases Nat.eq_zero_or_pos (decode later) with hzero | hsome
  · left
    have hle := Nat.mul_le_mul_right (decode (bytes.drop shift)) hpow
    rw [hzero, Nat.mul_zero]
    omega
  · right
    have hle := Nat.mul_le_mul hpow' hsome
    have hvalue : 256 ^ 5 * 1 = 2 ^ 40 := by decide
    omega

def encodeUInt32 (value : UInt32) : List UInt8 := encode 4 value.toNat

def decodeUInt32 (bytes : List UInt8) : UInt32 := UInt32.ofNat (decode bytes)

def encodeUInt64 (value : UInt64) : List UInt8 := encode 8 value.toNat

def decodeUInt64 (bytes : List UInt8) : UInt64 := UInt64.ofNat (decode bytes)

@[simp] theorem length_encodeUInt32 (value : UInt32) : (encodeUInt32 value).length = 4 :=
  length_encode 4 _

@[simp] theorem length_encodeUInt64 (value : UInt64) : (encodeUInt64 value).length = 8 :=
  length_encode 8 _

@[simp] theorem decodeUInt32_encodeUInt32 (value : UInt32) :
    decodeUInt32 (encodeUInt32 value) = value := by
  have h : value.toNat % 256 ^ 4 = value.toNat := Nat.mod_eq_of_lt value.toNat_lt
  rw [decodeUInt32, encodeUInt32, decode_encode, h, UInt32.ofNat_toNat]

@[simp] theorem decodeUInt64_encodeUInt64 (value : UInt64) :
    decodeUInt64 (encodeUInt64 value) = value := by
  have h : value.toNat % 256 ^ 8 = value.toNat := Nat.mod_eq_of_lt value.toNat_lt
  rw [decodeUInt64, encodeUInt64, decode_encode, h, UInt64.ofNat_toNat]

theorem toNat_decodeUInt32 {bytes : List UInt8} (h : bytes.length = 4) :
    (decodeUInt32 bytes).toNat = decode bytes := by
  have hlt := decode_lt bytes
  rw [h] at hlt
  exact UInt32.toNat_ofNat_of_lt' hlt

theorem toNat_decodeUInt64 {bytes : List UInt8} (h : bytes.length = 8) :
    (decodeUInt64 bytes).toNat = decode bytes := by
  have hlt := decode_lt bytes
  rw [h] at hlt
  exact UInt64.toNat_ofNat_of_lt' hlt

theorem decodeUInt32_injective {xs ys : List UInt8} (hx : xs.length = 4) (hy : ys.length = 4)
    (h : decodeUInt32 xs = decodeUInt32 ys) : xs = ys := by
  refine decode_injective (hx.trans hy.symm) ?_
  rw [← toNat_decodeUInt32 hx, ← toNat_decodeUInt32 hy, h]

theorem decodeUInt64_injective {xs ys : List UInt8} (hx : xs.length = 8) (hy : ys.length = 8)
    (h : decodeUInt64 xs = decodeUInt64 ys) : xs = ys := by
  refine decode_injective (hx.trans hy.symm) ?_
  rw [← toNat_decodeUInt64 hx, ← toNat_decodeUInt64 hy, h]

end LittleEndian
