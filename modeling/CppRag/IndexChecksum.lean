import CppRag.IndexRoundTrip
import Mathlib.Tactic.LinearCombination

/-!
What the payload checksum detects. A step of the digest is injective in its state, so two
payloads that end alike hash alike only if they already did before; and three bytes are too
few to make two different digests meet again.
-/
namespace CppRag
open Observed Slice

namespace Fnv1a64

/-- The multiplier is odd, so multiplying by it can be undone. -/
theorem mul_prime_cancel {x y : UInt64} (h : x * 1099511628211 = y * 1099511628211) : x = y := by
  have hinverse : (1099511628211 : UInt64) * 14886173955864302971 = 1 := by decide
  have hx := congrArg (· * (14886173955864302971 : UInt64)) h
  simpa only [UInt64.mul_assoc, hinverse, UInt64.mul_one] using hx

theorem mul_prime_div_mod (x : UInt64) :
    18446744073709551616 * (x.toNat * 1099511628211 / 18446744073709551616) +
      (x * 1099511628211).toNat = x.toNat * 1099511628211 := by
  have hmul : (x * 1099511628211).toNat = x.toNat * 1099511628211 % 18446744073709551616 :=
    UInt64.toNat_mul x 1099511628211
  rw [hmul, Nat.div_add_mod]

theorem xor_left_cancel {x y z : UInt64} (h : x ^^^ y = x ^^^ z) : y = z := by
  have hx := congrArg (x ^^^ ·) h
  simpa only [← UInt64.xor_assoc, UInt64.xor_self, UInt64.zero_xor] using hx

theorem byte_of_xor {state : UInt64} {byte byte' : UInt8}
    (h : state ^^^ byte.toUInt64 = state ^^^ byte'.toUInt64) : byte = byte' :=
  UInt8.toUInt64_inj.mp (xor_left_cancel h)

/-- A byte only touches the low byte of the state. -/
theorem xor_byte_block (state : UInt64) (byte : UInt8) :
    (state ^^^ byte.toUInt64).toNat / 256 = state.toNat / 256 := by
  have hbyte : byte.toNat / 2 ^ 8 = 0 := Nat.div_eq_of_lt byte.toNat_lt
  rw [UInt64.toNat_xor, UInt8.toNat_toUInt64, show 256 = 2 ^ 8 from rfl, Nat.xor_div_two_pow,
    hbyte, Nat.xor_zero]

theorem addByte_state_cancel {hasher hasher' : Fnv1a64} {byte : UInt8}
    (h : hasher.addByte byte = hasher'.addByte byte) : hasher = hasher' := by
  have hmixed := mul_prime_cancel (congrArg state h)
  rw [UInt64.xor_comm hasher.state, UInt64.xor_comm hasher'.state] at hmixed
  cases hasher
  cases hasher'
  exact congrArg _ (xor_left_cancel hmixed)

theorem add_state_cancel {hasher hasher' : Fnv1a64} {data : Bytes}
    (h : hasher.add data = hasher'.add data) : hasher = hasher' := by
  induction data generalizing hasher hasher' with
  | nil => exact h
  | cons byte data ih => exact addByte_state_cancel (ih h)

/-- A difference of less than one byte, carried through two multiplications by the prime
`2 ^ 40 + 435`, is not made up for by two later bytes. -/
theorem no_cancellation {d e r k : Int} (hd : -255 ≤ d ∧ d ≤ 255) (he : -510 ≤ e ∧ e ≤ 510)
    (hr : -255 ≤ r ∧ r ≤ 255)
    (h : (d * 1099511628211 + e) * 1099511628211 - r = k * 18446744073709551616) :
    d = 0 ∧ e = 0 ∧ r = 0 := by
  have hhigh : 189225 * d + 435 * e - r =
      1099511627776 * (16777216 * (k - 65536 * d) - (870 * d + e)) := by
    linear_combination h
  -- the left side is below `2 ^ 40`, and so is what is left of the right one
  have hlow : 16777216 * (k - 65536 * d) - (870 * d + e) = 0 := by omega
  have hcount : 870 * d + e = 0 := by omega
  omega

/-- The states before two multiplications agree when the byte blocks around them do. -/
theorem mixed_unique {u v w z x x' y y' qu qv qw qz : Nat}
    (hu : 18446744073709551616 * qu + x = u * 1099511628211)
    (hv : 18446744073709551616 * qv + x' = v * 1099511628211)
    (hw : 18446744073709551616 * qw + y = w * 1099511628211)
    (hz : 18446744073709551616 * qz + y' = z * 1099511628211)
    (hx : x < 18446744073709551616) (hx' : x' < 18446744073709551616)
    (huv : u / 256 = v / 256) (hwx : w / 256 = x / 256) (hzx : z / 256 = x' / 256)
    (hy : y / 256 = y' / 256) : u = v ∧ w = z := by
  have hd : -255 ≤ (u : Int) - v ∧ (u : Int) - v ≤ 255 := by
    clear hu hv hw hz hx hx' hwx hzx hy
    omega
  have he : -510 ≤ (w : Int) - z - (x - x') ∧ (w : Int) - z - (x - x') ≤ 510 := by
    clear hu hv hw hz hx hx' huv hd hy
    omega
  have hr : -255 ≤ (y : Int) - y' ∧ (y : Int) - y' ≤ 255 := by
    clear hu hv hw hz hx hx' huv hwx hzx hd he
    omega
  have hzero := no_cancellation (k := ((qu : Int) - qv) * 1099511628211 + (qw - qz)) hd he hr (by
    zify at hu hv hw hz
    linear_combination -1099511628211 * hu + 1099511628211 * hv - hw + hz)
  clear hd he hr hw hz huv hwx hzx hy
  omega

/-- Three bytes lead one state to one state in one way only. -/
theorem addByte_three_inj {hasher : Fnv1a64} {a b c a' b' c' : UInt8}
    (h : ((hasher.addByte a).addByte b).addByte c =
      ((hasher.addByte a').addByte b').addByte c') : a = a' ∧ b = b' ∧ c = c' := by
  have hlast := mul_prime_cancel (congrArg state h)
  have hblock := congrArg (fun x : UInt64 => x.toNat / 256) hlast
  simp only [xor_byte_block] at hblock
  have hu := xor_byte_block hasher.state a
  have hv := xor_byte_block hasher.state a'
  have hw := xor_byte_block (hasher.addByte a).state b
  have hz := xor_byte_block (hasher.addByte a').state b'
  obtain ⟨hfirst, hsecond⟩ := mixed_unique
    (x := (hasher.addByte a).state.toNat) (y := ((hasher.addByte a).addByte b).state.toNat)
    (mul_prime_div_mod _) (mul_prime_div_mod _) (mul_prime_div_mod _) (mul_prime_div_mod _)
    (UInt64.toNat_lt _) (UInt64.toNat_lt _) (hu.trans hv.symm) hw hz hblock
  obtain rfl := byte_of_xor (UInt64.toNat_inj.mp hfirst)
  obtain rfl := byte_of_xor (UInt64.toNat_inj.mp hsecond)
  exact ⟨rfl, rfl, byte_of_xor hlast⟩

/-- No more than three bytes lead one state to one state in one way only. -/
theorem add_short_inj {hasher : Fnv1a64} {window window' : Bytes}
    (hlength : window.length = window'.length) (hshort : window.length ≤ 3)
    (h : hasher.add window = hasher.add window') : window = window' := by
  let padding : Bytes := List.replicate (3 - window.length) 0
  have hpadded : hasher.add (window ++ padding) = hasher.add (window' ++ padding) := by
    rw [add_append, add_append, h]
  have hthree : (window ++ padding).length = 3 := by
    rw [List.length_append, List.length_replicate]
    omega
  have hthree' : (window' ++ padding).length = 3 := by
    rw [List.length_append, ← hlength, ← List.length_append]
    exact hthree
  obtain ⟨a, b, c, habc⟩ := List.length_eq_three.mp hthree
  obtain ⟨a', b', c', habc'⟩ := List.length_eq_three.mp hthree'
  rw [habc, habc'] at hpadded
  obtain ⟨rfl, rfl, rfl⟩ := addByte_three_inj hpadded
  exact List.append_cancel_right (habc.trans habc'.symm)

theorem of_ne_of_window {front window window' back : Bytes}
    (hlength : window.length = window'.length) (hshort : window.length ≤ 3)
    (hne : window ≠ window') :
    of (front ++ (window ++ back)) ≠ of (front ++ (window' ++ back)) := by
  intro h
  have hstate : init.add (front ++ (window ++ back)) = init.add (front ++ (window' ++ back)) :=
    congrArg Fnv1a64.mk h
  rw [add_append, add_append, add_append, add_append] at hstate
  exact hne (add_short_inj hlength hshort (add_state_cancel hstate))

end Fnv1a64

/-- Two byte strings that agree outside a window have a common front and a common back. -/
theorem window_split {bytes bytes' : Bytes} {start p count : Nat} (hstart : start ≤ p)
    (hsame : ∀ i, i < p ∨ p + count ≤ i → bytes[i]? = bytes'[i]?) :
    ∃ front back,
      bytes.drop start = front ++ (slice bytes p count ++ back) ∧
      bytes'.drop start = front ++ (slice bytes' p count ++ back) := by
  have hsplit : ∀ xs : Bytes, xs.drop start =
      (xs.drop start).take (p - start) ++ (slice xs p count ++ xs.drop (p + count)) := by
    intro xs
    have hdrop : xs.drop p = (xs.drop start).drop (p - start) := by
      rw [List.drop_drop, Nat.add_sub_cancel' hstart]
    rw [slice, ← List.drop_drop, List.take_append_drop, hdrop, List.take_append_drop]
  have hfront : (bytes.drop start).take (p - start) = (bytes'.drop start).take (p - start) := by
    refine List.ext_getElem? fun i => ?_
    by_cases hi : i < p - start
    · rw [List.getElem?_take_of_lt hi, List.getElem?_take_of_lt hi, List.getElem?_drop,
        List.getElem?_drop]
      exact hsame _ (.inl (by omega))
    · rw [List.getElem?_eq_none, List.getElem?_eq_none] <;> rw [List.length_take] <;> omega
  have hback : bytes.drop (p + count) = bytes'.drop (p + count) := by
    refine List.ext_getElem? fun i => ?_
    rw [List.getElem?_drop, List.getElem?_drop]
    exact hsame _ (.inr (Nat.le_add_right _ _))
  refine ⟨_, _, hsplit bytes, ?_⟩
  rw [hfront, hback]
  exact hsplit bytes'

/-- An accepted image whose payload is changed within three consecutive bytes has another
digest and is rejected. -/
theorem validate_detects_burst (img img' : Image) (haccepted : (validate img).result = .ok ())
    (hlength : img'.bytes.length = img.bytes.length) (p : Nat) (hp : sizeofHeader ≤ p)
    (hsame : ∀ i, i < p ∨ p + 3 ≤ i → img.bytes[i]? = img'.bytes[i]?)
    (hne : img.bytes ≠ img'.bytes) :
    Fnv1a64.of (img.bytes.drop sizeofHeader) ≠ Fnv1a64.of (img'.bytes.drop sizeofHeader) ∧
      ∃ error, (validate img').result = .error error := by
  obtain ⟨front, back, hsplit, hsplit'⟩ := window_split hp hsame
  have hheader : slice img.bytes 0 sizeofHeader = slice img'.bytes 0 sizeofHeader := by
    refine List.ext_getElem? fun i => ?_
    simp only [slice, List.drop_zero]
    by_cases hi : i < sizeofHeader
    · rw [List.getElem?_take_of_lt hi, List.getElem?_take_of_lt hi]
      exact hsame i (.inl (Nat.lt_of_lt_of_le hi hp))
    · rw [List.getElem?_eq_none, List.getElem?_eq_none] <;> rw [List.length_take] <;> omega
  have hwindow : slice img.bytes p 3 ≠ slice img'.bytes p 3 := by
    intro heq
    rw [heq, ← hsplit'] at hsplit
    refine hne ?_
    calc
      img.bytes = slice img.bytes 0 sizeofHeader ++ img.bytes.drop sizeofHeader :=
        (List.take_append_drop _ _).symm
      _ = slice img'.bytes 0 sizeofHeader ++ img'.bytes.drop sizeofHeader := by
        rw [hheader, hsplit]
      _ = img'.bytes := List.take_append_drop _ _
  have hdigest : Fnv1a64.of (img.bytes.drop sizeofHeader) ≠
      Fnv1a64.of (img'.bytes.drop sizeofHeader) := by
    rw [hsplit, hsplit']
    refine Fnv1a64.of_ne_of_window ?_ ?_ hwindow
    · rw [slice, slice, List.length_take, List.length_take, List.length_drop, List.length_drop,
        hlength]
    · rw [slice, List.length_take]
      exact Nat.min_le_left _ _
  refine ⟨hdigest, ?_⟩
  cases hresult : (validate img').result with
  | error error => exact ⟨error, rfl⟩
  | ok =>
      have ha := (validate_ok_iff img).mp haccepted
      have ha' := (validate_ok_iff img').mp hresult
      have hchecksum : img.header = img'.header := congrArg Header.decode hheader
      exact absurd (by rw [ha.checksum, ha'.checksum, hchecksum]) hdigest

section Flipped

def letterItems : List IndexItem := [⟨⟨[97], [98], 0, 1, 0, 1⟩, [0x3F800000]⟩]

def letterImage : Image :=
  ⟨indexImage (fun v => v.headD 0) letterItems 1, by decide +kernel⟩

theorem letterImage_accepted : (validate letterImage).result = .ok () := by
  have hw : Writable letterItems 1 := ⟨by decide, by decide, by decide, by decide⟩
  refine (validate_ok_iff letterImage).mpr ((accepts_written_iff hw rfl (by decide)).mpr ?_)
  intro item hitem
  cases List.mem_singleton.mp hitem
  exact ⟨by decide, by decide⟩

/-- The letter image with another letter as its text. -/
def flippedImage : Image :=
  ⟨letterImage.bytes.set 197 99, by rw [List.length_set]; exact letterImage.size_lt⟩

theorem validate_detects_burst_letter : ∃ error, (validate flippedImage).result = .error error :=
  (validate_detects_burst letterImage flippedImage letterImage_accepted List.length_set 197
    (by decide) (fun i hi => (List.getElem?_set_ne (by omega)).symm) (by decide +kernel)).2

end Flipped

end CppRag
