import CppRag.Basic
import CppRag.Foundation.LittleEndian
import CppRag.Foundation.Slice
import Mathlib.Tactic.NormNum

/-!
The `CPPRAGIX` v3 layout: the 96-byte header, the 72-byte record, the payload
checksum and the alignment of sections. `encode` is what writing a struct through
a `char` pointer emits and `decode` what reading it through a cast pointer sees, on
the little-endian hosts the project targets.
-/
namespace CppRag
open Slice LittleEndian

def kMagic : Bytes := [67, 80, 80, 82, 65, 71, 73, 88]

def kVersion : UInt32 := 3

def kEndianMarker : UInt32 := 0x01020304

def kChecksumFnv1a64 : UInt32 := 1

def byteSwap32 (value : UInt32) : UInt32 :=
  ((value &&& 0x000000FF) <<< 24) ||| ((value &&& 0x0000FF00) <<< 8) |||
    ((value &&& 0x00FF0000) >>> 8) ||| ((value &&& 0xFF000000) >>> 24)

structure Header where
  magic : Bytes
  version : UInt32
  headerSize : UInt32
  endianMarker : UInt32
  recordSize : UInt32
  itemCount : UInt64
  dimensions : UInt32
  flags : UInt32
  recordsOffset : UInt64
  vectorsOffset : UInt64
  stringsOffset : UInt64
  fileSize : UInt64
  checksumAlgorithm : UInt32
  reserved : UInt32
  payloadChecksum : UInt64
  reserved2 : UInt64
  deriving DecidableEq, Repr

def sizeofHeader : Nat := 96

structure Record where
  sourceOffset : UInt64
  sourceSize : UInt64
  textOffset : UInt64
  textSize : UInt64
  byteBegin : UInt64
  byteEnd : UInt64
  vectorIndex : UInt64
  norm : FloatBits
  scale : UInt32
  scaleBytes : UInt32
  reserved : UInt32
  deriving DecidableEq, Repr

def sizeofRecord : Nat := 72

def sizeofFloat : Nat := 4

def Header.encode (h : Header) : Bytes :=
  h.magic ++ (encodeUInt32 h.version ++ (encodeUInt32 h.headerSize ++
    (encodeUInt32 h.endianMarker ++ (encodeUInt32 h.recordSize ++
    (encodeUInt64 h.itemCount ++ (encodeUInt32 h.dimensions ++ (encodeUInt32 h.flags ++
    (encodeUInt64 h.recordsOffset ++ (encodeUInt64 h.vectorsOffset ++
    (encodeUInt64 h.stringsOffset ++ (encodeUInt64 h.fileSize ++
    (encodeUInt32 h.checksumAlgorithm ++ (encodeUInt32 h.reserved ++
    (encodeUInt64 h.payloadChecksum ++ encodeUInt64 h.reserved2))))))))))))))

def Header.decode (bytes : Bytes) : Header where
  magic := slice bytes 0 8
  version := decodeUInt32 (slice bytes 8 4)
  headerSize := decodeUInt32 (slice bytes 12 4)
  endianMarker := decodeUInt32 (slice bytes 16 4)
  recordSize := decodeUInt32 (slice bytes 20 4)
  itemCount := decodeUInt64 (slice bytes 24 8)
  dimensions := decodeUInt32 (slice bytes 32 4)
  flags := decodeUInt32 (slice bytes 36 4)
  recordsOffset := decodeUInt64 (slice bytes 40 8)
  vectorsOffset := decodeUInt64 (slice bytes 48 8)
  stringsOffset := decodeUInt64 (slice bytes 56 8)
  fileSize := decodeUInt64 (slice bytes 64 8)
  checksumAlgorithm := decodeUInt32 (slice bytes 72 4)
  reserved := decodeUInt32 (slice bytes 76 4)
  payloadChecksum := decodeUInt64 (slice bytes 80 8)
  reserved2 := decodeUInt64 (slice bytes 88 8)

def Record.encode (r : Record) : Bytes :=
  encodeUInt64 r.sourceOffset ++ (encodeUInt64 r.sourceSize ++
    (encodeUInt64 r.textOffset ++ (encodeUInt64 r.textSize ++
    (encodeUInt64 r.byteBegin ++ (encodeUInt64 r.byteEnd ++
    (encodeUInt64 r.vectorIndex ++ (encodeUInt32 r.norm ++ (encodeUInt32 r.scale ++
    (encodeUInt32 r.scaleBytes ++ encodeUInt32 r.reserved)))))))))

def Record.decode (bytes : Bytes) : Record where
  sourceOffset := decodeUInt64 (slice bytes 0 8)
  sourceSize := decodeUInt64 (slice bytes 8 8)
  textOffset := decodeUInt64 (slice bytes 16 8)
  textSize := decodeUInt64 (slice bytes 24 8)
  byteBegin := decodeUInt64 (slice bytes 32 8)
  byteEnd := decodeUInt64 (slice bytes 40 8)
  vectorIndex := decodeUInt64 (slice bytes 48 8)
  norm := decodeUInt32 (slice bytes 56 4)
  scale := decodeUInt32 (slice bytes 60 4)
  scaleBytes := decodeUInt32 (slice bytes 64 4)
  reserved := decodeUInt32 (slice bytes 68 4)

/-- The bytes of a float array. -/
def encodeFloats (values : List FloatBits) : Bytes := values.flatMap encodeUInt32

/-- The `count` floats that start at the front of `bytes`. -/
def decodeFloats : Nat → Bytes → List FloatBits
  | 0, _ => []
  | count + 1, bytes =>
      decodeUInt32 (slice bytes 0 4) :: decodeFloats count (bytes.drop 4)

theorem Header.length_encode (h : Header) (hm : h.magic.length = 8) :
    h.encode.length = sizeofHeader := by
  simp [Header.encode, sizeofHeader, hm]

theorem Record.length_encode (r : Record) : r.encode.length = sizeofRecord := by
  simp [Record.encode, sizeofRecord]

theorem Header.decode_encode (h : Header) (hm : h.magic.length = 8) :
    Header.decode h.encode = h := by
  simp [Header.decode, Header.encode, slice_append_right, slice_append_left, slice_self, hm]

theorem Record.decode_encode (r : Record) : Record.decode r.encode = r := by
  simp [Record.decode, Record.encode, slice_append_right, slice_append_left, slice_self]

theorem length_encodeFloats (values : List FloatBits) :
    (encodeFloats values).length = values.length * sizeofFloat :=
  length_flatMap_const encodeUInt32 4 values (fun v _ => length_encodeUInt32 v)

theorem decodeFloats_encodeFloats (values : List FloatBits) (rest : Bytes) :
    decodeFloats values.length (encodeFloats values ++ rest) = values := by
  induction values with
  | nil => rfl
  | cons v values ih =>
      have hv : (encodeUInt32 v).length = 4 := length_encodeUInt32 v
      have hcons : encodeFloats (v :: values) ++ rest =
          encodeUInt32 v ++ (encodeFloats values ++ rest) := by
        simp [encodeFloats]
      have hdrop : (encodeUInt32 v ++ (encodeFloats values ++ rest)).drop 4 =
          encodeFloats values ++ rest := List.drop_left' hv
      rw [hcons, List.length_cons, decodeFloats, slice_append_left _ _ 4 hv,
        decodeUInt32_encodeUInt32, hdrop, ih]

theorem length_decodeFloats (count : Nat) (bytes : Bytes) :
    (decodeFloats count bytes).length = count := by
  induction count generalizing bytes with
  | zero => rfl
  | succ count ih => simp only [decodeFloats, List.length_cons, ih]

theorem decodeFloats_injective {count : Nat} {xs ys : Bytes} (hx : xs.length = count * 4)
    (hy : ys.length = count * 4) (h : decodeFloats count xs = decodeFloats count ys) :
    xs = ys := by
  induction count generalizing xs ys with
  | zero =>
      rw [Nat.zero_mul] at hx hy
      rw [List.length_eq_zero_iff.mp hx, List.length_eq_zero_iff.mp hy]
  | succ count ih =>
      obtain ⟨hfirst, hrest⟩ := List.cons.inj h
      have hfront : slice xs 0 4 = slice ys 0 4 :=
        decodeUInt32_injective (length_slice xs (by omega)) (length_slice ys (by omega)) hfirst
      have hback : xs.drop 4 = ys.drop 4 :=
        ih (by rw [List.length_drop]; omega) (by rw [List.length_drop]; omega) hrest
      calc
        xs = slice xs 0 4 ++ xs.drop 4 := (List.take_append_drop 4 xs).symm
        _ = slice ys 0 4 ++ ys.drop 4 := by rw [hfront, hback]
        _ = ys := List.take_append_drop 4 ys

/-! The payload checksum. -/

structure Fnv1a64 where
  state : UInt64
  deriving DecidableEq, Repr

def Fnv1a64.init : Fnv1a64 := ⟨14695981039346656037⟩

def Fnv1a64.addByte (hasher : Fnv1a64) (byte : UInt8) : Fnv1a64 :=
  ⟨(hasher.state ^^^ byte.toUInt64) * 1099511628211⟩

def Fnv1a64.add (hasher : Fnv1a64) (data : Bytes) : Fnv1a64 :=
  data.foldl Fnv1a64.addByte hasher

def Fnv1a64.value (hasher : Fnv1a64) : UInt64 := hasher.state

def Fnv1a64.of (data : Bytes) : UInt64 := (Fnv1a64.init.add data).value

/-- Hashing piece by piece is hashing the concatenation. -/
theorem Fnv1a64.add_append (hasher : Fnv1a64) (xs ys : Bytes) :
    hasher.add (xs ++ ys) = (hasher.add xs).add ys :=
  List.foldl_append

def alignUp (value alignment : UInt64) : UInt64 :=
  (value + alignment - 1) / alignment * alignment

end CppRag
