import CppRag.IndexFormat
import CppRag.Checked
import Mathlib.Tactic.Linarith

/-!
`MmapIndex::validate` and the accessors of an open index over an arbitrary mapped
byte image. Reads of the mapping and `u64` additions, subtractions and
multiplications are reported as accesses in the order the code performs them, with
its short-circuit evaluation; the operations themselves wrap as the code's do.

A reference to a header or record reads the whole struct it covers, which bounds
every field access made through it.
-/
namespace CppRag
open Observed Slice

/-- A mapped file: any bytes a 64-bit `size_t` can count. -/
structure Image where
  bytes : Bytes
  size_lt : bytes.length < 2 ^ 64

def Image.mappedSize (img : Image) : UInt64 := UInt64.ofNat img.bytes.length

theorem Image.toNat_mappedSize (img : Image) : img.mappedSize.toNat = img.bytes.length :=
  UInt64.toNat_ofNat_of_lt' img.size_lt

def load (img : Image) (offset size : Nat) : Checked Bytes := do
  report (.read offset size)
  pure (slice img.bytes offset size)

def header (img : Image) : Checked Header := do
  let bytes ← load img 0 sizeofHeader
  pure (Header.decode bytes)

def record (img : Image) (index : UInt64) : Checked Record := do
  let fileHeader ← header img
  let displacement ← mulU64 index 72
  let bytes ← load img (fileHeader.recordsOffset.toNat + displacement.toNat) sizeofRecord
  pure (Record.decode bytes)

def rangeValid (offset size limit : UInt64) : Checked Bool :=
  if offset ≤ limit then do
    let room ← subU64 limit offset
    pure (size ≤ room)
  else pure false

/-! The consecutive blocks of `MmapIndex::validate`. -/

def validateIdentity (h : Header) : Checked Unit := do
  failIf (h.magic ≠ kMagic) (.runtimeError "invalid index magic")
  if h.version ≠ kVersion then
    failIf (h.endianMarker = byteSwap32 kEndianMarker) (.runtimeError
      "index was written on a host with the opposite byte order; rebuild the index")
    fail (.runtimeError "unsupported index version; rebuild the index for CPPRAGIX v3")
  else if h.endianMarker ≠ kEndianMarker then
    failIf (h.endianMarker = byteSwap32 kEndianMarker) (.runtimeError
      "index was written on a host with the opposite byte order; rebuild the index")
    fail (.runtimeError "invalid index endianness marker")

def validateHeader (mappedSize : UInt64) (h : Header) : Checked Unit :=
  failIf (h.headerSize ≠ 96 || h.recordSize ≠ 72 || h.fileSize ≠ mappedSize ||
      h.dimensions = 0 || h.itemCount = 0 || h.checksumAlgorithm ≠ kChecksumFnv1a64 ||
      h.flags ≠ 0)
    (.runtimeError "invalid or unsupported index header")

def validateSections (h : Header) : Checked Unit := do
  failWhen (
    orElse (pure (h.recordsOffset < 96)) <|
    orElse (pure (h.recordsOffset > h.fileSize)) do
      let room ← subU64 h.fileSize h.recordsOffset
      let capacity ← divU64 room 72
      pure (h.itemCount > capacity))
    (.runtimeError "index record section is invalid")
  let recordBytes ← mulU64 h.itemCount 72
  let recordsEnd ← addU64 h.recordsOffset recordBytes
  failWhen (
    orElse (pure (h.vectorsOffset < recordsEnd)) <|
    orElse (pure (h.vectorsOffset > h.fileSize)) <|
    orElse (pure (h.vectorsOffset % 4 ≠ 0)) do
      let room ← subU64 h.fileSize h.vectorsOffset
      let floats ← divU64 room 4
      let capacity ← divU64 floats h.itemCount
      pure (h.dimensions.toUInt64 > capacity))
    (.runtimeError "index vector section is invalid")
  let floats ← mulU64 h.itemCount h.dimensions.toUInt64
  let vectorBytes ← mulU64 floats 4
  let vectorEnd ← addU64 h.vectorsOffset vectorBytes
  failIf (h.stringsOffset < vectorEnd || h.stringsOffset > h.fileSize)
    (.runtimeError "index string section is invalid")

def rangeInvalid (offset size limit : UInt64) : Checked Bool := do
  let valid ← rangeValid offset size limit
  pure (!valid)

def validateRecord (h : Header) (r : Record) : Checked Unit :=
  failWhen (
    orElse (rangeInvalid r.sourceOffset r.sourceSize h.fileSize) <|
    orElse (rangeInvalid r.textOffset r.textSize h.fileSize) <|
    orElse (pure (r.sourceOffset < h.stringsOffset)) <|
    orElse (do
      let sourceEnd ← addU64 r.sourceOffset r.sourceSize
      pure (r.textOffset < sourceEnd)) <|
    orElse (do
      let textEnd ← addU64 r.textOffset r.textSize
      pure (textEnd < r.textOffset)) <|
    pure (r.vectorIndex ≥ h.itemCount || r.byteBegin > r.byteEnd || r.scaleBytes = 0))
    (.runtimeError "index record is invalid")

def validateChecksum (img : Image) (h : Header) : Checked Unit := do
  let payloadSize ← subU64 img.mappedSize 96
  let payload ← load img sizeofHeader payloadSize.toNat
  failIf (Fnv1a64.of payload ≠ h.payloadChecksum) (.runtimeError
    "index payload checksum mismatch; the file is corrupt, rebuild the index")

def validate (img : Image) : Checked Unit := do
  failIf (img.mappedSize < 96) (.runtimeError "index header is truncated")
  let h ← header img
  validateIdentity h
  validateHeader img.mappedSize h
  validateSections h
  forRange h.itemCount.toNat fun i => do
    let r ← record img (UInt64.ofNat i)
    validateRecord h r
  validateChecksum img h

/-! An index object as its accessors see it: `data_`, null when it is not open. -/

structure MmapIndex where
  data : Option Image

namespace MmapIndex

def bytes (index : MmapIndex) : Checked Image :=
  match index.data with
  | none => fail (.logicError "index is not open")
  | some img => pure img

/-- The constructor's `validate()` of a successfully mapped file. -/
def openImage (img : Image) : Checked MmapIndex := do
  validate img
  pure ⟨some img⟩

def size (index : MmapIndex) : Checked UInt64 := do
  let img ← index.bytes
  let h ← header img
  pure h.itemCount

def dimensions (index : MmapIndex) : Checked UInt64 := do
  let img ← index.bytes
  let h ← header img
  pure h.dimensions.toUInt64

/-- The bounds check every per-item accessor starts with, and its record. -/
def item (index : MmapIndex) (i : UInt64) : Checked (Image × Record) := do
  let count ← index.size
  failIf (i ≥ count) (.outOfRange "index item out of range")
  let img ← index.bytes
  let r ← record img i
  pure (img, r)

def chunk (index : MmapIndex) (i : UInt64) : Checked Chunk := do
  let (img, r) ← index.item i
  let source ← load img r.sourceOffset.toNat r.sourceSize.toNat
  let text ← load img r.textOffset.toNat r.textSize.toNat
  pure ⟨source, text, r.byteBegin, r.byteEnd, r.scale, r.scaleBytes⟩

def embedding (index : MmapIndex) (i : UInt64) : Checked (List FloatBits) := do
  let (img, r) ← index.item i
  let h ← header img
  let dimensions ← index.dimensions
  let floats ← mulU64 r.vectorIndex dimensions
  let displacement ← mulU64 floats 4
  let offset ← addU64 h.vectorsOffset displacement
  let size ← index.dimensions
  let values ← load img offset.toNat (size.toNat * sizeofFloat)
  pure (decodeFloats size.toNat values)

def norm (index : MmapIndex) (i : UInt64) : Checked FloatBits := do
  let (_, r) ← index.item i
  pure r.norm

def scale (index : MmapIndex) (i : UInt64) : Checked UInt32 := do
  let (_, r) ← index.item i
  pure r.scale

def scaleBytes (index : MmapIndex) (i : UInt64) : Checked UInt32 := do
  let (_, r) ← index.item i
  pure r.scaleBytes

end MmapIndex

end CppRag
