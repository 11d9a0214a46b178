import CppRag.IndexFormat
import CppRag.Foundation.OutputStream
import Mathlib.Data.List.TakeDrop

/-!
`MmapIndex::write` up to the bytes it streams to its output file: the input checks,
the layout of sections from computed offsets, the records with their running string
cursor, and the stream operations with the checksum hashed piece by piece. Offsets
are `u64` and wrap as the code's do.

`l2Norm` stands for the square root of a double sum of squares, rounded to `float`.
-/
namespace CppRag
open OutputStream

/-- The checks made before anything is written; the result is the vector length. -/
def checkItems : List IndexItem → Except Exception Nat
  | [] => .error (.invalidArgument "cannot write an empty index")
  | front :: items =>
      let dimensions := front.embedding.length
      if dimensions = 0 ∨ dimensions > UInt32.size - 1 then
        .error (.invalidArgument "invalid embedding dimensions")
      else if (front :: items).any (fun item => item.embedding.length ≠ dimensions) then
        .error (.invalidArgument "all embeddings must have equal dimensions")
      else .ok dimensions

/-- The `scale_bytes` field of a chunk's record, with its narrowing cast. -/
def recordScaleBytes (chunk : Chunk) : UInt32 :=
  if chunk.scaleBytes = 0 then UInt32.ofNat (max 1 chunk.text.length) else chunk.scaleBytes

section Write
variable (l2Norm : List FloatBits → FloatBits)

/-- The record loop from item number `i` and string cursor `cursor` on: the records
and the cursor after the last string. -/
def makeRecords (i cursor : UInt64) : List IndexItem → List Record × UInt64
  | [] => ([], cursor)
  | item :: items =>
      let sourceSize := UInt64.ofNat item.chunk.source.length
      let textOffset := cursor + sourceSize
      let textSize := UInt64.ofNat item.chunk.text.length
      let itemRecord : Record :=
        { sourceOffset := cursor
          sourceSize := sourceSize
          textOffset := textOffset
          textSize := textSize
          byteBegin := item.chunk.byteBegin
          byteEnd := item.chunk.byteEnd
          vectorIndex := i
          norm := l2Norm item.embedding
          scale := item.chunk.scale
          scaleBytes := recordScaleBytes item.chunk
          reserved := 0 }
      let rest := makeRecords (i + 1) (textOffset + textSize) items
      (itemRecord :: rest.1, rest.2)

/-- The header before the checksum is known. -/
def fileHeader (items : List IndexItem) (dimensions : Nat) : Header :=
  let itemCount := UInt64.ofNat items.length
  let recordsOffset : UInt64 := 96
  let vectorsOffset := alignUp (recordsOffset + itemCount * 72) 64
  let vectorBytes := itemCount * UInt64.ofNat dimensions * 4
  let stringsOffset := vectorsOffset + vectorBytes
  { magic := kMagic
    version := kVersion
    headerSize := 96
    endianMarker := kEndianMarker
    recordSize := 72
    itemCount := itemCount
    dimensions := UInt32.ofNat dimensions
    flags := 0
    recordsOffset := recordsOffset
    vectorsOffset := vectorsOffset
    stringsOffset := stringsOffset
    fileSize := (makeRecords l2Norm 0 stringsOffset items).2
    checksumAlgorithm := kChecksumFnv1a64
    reserved := 0
    payloadChecksum := 0
    reserved2 := 0 }

/-- The output stream so far and the running digest. -/
structure Emitter where
  ops : List StreamOp
  hasher : Fnv1a64

def Emitter.emit (e : Emitter) (data : Bytes) : Emitter :=
  ⟨e.ops ++ [.write data], e.hasher.add data⟩

def Emitter.writePadding (e : Emitter) (bytes : Nat) : Emitter :=
  if 0 < bytes then
    let count := min bytes 64
    (e.emit (List.replicate count 0)).writePadding (bytes - count)
  else e
termination_by bytes

/-- The payload, section by section. -/
def Emitter.writePayload (e : Emitter) (items : List IndexItem) (h : Header) : Emitter :=
  let records := (makeRecords l2Norm 0 h.stringsOffset items).1
  let e := e.emit (records.flatMap Record.encode)
  let e := e.writePadding (h.vectorsOffset - (h.recordsOffset + h.itemCount * 72)).toNat
  let e := items.foldl (fun e item => e.emit (encodeFloats item.embedding)) e
  items.foldl (fun e item => (e.emit item.chunk.source).emit item.chunk.text) e

/-- Every operation on the temporary file between its creation and its close. -/
def writeOps (items : List IndexItem) (dimensions : Nat) : List StreamOp :=
  let h := fileHeader l2Norm items dimensions
  let e := Emitter.writePayload l2Norm ⟨[.write h.encode], Fnv1a64.init⟩ items h
  e.ops ++ [.seekp 0, .write { h with payloadChecksum := e.hasher.value }.encode]

/-- The bytes `write` leaves in the file when nothing fails. -/
def writeBytes (items : List IndexItem) : Except Exception Bytes := do
  let dimensions ← checkItems items
  pure (File.empty.run (writeOps l2Norm items dimensions)).contents

end Write

end CppRag
