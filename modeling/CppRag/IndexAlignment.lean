import CppRag.IndexSafety

/-!
Typed accesses through the mapping. The mapping starts at a page, so an access is aligned
when its offset is; the section checks align the vectors but not the records.
-/
namespace CppRag
open Observed Slice

/-- The offset that `record` casts to `const Record*`. -/
def recordOffset (img : Image) (i : UInt64) : Nat :=
  img.header.recordsOffset.toNat + (i * 72).toNat

/-- The offset that `embedding` casts to `const float*`. -/
def embeddingOffset (img : Image) (i : UInt64) : Nat :=
  (img.header.vectorsOffset +
    (img.record i).vectorIndex * img.header.dimensions.toUInt64 * 4).toNat

def alignofRecord : Nat := 8

def alignofFloat : Nat := 4

theorem record_events (img : Image) (i : UInt64) : (record img i).events =
    [.read 0 sizeofHeader, .mul i 72, .read (recordOffset img i) sizeofRecord] := rfl

theorem embedding_last_event {img : Image} {i : UInt64} (hi : i < img.header.itemCount) :
    (MmapIndex.embedding ⟨some img⟩ i).events.getLast? = some (.read (embeddingOffset img i)
      (img.header.dimensions.toUInt64.toNat * sizeofFloat)) := by
  have hitem := MmapIndex.item_result hi
  simp only [MmapIndex.embedding, bind, hitem]
  rw [List.getLast?_append]
  rfl

/-- Every typed access of an item is aligned for its type. -/
def AlignedAccesses (img : Image) : Prop :=
  ∀ i, i < img.header.itemCount →
    recordOffset img i % alignofRecord = 0 ∧ embeddingOffset img i % alignofFloat = 0

section Accepted
variable {img : Image} (ha : Accepts img)
include ha

theorem recordOffset_eq {i : UInt64} (hi : i < img.header.itemCount) :
    recordOffset img i = img.header.recordsOffset.toNat + 72 * i.toNat := by
  have hi' := UInt64.lt_iff_toNat_lt.mp hi
  have hrecords := ha.sections.records_le
  have hvectors := img.header.vectorsOffset.toNat_lt
  rw [recordOffset, toNat_mul_of_lt (by rw [toNat_72]; omega), toNat_72, Nat.mul_comm]

theorem embeddingOffset_eq {i : UInt64} (hi : i < img.header.itemCount) :
    embeddingOffset img i = img.header.vectorsOffset.toNat +
      (img.record i).vectorIndex.toNat * img.header.dimensions.toNat * 4 := by
  have hrange := MmapIndex.embedding_range ha hi
  have hstrings := img.header.stringsOffset.toNat_lt
  have hfloats : ((img.record i).vectorIndex * img.header.dimensions.toUInt64).toNat =
      (img.record i).vectorIndex.toNat * img.header.dimensions.toNat := by
    rw [toNat_mul_of_lt (by rw [UInt32.toNat_toUInt64]; omega), UInt32.toNat_toUInt64]
  have hbytes : ((img.record i).vectorIndex * img.header.dimensions.toUInt64 * 4).toNat =
      (img.record i).vectorIndex.toNat * img.header.dimensions.toNat * 4 := by
    rw [toNat_mul_of_lt (by rw [hfloats, toNat_4]; omega), hfloats, toNat_4]
  rw [embeddingOffset, toNat_add_of_lt (by rw [hbytes]; omega), hbytes]

theorem embeddingOffset_aligned {i : UInt64} (hi : i < img.header.itemCount) :
    embeddingOffset img i % alignofFloat = 0 := by
  have hvectors := ha.sections.vectors_aligned
  rw [embeddingOffset_eq ha hi, alignofFloat]
  omega

theorem recordOffset_aligned_iff {i : UInt64} (hi : i < img.header.itemCount) :
    recordOffset img i % alignofRecord = 0 ↔
      img.header.recordsOffset.toNat % alignofRecord = 0 := by
  rw [recordOffset_eq ha hi, alignofRecord]
  omega

end Accepted

/-- On an accepted image the float accesses are always aligned, and all accesses are exactly
when the records start at a multiple of eight. -/
theorem aligned_accesses_iff (img : Image) (haccepted : (validate img).result = .ok ()) :
    (∀ i, i < img.header.itemCount → embeddingOffset img i % alignofFloat = 0) ∧
      (AlignedAccesses img ↔ img.header.recordsOffset.toNat % alignofRecord = 0) := by
  have ha := (validate_ok_iff img).mp haccepted
  refine ⟨fun i hi => embeddingOffset_aligned ha hi, ?_, ?_⟩
  · intro h
    have hcount := ha.header.itemCount
    have hfirst : 0 < img.header.itemCount :=
      UInt64.lt_iff_toNat_lt.mpr (toNat_pos_of_ne_zero hcount)
    exact (recordOffset_aligned_iff ha hfirst).mp (h 0 hfirst).1
  · intro h i hi
    exact ⟨(recordOffset_aligned_iff ha hi).mpr h, embeddingOffset_aligned ha hi⟩

/-- An index of one item without texts, its records `gap` bytes after the header. -/
def gapPayload (gap : Nat) : Bytes :=
  List.replicate gap 0 ++
    (Record.encode ⟨UInt64.ofNat (172 + gap), 0, UInt64.ofNat (172 + gap), 0, 0, 0, 0, 0, 0, 1, 0⟩ ++
      encodeFloats [0])

def gapBytes (gap : Nat) : Bytes :=
  Header.encode ⟨kMagic, kVersion, 96, kEndianMarker, 72, 1, 1, 0, UInt64.ofNat (96 + gap),
    UInt64.ofNat (168 + gap), UInt64.ofNat (172 + gap), UInt64.ofNat (172 + gap),
    kChecksumFnv1a64, 0, Fnv1a64.of (gapPayload gap), 0⟩ ++ gapPayload gap

def packedImage : Image := ⟨gapBytes 0, by decide +kernel⟩

theorem packedImage_accepted : (validate packedImage).result = .ok () := by decide +kernel

theorem aligned_accesses_packed : AlignedAccesses packedImage :=
  (aligned_accesses_iff packedImage packedImage_accepted).2.mpr (by decide +kernel)

def gapImage : Image := ⟨gapBytes 4, by decide +kernel⟩

/-- Records four bytes after the header are accepted, and none of them is aligned. -/
theorem records_misaligned : (validate gapImage).result = .ok () ∧
    recordOffset gapImage 0 = 100 ∧ ¬AlignedAccesses gapImage := by
  have hoffset : recordOffset gapImage 0 = 100 := by decide +kernel
  refine ⟨by decide +kernel, hoffset, fun h => ?_⟩
  have haligned := (h 0 (by decide +kernel)).1
  rw [hoffset] at haligned
  exact absurd haligned (by decide)

end CppRag
