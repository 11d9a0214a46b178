import CppRag.IndexSafety

/-!
A header with one byte changed. Exactly one of its fields has another value, and everything
behind the header is as it was; an index gives the same answers when its records, its vectors
and its counts are the same.
-/
namespace CppRag
open Observed Slice LittleEndian

/-- One field has another value. -/
inductive HeaderChange (h : Header) : Header → Prop where
  | magic {value : Bytes} : value ≠ h.magic → HeaderChange h { h with magic := value }
  | version {value : UInt32} : value ≠ h.version → HeaderChange h { h with version := value }
  | headerSize {value : UInt32} :
      value ≠ h.headerSize → HeaderChange h { h with headerSize := value }
  | endianMarker {value : UInt32} :
      value ≠ h.endianMarker → HeaderChange h { h with endianMarker := value }
  | recordSize {value : UInt32} :
      value ≠ h.recordSize → HeaderChange h { h with recordSize := value }
  | itemCount {value : UInt64} :
      value ≠ h.itemCount → HeaderChange h { h with itemCount := value }
  | dimensions {value : UInt32} :
      value ≠ h.dimensions → HeaderChange h { h with dimensions := value }
  | flags {value : UInt32} : value ≠ h.flags → HeaderChange h { h with flags := value }
  | recordsOffset {value : UInt64} :
      value ≠ h.recordsOffset → HeaderChange h { h with recordsOffset := value }
  | vectorsOffset {value : UInt64} :
      value ≠ h.vectorsOffset → HeaderChange h { h with vectorsOffset := value }
  | stringsOffset {value : UInt64} :
      value ≠ h.stringsOffset → HeaderChange h { h with stringsOffset := value }
  | fileSize {value : UInt64} : value ≠ h.fileSize → HeaderChange h { h with fileSize := value }
  | checksumAlgorithm {value : UInt32} :
      value ≠ h.checksumAlgorithm → HeaderChange h { h with checksumAlgorithm := value }
  | reserved {value : UInt32} : value ≠ h.reserved → HeaderChange h { h with reserved := value }
  | payloadChecksum {value : UInt64} :
      value ≠ h.payloadChecksum → HeaderChange h { h with payloadChecksum := value }
  | reserved2 {value : UInt64} :
      value ≠ h.reserved2 → HeaderChange h { h with reserved2 := value }

/-- The fields cover the header, and no two of them share a byte. -/
theorem headerChange_of_set {bytes : Bytes} {p : Nat} {v : UInt8} (hlength : 96 ≤ bytes.length)
    (hp : p < 96) (hne : bytes[p]? ≠ some v) :
    HeaderChange (Header.decode bytes) (Header.decode (bytes.set p v)) := by
  have hpart : ∀ offset size, offset ≤ p → p < offset + size →
      slice (bytes.set p v) offset size ≠ slice bytes offset size :=
    fun offset size => slice_set_ne bytes (by omega) hne
  have hword : ∀ offset, offset ≤ p → p < offset + 4 → offset + 4 ≤ 96 →
      decodeUInt32 (slice (bytes.set p v) offset 4) ≠ decodeUInt32 (slice bytes offset 4) := by
    intro offset hoffset hwithin hend h
    refine hpart offset 4 hoffset hwithin (decodeUInt32_injective ?_ ?_ h)
    · exact length_slice _ (by rw [List.length_set]; omega)
    · exact length_slice _ (by omega)
  have hlong : ∀ offset, offset ≤ p → p < offset + 8 → offset + 8 ≤ 96 →
      decodeUInt64 (slice (bytes.set p v) offset 8) ≠ decodeUInt64 (slice bytes offset 8) := by
    intro offset hoffset hwithin hend h
    refine hpart offset 8 hoffset hwithin (decodeUInt64_injective ?_ ?_ h)
    · exact length_slice _ (by rw [List.length_set]; omega)
    · exact length_slice _ (by omega)
  have hfields : p < 8 ∨ (8 ≤ p ∧ p < 12) ∨ (12 ≤ p ∧ p < 16) ∨ (16 ≤ p ∧ p < 20) ∨
      (20 ≤ p ∧ p < 24) ∨ (24 ≤ p ∧ p < 32) ∨ (32 ≤ p ∧ p < 36) ∨ (36 ≤ p ∧ p < 40) ∨
      (40 ≤ p ∧ p < 48) ∨ (48 ≤ p ∧ p < 56) ∨ (56 ≤ p ∧ p < 64) ∨ (64 ≤ p ∧ p < 72) ∨
      (72 ≤ p ∧ p < 76) ∨ (76 ≤ p ∧ p < 80) ∨ (80 ≤ p ∧ p < 88) ∨ (88 ≤ p ∧ p < 96) := by
    omega
  rcases hfields with h | ⟨h, h'⟩ | ⟨h, h'⟩ | ⟨h, h'⟩ | ⟨h, h'⟩ | ⟨h, h'⟩ | ⟨h, h'⟩ | ⟨h, h'⟩ |
    ⟨h, h'⟩ | ⟨h, h'⟩ | ⟨h, h'⟩ | ⟨h, h'⟩ | ⟨h, h'⟩ | ⟨h, h'⟩ | ⟨h, h'⟩ | ⟨h, h'⟩ <;>
    simp (disch := omega) only [Header.decode, slice_set_other]
  · exact .magic (hpart 0 8 (Nat.zero_le p) h)
  · exact .version (hword 8 h h' (by decide))
  · exact .headerSize (hword 12 h h' (by decide))
  · exact .endianMarker (hword 16 h h' (by decide))
  · exact .recordSize (hword 20 h h' (by decide))
  · exact .itemCount (hlong 24 h h' (by decide))
  · exact .dimensions (hword 32 h h' (by decide))
  · exact .flags (hword 36 h h' (by decide))
  · exact .recordsOffset (hlong 40 h h' (by decide))
  · exact .vectorsOffset (hlong 48 h h' (by decide))
  · exact .stringsOffset (hlong 56 h h' (by decide))
  · exact .fileSize (hlong 64 h h' (by decide))
  · exact .checksumAlgorithm (hword 72 h h' (by decide))
  · exact .reserved (hword 76 h h' (by decide))
  · exact .payloadChecksum (hlong 80 h h' (by decide))
  · exact .reserved2 (hlong 88 h h' (by decide))

theorem Image.header_eq (img : Image) : img.header = Header.decode img.bytes := by
  simp (disch := decide) only [Image.header, Header.decode, sizeofHeader, slice_slice,
    Nat.zero_add]

/-- `img'` is `img` with another value in byte `p` of the header. -/
structure AlteredAt (p : Nat) (v : UInt8) (img img' : Image) : Prop where
  position_lt : p < sizeofHeader
  value_ne : img.bytes[p]? ≠ some v
  bytes_eq : img'.bytes = img.bytes.set p v

section Altered
variable {p : Nat} {v : UInt8} {img img' : Image} (h : AlteredAt p v img img')
include h

theorem AlteredAt.length_eq : img'.bytes.length = img.bytes.length := by
  rw [h.bytes_eq, List.length_set]

theorem AlteredAt.slice_eq {offset : Nat} (size : Nat) (hoffset : sizeofHeader ≤ offset) :
    slice img'.bytes offset size = slice img.bytes offset size := by
  rw [h.bytes_eq]
  exact slice_set_other _ _ (.inl (Nat.lt_of_lt_of_le h.position_lt hoffset))

theorem AlteredAt.payload_eq : img'.bytes.drop sizeofHeader = img.bytes.drop sizeofHeader := by
  rw [h.bytes_eq, List.drop_set_of_lt h.position_lt]

theorem AlteredAt.headerChange (hlength : sizeofHeader ≤ img.bytes.length) :
    HeaderChange img.header img'.header := by
  rw [img.header_eq, img'.header_eq, h.bytes_eq]
  exact headerChange_of_set hlength h.position_lt h.value_ne

end Altered

/-! The answers of an index. -/

structure SameAnswers (index index' : MmapIndex) : Prop where
  size : index'.size.result = index.size.result
  dimensions : index'.dimensions.result = index.dimensions.result
  chunk : ∀ i, (index'.chunk i).result = (index.chunk i).result
  embedding : ∀ i, (index'.embedding i).result = (index.embedding i).result
  norm : ∀ i, (index'.norm i).result = (index.norm i).result
  scale : ∀ i, (index'.scale i).result = (index.scale i).result
  scaleBytes : ∀ i, (index'.scaleBytes i).result = (index.scaleBytes i).result

theorem SameAnswers.itemCount_eq {img img' : Image} (h : SameAnswers ⟨some img⟩ ⟨some img'⟩) :
    img'.header.itemCount = img.header.itemCount := by
  have hsize := h.size
  rw [MmapIndex.size_result, MmapIndex.size_result] at hsize
  exact Except.ok.inj hsize

theorem SameAnswers.dimensions_eq {img img' : Image} (h : SameAnswers ⟨some img⟩ ⟨some img'⟩) :
    img'.header.dimensions = img.header.dimensions := by
  have hdimensions := h.dimensions
  rw [MmapIndex.dimensions_result, MmapIndex.dimensions_result] at hdimensions
  have hnat := congrArg UInt64.toNat (Except.ok.inj hdimensions)
  rw [UInt32.toNat_toUInt64, UInt32.toNat_toUInt64] at hnat
  exact UInt32.toNat_inj.mp hnat

/-- Beyond the last item both refuse, so only what follows the bounds check counts. -/
theorem MmapIndex.item_bind_congr {β : Type} {img img' : Image} {i : UInt64}
    {f f' : Image × Record → Checked β}
    (hcount : img'.header.itemCount = img.header.itemCount)
    (h : i < img.header.itemCount →
      (f' (img', img'.record i)).result = (f (img, img.record i)).result) :
    (MmapIndex.item ⟨some img'⟩ i >>= f').result = (MmapIndex.item ⟨some img⟩ i >>= f).result := by
  by_cases hi : i < img.header.itemCount
  · rw [bind_of_ok (MmapIndex.item_result hi),
      bind_of_ok (MmapIndex.item_result (by rwa [hcount])), h hi]
  · rw [bind_of_error (MmapIndex.item_error hi),
      bind_of_error (MmapIndex.item_error (by rwa [hcount]))]

/-- The vector of item `i`, in bytes. -/
def Image.vectorBytes (img : Image) (i : UInt64) : Bytes :=
  slice img.bytes (img.header.vectorsOffset.toNat +
      (img.record i).vectorIndex.toNat * img.header.dimensions.toNat * 4)
    (img.header.dimensions.toNat * sizeofFloat)

theorem Accepts.strings_after_header {img : Image} (ha : Accepts img) :
    sizeofHeader ≤ img.header.stringsOffset.toNat := by
  have hheader := ha.sections.header_le
  have hrecords := ha.sections.records_le
  have hvectors := ha.sections.vectors_le
  rw [sizeofHeader]
  omega

/-- Two accepted images with the same counts, records, vectors and payload. -/
theorem sameAnswers_of {img img' : Image} (ha : Accepts img) (ha' : Accepts img')
    (hcount : img'.header.itemCount = img.header.itemCount)
    (hdimensions : img'.header.dimensions = img.header.dimensions)
    (hpayload : ∀ offset size, sizeofHeader ≤ offset →
      slice img'.bytes offset size = slice img.bytes offset size)
    (hrecord : ∀ i, i < img.header.itemCount → img'.record i = img.record i)
    (hvector : ∀ i, i < img.header.itemCount → img'.vectorBytes i = img.vectorBytes i) :
    SameAnswers ⟨some img⟩ ⟨some img'⟩ where
  size := by rw [MmapIndex.size_result, MmapIndex.size_result, hcount]
  dimensions := by rw [MmapIndex.dimensions_result, MmapIndex.dimensions_result, hdimensions]
  chunk := by
    intro i
    refine MmapIndex.item_bind_congr hcount fun hi => ?_
    have hstrings := ha.strings_after_header
    have hsource := (ha.records i hi).strings_le
    have htext := (ha.records i hi).source_le
    rw [hrecord i hi]
    simp only [bind_of_ok ((load_ok_iff _ _ _ _).mpr rfl)]
    rw [hpayload _ _ (by omega), hpayload _ _ (by omega)]
  embedding := by
    intro i
    refine MmapIndex.item_bind_congr hcount fun hi => ?_
    have hi' : i < img'.header.itemCount := by rwa [hcount]
    have hresult := MmapIndex.embedding_result ha hi
    have hresult' := MmapIndex.embedding_result ha' hi'
    have hsame := hvector i hi
    rw [Image.vectorBytes, Image.vectorBytes] at hsame
    rw [MmapIndex.embedding, bind_of_ok (MmapIndex.item_result hi)] at hresult
    rw [MmapIndex.embedding, bind_of_ok (MmapIndex.item_result hi'), hsame, hdimensions] at hresult'
    exact hresult'.trans hresult.symm
  norm := fun i => MmapIndex.item_bind_congr hcount fun hi => by rw [hrecord i hi]
  scale := fun i => MmapIndex.item_bind_congr hcount fun hi => by rw [hrecord i hi]
  scaleBytes := fun i => MmapIndex.item_bind_congr hcount fun hi => by rw [hrecord i hi]

end CppRag
