import CppRag.IndexSections
import CppRag.IndexSafety

/-!
Reading back what was written. The reader finds the writer's header, records,
vectors and strings where the writer put them, and its acceptance of the image comes
down to two conditions on every chunk: an ordered byte range and a non-zero recorded
scale size.
-/
namespace CppRag
open OutputStream Slice LittleEndian Observed

section ReadBack
variable {l2Norm : List FloatBits → FloatBits} {items : List IndexItem} {dimensions : Nat}
variable {img : Image}

theorem written_header (himg : img.bytes = indexImage l2Norm items dimensions) :
    img.header = sealedHeader l2Norm items dimensions := by
  have hlen : (sealedHeader l2Norm items dimensions).encode.length = sizeofHeader :=
    Header.length_encode _ rfl
  rw [Image.header, himg, indexImage, slice_append_left _ _ _ hlen, Header.decode_encode _ rfl]

/-- The section positions a written header holds. -/
structure HeaderLayout (items : List IndexItem) (dimensions : Nat) (h : Header) : Prop where
  count_eq : h.itemCount.toNat = items.length
  dimensions_eq : h.dimensions.toNat = dimensions
  records_eq : h.recordsOffset.toNat = 96
  vectors_eq : h.vectorsOffset.toNat = vectorsStart items.length
  strings_eq : h.stringsOffset.toNat = stringsStart items.length dimensions
  fileSize_eq : h.fileSize.toNat = totalSize items dimensions

theorem written_layout (hw : Writable items dimensions)
    (himg : img.bytes = indexImage l2Norm items dimensions)
    (hsize : totalSize items dimensions < 2 ^ 63) :
    HeaderLayout items dimensions img.header := by
  rw [written_header himg]
  exact
    { count_eq := count_toNat (records_lt hsize)
      dimensions_eq := @dimensions_toNat l2Norm items dimensions hw
      records_eq := rfl
      vectors_eq := @vectorsOffset_toNat l2Norm items dimensions (records_lt hsize)
      strings_eq := @stringsOffset_toNat l2Norm items dimensions hw hsize
      fileSize_eq := @fileSize_toNat l2Norm items dimensions hw hsize }

theorem written_payload (himg : img.bytes = indexImage l2Norm items dimensions) :
    img.bytes.drop sizeofHeader = payload l2Norm items dimensions := by
  rw [himg, indexImage]
  exact List.drop_left' (Header.length_encode _ rfl)

theorem written_record (himg : img.bytes = indexImage l2Norm items dimensions)
    (hsize : totalSize items dimensions < 2 ^ 63) {i : UInt64}
    (hi : i.toNat < (fileRecords l2Norm items dimensions).length) :
    img.record i = (fileRecords l2Norm items dimensions)[i.toNat] := by
  have hcount : (fileRecords l2Norm items dimensions).length = items.length := length_fileRecords
  have hle := records_le_vectorsStart items.length
  unfold totalSize stringsStart at hsize
  have hidx : (i * 72).toNat = i.toNat * 72 := by
    rw [toNat_mul_of_lt (by rw [toNat_72]; omega), toNat_72]
  have hoff : (sealedHeader l2Norm items dimensions).recordsOffset.toNat = 96 := rfl
  have hhead : (sealedHeader l2Norm items dimensions).encode.length = 96 :=
    Header.length_encode _ rfl
  rw [Image.record, written_header himg, himg, hoff, hidx, indexImage, payload,
    slice_append_right _ _ _ _ (by omega), hhead, Nat.add_sub_cancel_left, sizeofRecord,
    slice_flatMap_const Record.encode 72 _ (fun r _ => Record.length_encode r) _ hi,
    Record.decode_encode]

theorem written_recordFor (hw : Writable items dimensions)
    (himg : img.bytes = indexImage l2Norm items dimensions)
    (hsize : totalSize items dimensions < 2 ^ 63) {i : UInt64} (hi : i.toNat < items.length) :
    RecordFor l2Norm items[i.toNat] i.toNat
      (stringsStart items.length dimensions +
        ((items.take i.toNat).flatMap itemStrings).length) (img.record i) := by
  have hlen : items.length < 2 ^ 64 := by
    have hle := records_le_vectorsStart items.length
    unfold totalSize stringsStart at hsize
    omega
  have hwithin : i.toNat < (fileRecords l2Norm items dimensions).length := by
    rwa [length_fileRecords]
  have hrec := makeRecords_get l2Norm 0 _ items (strings_lt hw hsize)
    (by simpa using hlen) i.toNat hi hwithin
  have hzero : (0 : UInt64).toNat + i.toNat = i.toNat := Nat.zero_add _
  rw [stringsOffset_toNat hw hsize, hzero] at hrec
  rw [written_record himg hsize hwithin]
  exact hrec

theorem strings_before_le (i : Nat) (hi : i < items.length) :
    ((items.take i).flatMap itemStrings).length + (itemStrings items[i]).length ≤
      (items.flatMap itemStrings).length := by
  conv_rhs => rw [← List.take_append_drop i items, List.drop_eq_getElem_cons hi]
  simp only [List.flatMap_append, List.flatMap_cons, List.length_append]
  omega

/-- The string block of the image, from the strings of item `i` on. -/
theorem written_strings (hw : Writable items dimensions)
    (himg : img.bytes = indexImage l2Norm items dimensions)
    (hsize : totalSize items dimensions < 2 ^ 63) (i : Nat) (hi : i < items.length) :
    slice img.bytes (stringsStart items.length dimensions +
        ((items.take i).flatMap itemStrings).length) (itemStrings items[i]).length =
      itemStrings items[i] := by
  have hfront : (imageFront l2Norm items dimensions ++ items.flatMap itemFloats).length =
      stringsStart items.length dimensions := by
    rw [List.length_append, length_imageFront (records_lt hsize), length_vectorTable hw,
      stringsStart]
  rw [himg, indexImage_eq, ← List.append_assoc, slice_append_right _ _ _ _ (by omega), hfront,
    Nat.add_sub_cancel_left, ← List.append_nil (items.flatMap itemStrings)]
  exact slice_flatMap itemStrings items [] i hi

theorem written_source (hw : Writable items dimensions)
    (himg : img.bytes = indexImage l2Norm items dimensions)
    (hsize : totalSize items dimensions < 2 ^ 63) {i : UInt64} (hi : i.toNat < items.length) :
    slice img.bytes (img.record i).sourceOffset.toNat (img.record i).sourceSize.toNat =
      items[i.toNat].chunk.source := by
  have hrec := written_recordFor hw himg hsize hi
  have hstrings := written_strings hw himg hsize i.toNat hi
  have hinner : items[i.toNat].chunk.source =
      slice (itemStrings items[i.toNat]) 0 items[i.toNat].chunk.source.length := by
    rw [itemStrings, slice_append_left _ _ _ rfl]
  have hle : 0 + items[i.toNat].chunk.source.length ≤ (itemStrings items[i.toNat]).length := by
    rw [itemStrings, List.length_append]
    omega
  rw [hrec.sourceOffset, hrec.sourceSize]
  conv_rhs => rw [hinner, ← hstrings]
  rw [slice_slice _ _ _ _ _ hle, Nat.add_zero]

theorem written_text (hw : Writable items dimensions)
    (himg : img.bytes = indexImage l2Norm items dimensions)
    (hsize : totalSize items dimensions < 2 ^ 63) {i : UInt64} (hi : i.toNat < items.length) :
    slice img.bytes (img.record i).textOffset.toNat (img.record i).textSize.toNat =
      items[i.toNat].chunk.text := by
  have hrec := written_recordFor hw himg hsize hi
  have hstrings := written_strings hw himg hsize i.toNat hi
  have hinner : items[i.toNat].chunk.text = slice (itemStrings items[i.toNat])
      items[i.toNat].chunk.source.length items[i.toNat].chunk.text.length := by
    rw [itemStrings, slice_append_right _ _ _ _ (Nat.le_refl _), Nat.sub_self,
      slice_self _ _ rfl]
  have hle : items[i.toNat].chunk.source.length + items[i.toNat].chunk.text.length ≤
      (itemStrings items[i.toNat]).length := by
    rw [itemStrings, List.length_append]
  rw [hrec.textOffset, hrec.textSize]
  conv_rhs => rw [hinner, ← hstrings]
  rw [slice_slice _ _ _ _ _ hle]

theorem written_embedding (hw : Writable items dimensions)
    (himg : img.bytes = indexImage l2Norm items dimensions)
    (hsize : totalSize items dimensions < 2 ^ 63) {i : UInt64} (hi : i.toNat < items.length) :
    decodeFloats img.header.dimensions.toNat (slice img.bytes
      (img.header.vectorsOffset.toNat +
        (img.record i).vectorIndex.toNat * img.header.dimensions.toNat * 4)
      (img.header.dimensions.toNat * sizeofFloat)) = items[i.toNat].embedding := by
  have hlayout := written_layout hw himg hsize
  have hitem : ∀ item, item ∈ items → (itemFloats item).length = dimensions * 4 := by
    intro item hitem
    rw [itemFloats, length_encodeFloats, hw.uniform item hitem, sizeofFloat]
  have hlen : items[i.toNat].embedding.length = dimensions :=
    hw.uniform _ (List.getElem_mem hi)
  have hfront : (imageFront l2Norm items dimensions).length ≤ vectorsStart items.length +
      i.toNat * dimensions * 4 := by
    rw [length_imageFront (records_lt hsize)]
    exact Nat.le_add_right _ _
  rw [hlayout.dimensions_eq, hlayout.vectors_eq, (written_recordFor hw himg hsize hi).vectorIndex,
    himg, indexImage_eq, slice_append_right _ _ _ _ hfront,
    length_imageFront (records_lt hsize), Nat.add_sub_cancel_left, sizeofFloat, Nat.mul_assoc,
    slice_flatMap_const itemFloats (dimensions * 4) items hitem i.toNat hi, itemFloats,
    ← List.append_nil (encodeFloats _)]
  conv_lhs => rw [← hlen]
  exact decodeFloats_encodeFloats _ []

/-- What the reader demands of a chunk beyond what its layout already gives. -/
structure Recordable (chunk : Chunk) : Prop where
  range_le : chunk.byteBegin ≤ chunk.byteEnd
  scale_ne : recordScaleBytes chunk ≠ 0

theorem written_sections (hw : Writable items dimensions)
    (himg : img.bytes = indexImage l2Norm items dimensions)
    (hsize : totalSize items dimensions < 2 ^ 63) : SectionsOk img.header := by
  have hle := records_le_vectorsStart items.length
  obtain ⟨hn, hd, hr, hv, hs, hf⟩ := written_layout hw himg hsize
  exact
    { header_le := by rw [hr]
      records_le := by rw [hr, hn, hv]; exact hle
      vectors_aligned := by rw [hv, vectorsStart]; omega
      vectors_le := by rw [hv, hn, hd, hs, stringsStart]
      strings_le := by rw [hs, hf, totalSize]; exact Nat.le_add_right _ _ }

theorem written_headerOk (hw : Writable items dimensions)
    (himg : img.bytes = indexImage l2Norm items dimensions)
    (hsize : totalSize items dimensions < 2 ^ 63) :
    HeaderOk img.bytes.length img.header := by
  obtain ⟨hn, hd, _, _, _, hf⟩ := written_layout hw himg hsize
  have hpos := hw.dimensions_pos
  have hcount : 0 < items.length := List.length_pos_of_ne_nil hw.nonempty
  have hlen : img.bytes.length = totalSize items dimensions := by
    rw [himg, length_indexImage hw (records_lt hsize)]
  have hne {a : UInt64} (ha : 0 < a.toNat) : a ≠ 0 := fun hz => by simp [hz] at ha
  have hheader := written_header himg
  exact
    { magic := by rw [hheader]; rfl
      version := by rw [hheader]; rfl
      endianMarker := by rw [hheader]; rfl
      headerSize := by rw [hheader]; rfl
      recordSize := by rw [hheader]; rfl
      fileSize := by rw [hf, hlen]
      dimensions := fun hz => by simp [hz] at hd; omega
      itemCount := hne (by rw [hn]; exact hcount)
      checksumAlgorithm := by rw [hheader]; rfl
      flags := by rw [hheader]; rfl }

/-- The record of an item passes the reader's checks when its chunk can be recorded. -/
theorem written_recordOk_iff (hw : Writable items dimensions)
    (himg : img.bytes = indexImage l2Norm items dimensions)
    (hsize : totalSize items dimensions < 2 ^ 63) {i : UInt64} (hi : i.toNat < items.length) :
    RecordOk img.header (img.record i) ↔ Recordable items[i.toNat].chunk := by
  obtain ⟨hn, _, _, _, hs, hf⟩ := written_layout hw himg hsize
  have hrec := written_recordFor hw himg hsize hi
  constructor
  · intro hok
    refine ⟨?_, ?_⟩
    · rw [← hrec.byteBegin, ← hrec.byteEnd]
      exact le_of_toNat_le hok.range_le
    · rw [← hrec.scaleBytes]
      exact hok.scale_ne
  · intro hitem
    have hstrings := strings_before_le i.toNat hi
    rw [itemStrings, List.length_append] at hstrings
    exact
      { strings_le := by rw [hs, hrec.sourceOffset]; exact Nat.le_add_right _ _
        source_le := by rw [hrec.sourceOffset, hrec.sourceSize, hrec.textOffset]
        text_le := by rw [hrec.textOffset, hrec.textSize, hf, totalSize]; omega
        vector_lt := by rw [hrec.vectorIndex, hn]; exact hi
        range_le := by
          rw [hrec.byteBegin, hrec.byteEnd]
          exact UInt64.le_iff_toNat_le.mp hitem.range_le
        scale_ne := by rw [hrec.scaleBytes]; exact hitem.scale_ne }

/-- The reader accepts a written image exactly when every chunk is recordable. -/
theorem accepts_written_iff (hw : Writable items dimensions)
    (himg : img.bytes = indexImage l2Norm items dimensions)
    (hsize : totalSize items dimensions < 2 ^ 63) :
    Accepts img ↔ ∀ item, item ∈ items → Recordable item.chunk := by
  have hn := (written_layout hw himg hsize).count_eq
  constructor
  · intro ha item hitem
    obtain ⟨i, hi, rfl⟩ := List.getElem_of_mem hitem
    have hlt : i < 2 ^ 64 := by
      have hcount := img.header.itemCount.toNat_lt
      omega
    have hi' : (UInt64.ofNat i).toNat = i := UInt64.toNat_ofNat_of_lt' hlt
    have hok := ha.records (UInt64.ofNat i) (by rw [UInt64.lt_iff_toNat_lt, hi', hn]; exact hi)
    have hrecordable := (written_recordOk_iff hw himg hsize (by rw [hi']; exact hi)).mp hok
    simpa only [hi'] using hrecordable
  · intro hitems
    refine
      { size_le := ?_
        header := written_headerOk hw himg hsize
        sections := written_sections hw himg hsize
        records := ?_
        checksum := ?_ }
    · have hle := records_le_vectorsStart items.length
      rw [himg, length_indexImage hw (records_lt hsize), totalSize, stringsStart]
      omega
    · intro i hi
      have hi' : i.toNat < items.length := by
        rw [← hn]
        exact UInt64.lt_iff_toNat_lt.mp hi
      exact (written_recordOk_iff hw himg hsize hi').mpr (hitems _ (List.getElem_mem hi'))
    · rw [written_payload himg, written_header himg]
      rfl

theorem recordScaleBytes_toNat {chunk : Chunk} (h : chunk.text.length < 2 ^ 32) :
    (recordScaleBytes chunk).toNat =
      if chunk.scaleBytes = 0 then max 1 chunk.text.length else chunk.scaleBytes.toNat := by
  unfold recordScaleBytes
  split
  · exact UInt32.toNat_ofNat_of_lt' (by rw [UInt32.size]; omega)
  · rfl

theorem recordable_of_chunk {chunk : Chunk} (hrange : chunk.byteBegin ≤ chunk.byteEnd)
    (htext : chunk.text.length < 2 ^ 32) : Recordable chunk := by
  refine ⟨hrange, fun hz => ?_⟩
  have hzero := recordScaleBytes_toNat htext
  rw [hz] at hzero
  split at hzero
  · have h0 : (0 : UInt32).toNat = 0 := rfl
    omega
  · next hne => exact hne (UInt32.toNat_inj.mp hzero.symm)

theorem recordScaleBytes_of_ne {chunk : Chunk} (h : chunk.scaleBytes ≠ 0) :
    recordScaleBytes chunk = chunk.scaleBytes := if_neg h

/-! The items as the accessors return them. -/

theorem written_index (hw : Writable items dimensions)
    (himg : img.bytes = indexImage l2Norm items dimensions)
    (hsize : totalSize items dimensions < 2 ^ 63) {i : Nat} (hi : i < items.length) :
    (UInt64.ofNat i).toNat = i ∧ UInt64.ofNat i < img.header.itemCount := by
  have hcount := (written_layout hw himg hsize).count_eq
  have hlt := img.header.itemCount.toNat_lt
  have hi64 : (UInt64.ofNat i).toNat = i :=
    UInt64.toNat_ofNat_of_lt' (by rw [UInt64.size]; omega)
  refine ⟨hi64, ?_⟩
  rw [UInt64.lt_iff_toNat_lt, hi64, hcount]
  exact hi

theorem written_chunk (hw : Writable items dimensions)
    (himg : img.bytes = indexImage l2Norm items dimensions)
    (hsize : totalSize items dimensions < 2 ^ 63) (i : Nat) (hi : i < items.length) :
    (MmapIndex.chunk ⟨some img⟩ (UInt64.ofNat i)).result =
      .ok { items[i].chunk with scaleBytes := recordScaleBytes items[i].chunk } := by
  obtain ⟨hi64, hcount⟩ := written_index hw himg hsize hi
  have hi' : (UInt64.ofNat i).toNat < items.length := by rw [hi64]; exact hi
  have hrec := written_recordFor hw himg hsize hi'
  have hsource := written_source hw himg hsize hi'
  have htext := written_text hw himg hsize hi'
  simp only [hi64] at hrec hsource htext
  rw [MmapIndex.chunk_result hcount, hsource, htext, hrec.byteBegin, hrec.byteEnd, hrec.scale,
    hrec.scaleBytes]

theorem written_floats (hw : Writable items dimensions)
    (himg : img.bytes = indexImage l2Norm items dimensions)
    (hsize : totalSize items dimensions < 2 ^ 63) (ha : Accepts img) (i : Nat)
    (hi : i < items.length) :
    (MmapIndex.embedding ⟨some img⟩ (UInt64.ofNat i)).result = .ok items[i].embedding := by
  obtain ⟨hi64, hcount⟩ := written_index hw himg hsize hi
  have hi' : (UInt64.ofNat i).toNat < items.length := by rw [hi64]; exact hi
  have hfloats := written_embedding hw himg hsize hi'
  simp only [hi64] at hfloats
  rw [MmapIndex.embedding_result ha hcount, hfloats]

end ReadBack

/-- What is written opens, and every accessor returns what was given. -/
theorem index_roundtrip (l2Norm : List FloatBits → FloatBits) (items : List IndexItem)
    (dimensions : Nat) (hne : items ≠ []) (hpos : 0 < dimensions) (hlt : dimensions < 2 ^ 32)
    (huniform : ∀ item, item ∈ items → item.embedding.length = dimensions)
    (hchunks : ∀ item, item ∈ items →
      item.chunk.byteBegin ≤ item.chunk.byteEnd ∧ item.chunk.text.length < 2 ^ 32)
    (hsize : totalSize items dimensions < 2 ^ 63) :
    ∃ img : Image, writeBytes l2Norm items = .ok img.bytes ∧
      ∃ index, (MmapIndex.openImage img).result = .ok index ∧
        (∃ n, index.size.result = .ok n ∧ n.toNat = items.length) ∧
        (∃ d, index.dimensions.result = .ok d ∧ d.toNat = dimensions) ∧
        ∀ i (hi : i < items.length),
          (∃ c, (index.chunk (UInt64.ofNat i)).result = .ok c ∧
            c.source = items[i].chunk.source ∧ c.text = items[i].chunk.text ∧
            c.byteBegin = items[i].chunk.byteBegin ∧ c.byteEnd = items[i].chunk.byteEnd ∧
            c.scale = items[i].chunk.scale) ∧
          (∃ s, (index.scaleBytes (UInt64.ofNat i)).result = .ok s ∧
            s.toNat = if items[i].chunk.scaleBytes = 0 then max 1 items[i].chunk.text.length
              else items[i].chunk.scaleBytes.toNat) ∧
          (index.embedding (UInt64.ofNat i)).result = .ok items[i].embedding := by
  have hw : Writable items dimensions := ⟨hne, hpos, hlt, huniform⟩
  have hlen : (indexImage l2Norm items dimensions).length = _ :=
    length_indexImage hw (records_lt hsize)
  refine ⟨⟨indexImage l2Norm items dimensions, by rw [hlen]; omega⟩,
    (writeBytes_ok_iff l2Norm items _).mpr ⟨dimensions, hw, rfl⟩, ?_⟩
  generalize himg : (⟨indexImage l2Norm items dimensions, _⟩ : Image) = img
  have hbytes : img.bytes = indexImage l2Norm items dimensions := by rw [← himg]
  have ha : Accepts img := (accepts_written_iff hw hbytes hsize).mpr fun item hitem =>
    recordable_of_chunk (hchunks item hitem).1 (hchunks item hitem).2
  have hlayout := written_layout hw hbytes hsize
  refine ⟨⟨some img⟩, (MmapIndex.openImage_ok_iff img _).mpr ⟨ha, rfl⟩,
    ⟨_, MmapIndex.size_result img, hlayout.count_eq⟩,
    ⟨_, MmapIndex.dimensions_result img, ?_⟩, ?_⟩
  · rw [UInt32.toNat_toUInt64, hlayout.dimensions_eq]
  intro i hi
  obtain ⟨hi64, hcount⟩ := written_index hw hbytes hsize hi
  have hrec := written_recordFor hw hbytes hsize (by rw [hi64]; exact hi)
  simp only [hi64] at hrec
  refine ⟨⟨_, written_chunk hw hbytes hsize i hi, rfl, rfl, rfl, rfl, rfl⟩,
    ⟨_, MmapIndex.scaleBytes_result hcount, ?_⟩, written_floats hw hbytes hsize ha i hi⟩
  rw [hrec.scaleBytes]
  exact recordScaleBytes_toNat (hchunks _ (List.getElem_mem hi)).2

/-- The first item has an empty text and no recorded size of its scale, the second both. -/
def twoItems : List IndexItem :=
  [⟨⟨[97], [], 3, 3, 0, 0⟩, [0x3F800000, 0]⟩, ⟨⟨[98, 99], [100, 101], 4, 6, 1, 7⟩, [0, 0x40000000]⟩]

/-- The second item is read back behind the first. -/
theorem index_roundtrip_two :
    ∃ img : Image, writeBytes (fun _ => 0) twoItems = .ok img.bytes ∧
      ∃ index, (MmapIndex.openImage img).result = .ok index ∧
        (∃ n, index.size.result = .ok n ∧ n.toNat = 2) ∧
        (∃ c, (index.chunk 1).result = .ok c ∧ c.source = [98, 99] ∧ c.text = [100, 101] ∧
          c.byteBegin = 4 ∧ c.byteEnd = 6 ∧ c.scale = 1) ∧
        (∃ s, (index.scaleBytes 0).result = .ok s ∧ s.toNat = 1) ∧
        (∃ s, (index.scaleBytes 1).result = .ok s ∧ s.toNat = 7) ∧
        (index.embedding 0).result = .ok [0x3F800000, 0] ∧
        (index.embedding 1).result = .ok [0, 0x40000000] := by
  obtain ⟨img, hbytes, index, hopen, hn, -, hitems⟩ :=
    index_roundtrip (fun _ => 0) twoItems 2
      (by decide) (by decide) (by decide) (by decide) (by decide) (by decide)
  obtain ⟨-, hscale, hembedding⟩ := hitems 0 (by decide)
  obtain ⟨hchunk, hscale', hembedding'⟩ := hitems 1 (by decide)
  exact ⟨img, hbytes, index, hopen, hn, hchunk, hscale, hscale', hembedding, hembedding'⟩

end CppRag
