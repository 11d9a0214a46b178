import CppRag.IndexRoundTrip

/-!
The zero bytes of a written image: the reserved word that ends a record, the padding after the
last one, and the vectors when every component is zero. A table read a little before or after
its place runs into them, so it reads the same there only if it is zero itself.
-/
namespace CppRag
open Slice LittleEndian

theorem encodeUInt32_zero : encodeUInt32 0 = List.replicate 4 0 := by decide

theorem eq_zero_of_encode {value : UInt32} (h : ∀ byte ∈ encodeUInt32 value, byte = 0) :
    value = 0 := by
  have hzeros : encodeUInt32 value = encodeUInt32 0 := by
    rw [encodeUInt32_zero]
    exact List.eq_replicate_iff.mpr ⟨length_encodeUInt32 value, h⟩
  rw [← decodeUInt32_encodeUInt32 value, hzeros, decodeUInt32_encodeUInt32]

/-- No component of any vector is other than positive zero. -/
def ZeroVectors (items : List IndexItem) : Prop :=
  ∀ item ∈ items, ∀ value ∈ item.embedding, value = 0

theorem zeroVectors_iff (items : List IndexItem) :
    ZeroVectors items ↔ ∀ byte ∈ items.flatMap itemFloats, byte = 0 := by
  constructor
  · intro h byte hbyte
    obtain ⟨item, hitem, hfloats⟩ := List.mem_flatMap.mp hbyte
    obtain ⟨value, hvalue, hmem⟩ := List.mem_flatMap.mp hfloats
    rw [h item hitem value hvalue, encodeUInt32_zero] at hmem
    exact List.eq_of_mem_replicate hmem
  · intro h item hitem value hvalue
    refine eq_zero_of_encode fun byte hbyte => h byte ?_
    exact List.mem_flatMap.mpr ⟨item, hitem, List.mem_flatMap.mpr ⟨value, hvalue, hbyte⟩⟩

theorem makeRecords_reserved (l2Norm : List FloatBits → FloatBits) (i cursor : UInt64)
    (items : List IndexItem) :
    ∀ r ∈ (makeRecords l2Norm i cursor items).1, r.reserved = 0 := by
  induction items generalizing i cursor with
  | nil =>
      intro r hr
      cases hr
  | cons item items ih =>
      intro r hr
      rcases List.mem_cons.mp hr with rfl | hr
      · rfl
      · exact ih _ _ r hr

theorem Image.record_sourceOffset (img : Image) (i : UInt64) : (img.record i).sourceOffset =
    decodeUInt64 (slice img.bytes (img.header.recordsOffset.toNat + (i * 72).toNat) 8) := by
  simp (disch := decide) only [Image.record, Record.decode, sizeofRecord, slice_slice, Nat.add_zero]

theorem Image.record_scaleBytes (img : Image) (i : UInt64) : (img.record i).scaleBytes =
    decodeUInt32 (slice img.bytes
      (img.header.recordsOffset.toNat + (i * 72).toNat + 64) 4) := by
  simp (disch := decide) only [Image.record, Record.decode, sizeofRecord, slice_slice]

theorem Image.record_reserved (img : Image) (i : UInt64) : (img.record i).reserved =
    decodeUInt32 (slice img.bytes
      (img.header.recordsOffset.toNat + (i * 72).toNat + 68) 4) := by
  simp (disch := decide) only [Image.record, Record.decode, sizeofRecord, slice_slice]

section Written
variable {l2Norm : List FloatBits → FloatBits} {items : List IndexItem} {dimensions : Nat}
variable {img : Image}

theorem written_padding (himg : img.bytes = indexImage l2Norm items dimensions)
    (hsize : totalSize items dimensions < 2 ^ 63) {x : Nat} (hx : 96 + items.length * 72 ≤ x)
    (hlt : x < vectorsStart items.length) : img.bytes[x]? = some 0 := by
  have hfront : (imageFront l2Norm items dimensions).length = _ :=
    length_imageFront (records_lt hsize)
  have hheader : (sealedHeader l2Norm items dimensions).encode.length = 96 :=
    Header.length_encode _ rfl
  have htable : ((fileRecords l2Norm items dimensions).flatMap Record.encode).length = _ :=
    length_recordTable
  rw [himg, indexImage_eq, List.getElem?_append_left (by rwa [hfront]), imageFront,
    List.getElem?_append_right (by omega), hheader, List.getElem?_append_right (by omega), htable,
    List.getElem?_replicate_of_lt]
  rw [paddingSize_eq (records_lt hsize)]
  omega

theorem written_length (hw : Writable items dimensions)
    (himg : img.bytes = indexImage l2Norm items dimensions)
    (hsize : totalSize items dimensions < 2 ^ 63) :
    img.bytes.length = totalSize items dimensions := by
  rw [himg, length_indexImage hw (records_lt hsize)]

/-- The reserved word of a record and the record's place. -/
theorem written_reserved (himg : img.bytes = indexImage l2Norm items dimensions)
    (hw : Writable items dimensions) (hsize : totalSize items dimensions < 2 ^ 63) {i : Nat}
    (hi : i < items.length) :
    slice img.bytes (96 + i * 72 + 68) 4 = List.replicate 4 0 := by
  obtain ⟨hi64, -⟩ := written_index hw himg hsize hi
  have hcount : (fileRecords l2Norm items dimensions).length = items.length := length_fileRecords
  have hrecord := written_record himg hsize
    (show (UInt64.ofNat i).toNat < (fileRecords l2Norm items dimensions).length by
      rw [hi64, hcount]; exact hi)
  have hzero : (img.record (UInt64.ofNat i)).reserved = 0 := by
    rw [hrecord]
    exact makeRecords_reserved _ _ _ _ _ (List.getElem_mem _)
  have hrecords := records_lt hsize
  have hfile := written_length hw himg hsize
  have hle := records_le_vectorsStart items.length
  have hdisplacement : (UInt64.ofNat i * 72).toNat = i * 72 := by
    rw [toNat_mul_of_lt (by rw [hi64, toNat_72]; omega), hi64, toNat_72]
  rw [Image.record_reserved, (written_layout hw himg hsize).records_eq, hdisplacement] at hzero
  refine decodeUInt32_injective (length_slice _ ?_) rfl (hzero.trans (by decide))
  rw [hfile, totalSize, stringsStart]
  omega

/-- From the reserved word of the last record up to the vectors. -/
theorem written_zeros (hw : Writable items dimensions)
    (himg : img.bytes = indexImage l2Norm items dimensions)
    (hsize : totalSize items dimensions < 2 ^ 63) {x : Nat}
    (hx : 96 + items.length * 72 ≤ x + 4) (hlt : x < vectorsStart items.length) :
    img.bytes[x]? = some 0 := by
  by_cases hpadding : 96 + items.length * 72 ≤ x
  · exact written_padding himg hsize hpadding hlt
  · have hpos : 0 < items.length := List.length_pos_iff.mpr hw.nonempty
    have hword := written_reserved himg hw hsize (Nat.sub_lt hpos Nat.one_pos)
    have hat := getElem?_slice img.bytes (96 + (items.length - 1) * 72 + 68)
      (show x + 4 - (96 + items.length * 72) < 4 by omega)
    rw [hword, List.getElem?_replicate_of_lt (by omega),
      show 96 + (items.length - 1) * 72 + 68 + (x + 4 - (96 + items.length * 72)) = x by omega] at hat
    exact hat.symm

theorem written_vectors (hw : Writable items dimensions)
    (himg : img.bytes = indexImage l2Norm items dimensions)
    (hsize : totalSize items dimensions < 2 ^ 63) :
    slice img.bytes (vectorsStart items.length) (items.length * dimensions * 4) =
      items.flatMap itemFloats := by
  have hfront : (imageFront l2Norm items dimensions).length = _ :=
    length_imageFront (records_lt hsize)
  rw [himg, indexImage_eq, slice_append_right _ _ _ _ (Nat.le_of_eq hfront), hfront, Nat.sub_self,
    slice_append_left _ _ _ (length_vectorTable hw)]

/-- The vectors are zero exactly when all bytes from the padding up to the strings are. -/
theorem zeroVectors_iff_zeros (hw : Writable items dimensions)
    (himg : img.bytes = indexImage l2Norm items dimensions)
    (hsize : totalSize items dimensions < 2 ^ 63) :
    ZeroVectors items ↔ ∀ x, 96 + items.length * 72 ≤ x →
      x < stringsStart items.length dimensions → img.bytes[x]? = some 0 := by
  have hvectors := written_vectors hw himg hsize
  have hlength : (items.flatMap itemFloats).length = _ := length_vectorTable hw
  rw [zeroVectors_iff]
  constructor
  · intro h x hx hlt
    by_cases hpadding : x < vectorsStart items.length
    · exact written_padding himg hsize hx hpadding
    · rw [stringsStart] at hlt
      have hat := getElem?_slice img.bytes (vectorsStart items.length)
        (show x - vectorsStart items.length < items.length * dimensions * 4 by omega)
      rw [hvectors, List.eq_replicate_iff.mpr ⟨hlength, h⟩,
        List.getElem?_replicate_of_lt (by omega), Nat.add_sub_cancel' (by omega)] at hat
      exact hat.symm
  · intro h byte hbyte
    obtain ⟨k, hk, rfl⟩ := List.getElem_of_mem hbyte
    have hle := records_le_vectorsStart items.length
    have hat := getElem?_slice img.bytes (vectorsStart items.length) (hlength ▸ hk)
    rw [hvectors, List.getElem?_eq_getElem hk,
      h _ (by omega) (by rw [stringsStart, ← hlength]; omega)] at hat
    exact Option.some.inj hat

/-! Tables read next to their places. -/

theorem last_displacement (hw : Writable items dimensions)
    (himg : img.bytes = indexImage l2Norm items dimensions)
    (hsize : totalSize items dimensions < 2 ^ 63) :
    (UInt64.ofNat (items.length - 1) * 72).toNat = (items.length - 1) * 72 := by
  have hpos : 0 < items.length := List.length_pos_iff.mpr hw.nonempty
  have hrecords := records_lt hsize
  obtain ⟨hlast, -⟩ := written_index hw himg hsize (Nat.sub_lt hpos Nat.one_pos)
  rw [toNat_mul_of_lt (by rw [hlast, toNat_72]; omega), hlast, toNat_72]

/-- The part of one vector in the table of all. -/
theorem vector_within {i count size : Nat} (hi : i < count) :
    i * size * 4 + size * 4 ≤ count * size * 4 := by
  have hle := Nat.mul_le_mul_right (size * 4) (Nat.succ_le_of_lt hi)
  rw [Nat.succ_mul, ← Nat.mul_assoc, ← Nat.mul_assoc] at hle
  exact hle

/-- Vectors read from the padding on are the same only if they are all zero. -/
theorem zeroVectors_of_shift (hw : Writable items dimensions)
    (himg : img.bytes = indexImage l2Norm items dimensions)
    (hsize : totalSize items dimensions < 2 ^ 63) {start : Nat}
    (hfit : 96 + items.length * 72 ≤ start) (hlt : start < vectorsStart items.length)
    (hvector : ∀ i, i < items.length →
      slice img.bytes (start + i * dimensions * 4) (dimensions * 4) =
        slice img.bytes (vectorsStart items.length + i * dimensions * 4) (dimensions * 4)) :
    ZeroVectors items := by
  have hzeros : ∀ x, start ≤ x → x < stringsStart items.length dimensions →
      img.bytes[x]? = some 0 := by
    refine const_of_shift_up (Nat.sub_pos_of_lt hlt) ?_ ?_
    · intro x hx hend
      have hdpos := hw.dimensions_pos
      rw [stringsStart] at hend
      -- position `x` is byte `k` of vector `i`
      have hsplit := Nat.div_add_mod (x - start) (dimensions * 4)
      have hk := Nat.mod_lt (x - start) (show 0 < dimensions * 4 by omega)
      have hi : (x - start) / (dimensions * 4) < items.length :=
        Nat.div_lt_of_lt_mul (by rw [Nat.mul_comm (dimensions * 4), ← Nat.mul_assoc]; omega)
      rw [Nat.mul_comm (dimensions * 4), ← Nat.mul_assoc] at hsplit
      have hat := congrArg (fun part => part[(x - start) % (dimensions * 4)]?) (hvector _ hi)
      simp only [getElem?_slice _ _ hk] at hat
      rw [show x + (vectorsStart items.length - start) = vectorsStart items.length +
          (x - start) / (dimensions * 4) * dimensions * 4 + (x - start) % (dimensions * 4) by omega,
        ← hat]
      congr 1
      omega
    · intro x hx hpadding
      exact written_padding himg hsize (by omega) (by omega)
  refine (zeroVectors_iff_zeros hw himg hsize).mpr fun x hx hend => ?_
  by_cases hbefore : x < start
  · exact written_padding himg hsize hx (by omega)
  · exact hzeros x (Nat.not_lt.mp hbefore) hend

/-- Zero vectors read the same from anywhere in the padding. -/
theorem same_vector_of_zero (hw : Writable items dimensions)
    (himg : img.bytes = indexImage l2Norm items dimensions)
    (hsize : totalSize items dimensions < 2 ^ 63) (hzero : ZeroVectors items) {start : Nat}
    (hfit : 96 + items.length * 72 ≤ start) (hlt : start < vectorsStart items.length) {i : Nat}
    (hi : i < items.length) :
    slice img.bytes (start + i * dimensions * 4) (dimensions * 4) =
      slice img.bytes (vectorsStart items.length + i * dimensions * 4) (dimensions * 4) := by
  have hzeros := (zeroVectors_iff_zeros hw himg hsize).mp hzero
  have hwithin := @vector_within i items.length dimensions hi
  refine slice_ext fun k hk => ?_
  rw [hzeros _ (by omega) (by rw [stringsStart]; omega),
    hzeros _ (by omega) (by rw [stringsStart]; omega)]

/-- The scale size of the last record, read later, is the same only if it is zero. -/
theorem last_scale_of_shift (hw : Writable items dimensions)
    (himg : img.bytes = indexImage l2Norm items dimensions)
    (hsize : totalSize items dimensions < 2 ^ 63) {start : Nat} (hlt : 96 < start)
    (hfit : start + items.length * 72 ≤ vectorsStart items.length)
    (hsame : slice img.bytes (start + (items.length - 1) * 72 + 64) 4 =
      slice img.bytes (96 + (items.length - 1) * 72 + 64) 4) :
    slice img.bytes (start + (items.length - 1) * 72 + 64) 4 = List.replicate 4 0 := by
  have hpos : 0 < items.length := List.length_pos_iff.mpr hw.nonempty
  have hzeros : ∀ x, 96 + (items.length - 1) * 72 + 64 ≤ x →
      x < start + (items.length - 1) * 72 + 68 → img.bytes[x]? = some 0 := by
    refine const_of_shift_down (Nat.sub_pos_of_lt hlt) ?_ ?_
    · intro x hx hlast
      have hat := congrArg (fun part => part[x - (96 + (items.length - 1) * 72 + 64)]?) hsame
      simp only [getElem?_slice img.bytes _
        (show x - (96 + (items.length - 1) * 72 + 64) < 4 by omega)] at hat
      rw [Nat.add_sub_cancel' hx] at hat
      rw [← hat]
      congr 1
      omega
    · intro x hx hlast
      exact written_zeros hw himg hsize (by omega) (by omega)
  exact slice_eq_replicate fun k hk => hzeros _ (by omega) (by omega)

/-- Read four bytes later or more, it is zero. -/
theorem last_scale_of_far (hw : Writable items dimensions)
    (himg : img.bytes = indexImage l2Norm items dimensions)
    (hsize : totalSize items dimensions < 2 ^ 63) {start : Nat} (hfar : 100 ≤ start)
    (hfit : start + items.length * 72 ≤ vectorsStart items.length) :
    slice img.bytes (start + (items.length - 1) * 72 + 64) 4 = List.replicate 4 0 := by
  have hpos : 0 < items.length := List.length_pos_iff.mpr hw.nonempty
  exact slice_eq_replicate fun k hk => written_zeros hw himg hsize (by omega) (by omega)

/-- The first source offset, read up to three bytes later, is before the strings or huge. -/
theorem first_offset_of_shift (hw : Writable items dimensions)
    (himg : img.bytes = indexImage l2Norm items dimensions)
    (hsize : totalSize items dimensions < 2 ^ 63) {start : Nat} (hlt : 96 < start)
    (hshort : start < 100) :
    (decodeUInt64 (slice img.bytes start 8)).toNat < stringsStart items.length dimensions ∨
      2 ^ 40 ≤ (decodeUInt64 (slice img.bytes start 8)).toNat := by
  have hpos : 0 < items.length := List.length_pos_iff.mpr hw.nonempty
  have hfile := written_length hw himg hsize
  have hle := records_le_vectorsStart items.length
  rw [totalSize, stringsStart] at hfile
  have hplace : (decodeUInt64 (slice img.bytes 96 8)).toNat =
      stringsStart items.length dimensions := by
    have hfirst := (written_recordFor hw himg hsize
      (show (0 : UInt64).toNat < items.length from hpos)).sourceOffset
    rwa [Image.record_sourceOffset, (written_layout hw himg hsize).records_eq,
      show ((0 : UInt64) * 72).toNat = 0 from rfl, show (0 : UInt64).toNat = 0 from rfl,
      List.take_zero, List.flatMap_nil, List.length_nil] at hfirst
  have hlength : (slice img.bytes 96 8).length = 8 := length_slice _ (by omega)
  have hshift := slice_shift img.bytes 96 (show start - 96 ≤ 8 by omega)
  rw [Nat.add_sub_cancel' (Nat.le_of_lt hlt)] at hshift
  rw [toNat_decodeUInt64 hlength] at hplace
  rw [toNat_decodeUInt64 (length_slice _ (by omega)), ← hplace, hshift]
  refine decode_shift hlength (Nat.sub_pos_of_lt hlt) (by omega) ?_ _
  rw [hplace, stringsStart]
  omega

end Written

end CppRag
