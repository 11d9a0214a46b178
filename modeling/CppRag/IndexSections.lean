import CppRag.IndexRecords

/-!
Below the limit of 2^63 bytes the header fields of a written image are the positions
its sections really have, and the sections fill the image.
-/
namespace CppRag
open OutputStream Slice

section Sections
variable {l2Norm : List FloatBits → FloatBits} {items : List IndexItem} {dimensions : Nat}

/-! The computed header. -/

theorem records_lt (hsize : totalSize items dimensions < 2 ^ 63) :
    96 + items.length * 72 < 2 ^ 63 := by
  have hle := records_le_vectorsStart items.length
  unfold totalSize stringsStart at hsize
  omega

theorem count_toNat (hrecords : 96 + items.length * 72 < 2 ^ 63) :
    (UInt64.ofNat items.length).toNat = items.length :=
  UInt64.toNat_ofNat_of_lt' (by rw [UInt64.size]; omega)

theorem recordsEnd_toNat (hrecords : 96 + items.length * 72 < 2 ^ 63) :
    ((96 : UInt64) + UInt64.ofNat items.length * 72).toNat = 96 + items.length * 72 := by
  have hn := count_toNat hrecords
  have h96 : (96 : UInt64).toNat = 96 := rfl
  have hmul : (UInt64.ofNat items.length * 72).toNat = items.length * 72 := by
    rw [toNat_mul_of_lt (by rw [hn, toNat_72]; omega), hn, toNat_72]
  rw [toNat_add_of_lt (by rw [h96, hmul]; omega), h96, hmul]

theorem vectorsOffset_toNat (hrecords : 96 + items.length * 72 < 2 ^ 63) :
    (fileHeader l2Norm items dimensions).vectorsOffset.toNat = vectorsStart items.length := by
  have hend := recordsEnd_toNat hrecords
  simp only [fileHeader]
  rw [alignUp_toNat (by rw [hend]; omega), hend, vectorsStart]

theorem stringsOffset_toNat (hw : Writable items dimensions)
    (hsize : totalSize items dimensions < 2 ^ 63) :
    (fileHeader l2Norm items dimensions).stringsOffset.toNat =
      stringsStart items.length dimensions := by
  have hn := count_toNat (records_lt hsize)
  have hv : (fileHeader l2Norm items dimensions).vectorsOffset.toNat = _ :=
    vectorsOffset_toNat (records_lt hsize)
  have hlt := hw.dimensions_lt
  unfold totalSize stringsStart at hsize
  have hd : (UInt64.ofNat dimensions).toNat = dimensions :=
    UInt64.toNat_ofNat_of_lt' (by rw [UInt64.size]; omega)
  have hfloats : (UInt64.ofNat items.length * UInt64.ofNat dimensions).toNat =
      items.length * dimensions := by
    rw [toNat_mul_of_lt (by rw [hn, hd]; omega), hn, hd]
  have hbytes : (UInt64.ofNat items.length * UInt64.ofNat dimensions * 4).toNat =
      items.length * dimensions * 4 := by
    rw [toNat_mul_of_lt (by rw [hfloats, toNat_4]; omega), hfloats, toNat_4]
  simp only [fileHeader] at hv ⊢
  rw [toNat_add_of_lt (by rw [hv, hbytes]; omega), hv, hbytes, stringsStart]

theorem strings_lt (hw : Writable items dimensions)
    (hsize : totalSize items dimensions < 2 ^ 63) :
    (fileHeader l2Norm items dimensions).stringsOffset.toNat +
      (items.flatMap itemStrings).length < 2 ^ 64 := by
  rw [stringsOffset_toNat hw hsize]
  unfold totalSize at hsize
  omega

theorem fileSize_toNat (hw : Writable items dimensions)
    (hsize : totalSize items dimensions < 2 ^ 63) :
    (fileHeader l2Norm items dimensions).fileSize.toNat = totalSize items dimensions := by
  have hcursor := makeRecords_cursor l2Norm 0 _ items (@strings_lt l2Norm _ _ hw hsize)
  rw [stringsOffset_toNat hw hsize] at hcursor
  rw [totalSize, ← hcursor]
  rfl

theorem dimensions_toNat (hw : Writable items dimensions) :
    (fileHeader l2Norm items dimensions).dimensions.toNat = dimensions :=
  UInt32.toNat_ofNat_of_lt' hw.dimensions_lt

/-! Where the sections lie. -/

theorem length_fileRecords :
    (fileRecords l2Norm items dimensions).length = items.length :=
  length_makeRecords l2Norm 0 _ items

theorem length_recordTable :
    ((fileRecords l2Norm items dimensions).flatMap Record.encode).length =
      items.length * 72 := by
  rw [length_flatMap_const Record.encode 72 _ (fun r _ => Record.length_encode r),
    length_fileRecords]

theorem length_vectorTable (hw : Writable items dimensions) :
    (items.flatMap itemFloats).length = items.length * dimensions * 4 := by
  have hitem : ∀ item, item ∈ items → (itemFloats item).length = dimensions * 4 := by
    intro item hitem
    rw [itemFloats, length_encodeFloats, hw.uniform item hitem, sizeofFloat]
  rw [length_flatMap_const itemFloats (dimensions * 4) items hitem, Nat.mul_assoc]

theorem paddingSize_eq (hrecords : 96 + items.length * 72 < 2 ^ 63) :
    paddingSize l2Norm items dimensions =
      vectorsStart items.length - (96 + items.length * 72) := by
  have hle := records_le_vectorsStart items.length
  have hv : (fileHeader l2Norm items dimensions).vectorsOffset.toNat = _ :=
    vectorsOffset_toNat hrecords
  have hend : ((fileHeader l2Norm items dimensions).recordsOffset +
      (fileHeader l2Norm items dimensions).itemCount * 72).toNat = 96 + items.length * 72 :=
    recordsEnd_toNat hrecords
  rw [paddingSize, toNat_sub_of_toNat_le (by rw [hv, hend]; exact hle), hv, hend]

/-- Everything before the vector table. -/
def imageFront (l2Norm : List FloatBits → FloatBits) (items : List IndexItem)
    (dimensions : Nat) : Bytes :=
  (sealedHeader l2Norm items dimensions).encode ++
    ((fileRecords l2Norm items dimensions).flatMap Record.encode ++
      List.replicate (paddingSize l2Norm items dimensions) 0)

theorem indexImage_eq : indexImage l2Norm items dimensions =
    imageFront l2Norm items dimensions ++
      (items.flatMap itemFloats ++ items.flatMap itemStrings) := by
  simp only [indexImage, payload, imageFront, List.append_assoc]

theorem length_imageFront (hrecords : 96 + items.length * 72 < 2 ^ 63) :
    (imageFront l2Norm items dimensions).length = vectorsStart items.length := by
  have hle := records_le_vectorsStart items.length
  rw [imageFront, List.length_append, List.length_append, List.length_replicate,
    Header.length_encode _ rfl, length_recordTable, paddingSize_eq hrecords, sizeofHeader]
  omega

theorem length_indexImage (hw : Writable items dimensions)
    (hrecords : 96 + items.length * 72 < 2 ^ 63) :
    (indexImage l2Norm items dimensions).length = totalSize items dimensions := by
  rw [indexImage_eq, List.length_append, List.length_append, length_imageFront hrecords,
    length_vectorTable hw, totalSize, stringsStart, Nat.add_assoc]

/-- An image below the limit has its computed size below the limit, since no offset of
its header can have wrapped. -/
theorem totalSize_lt (hw : Writable items dimensions)
    (himage : (indexImage l2Norm items dimensions).length < 2 ^ 63) :
    totalSize items dimensions < 2 ^ 63 := by
  have hrecords : 96 + items.length * 72 ≤ (indexImage l2Norm items dimensions).length := by
    rw [indexImage_eq, List.length_append, imageFront, List.length_append, List.length_append,
      Header.length_encode _ rfl, length_recordTable, sizeofHeader]
    omega
  rwa [length_indexImage hw (by omega)] at himage

end Sections

end CppRag
