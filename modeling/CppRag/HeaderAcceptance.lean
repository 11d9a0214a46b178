import CppRag.HeaderChanges
import CppRag.IndexWritten

/-!
Which changes of one header field the reader accepts in a written image. Nine fields are
pinned by a comparison and the start of the strings by the first record; the two reserved words
are never read. The counts and the starts of the records and of the vectors are only bounded,
so a smaller count or a table read next to its place can pass every check.
-/
namespace CppRag

section Slips
variable (items : List IndexItem) (img img' : Image)

/-- Fewer items, all of which the reader takes. -/
structure FewerItems : Prop where
  count_ne : img'.header.itemCount ≠ 0
  count_lt : img'.header.itemCount < img.header.itemCount
  readable : ∀ item ∈ items.take img'.header.itemCount.toNat, Readable item.chunk

/-- Shorter vectors. -/
structure FewerDimensions : Prop where
  dimensions_ne : img'.header.dimensions ≠ 0
  dimensions_lt : img'.header.dimensions < img.header.dimensions
  readable : ∀ item ∈ items, Readable item.chunk

/-- Vectors that start in the padding, at a multiple of four. -/
structure EarlierVectors : Prop where
  after_records : img.header.recordsOffset.toNat + img.header.itemCount.toNat * 72 ≤
    img'.header.vectorsOffset.toNat
  start_lt : img'.header.vectorsOffset < img.header.vectorsOffset
  aligned : img'.header.vectorsOffset.toNat % 4 = 0
  readable : ∀ item ∈ items, Readable item.chunk

/-- Records that start later and still end before the vectors, each of which passes as one. -/
structure LaterRecords : Prop where
  start_lt : img.header.recordsOffset < img'.header.recordsOffset
  before_vectors : img'.header.recordsOffset.toNat + img.header.itemCount.toNat * 72 ≤
    img.header.vectorsOffset.toNat
  records : ∀ i, i < img.header.itemCount → RecordOk img.header (img'.record i)

variable {items img img'}

theorem FewerItems.ne (h : FewerItems items img img') :
    img'.header.itemCount ≠ img.header.itemCount :=
  fun hsame => UInt64.lt_irrefl _ (hsame ▸ h.count_lt)

theorem FewerDimensions.ne (h : FewerDimensions items img img') :
    img'.header.dimensions ≠ img.header.dimensions :=
  fun hsame => UInt32.lt_irrefl _ (hsame ▸ h.dimensions_lt)

theorem EarlierVectors.ne (h : EarlierVectors items img img') :
    img'.header.vectorsOffset ≠ img.header.vectorsOffset :=
  fun hsame => UInt64.lt_irrefl _ (hsame ▸ h.start_lt)

theorem LaterRecords.ne (h : LaterRecords img img') :
    img'.header.recordsOffset ≠ img.header.recordsOffset :=
  fun hsame => UInt64.lt_irrefl _ (hsame ▸ h.start_lt)

end Slips

/-- The fields compared with a constant, with the size of the mapping or with the digest of
what follows the header. -/
structure SamePinned (h h' : Header) : Prop where
  magic : h'.magic = h.magic
  version : h'.version = h.version
  headerSize : h'.headerSize = h.headerSize
  endianMarker : h'.endianMarker = h.endianMarker
  recordSize : h'.recordSize = h.recordSize
  flags : h'.flags = h.flags
  fileSize : h'.fileSize = h.fileSize
  checksumAlgorithm : h'.checksumAlgorithm = h.checksumAlgorithm
  payloadChecksum : h'.payloadChecksum = h.payloadChecksum

theorem samePinned_update (h : Header) (itemCount recordsOffset vectorsOffset : UInt64)
    (dimensions : UInt32) : SamePinned h
      { h with itemCount, dimensions, recordsOffset, vectorsOffset } :=
  ⟨rfl, rfl, rfl, rfl, rfl, rfl, rfl, rfl, rfl⟩

theorem recordOk_of_header {h h' : Header} {r : Record} (hok : RecordOk h r)
    (hstrings : h'.stringsOffset = h.stringsOffset) (hfile : h'.fileSize = h.fileSize)
    (hvector : r.vectorIndex.toNat < h'.itemCount.toNat) : RecordOk h' r :=
  { hok with
    strings_le := by rw [hstrings]; exact hok.strings_le
    text_le := by rw [hfile]; exact hok.text_le
    vector_lt := hvector }

section Altered
variable {l2Norm : List FloatBits → FloatBits} {items : List IndexItem} {dimensions : Nat}
variable {img img' : Image} {p : Nat} {v : UInt8}
variable (hw : Writable items dimensions)
variable (himg : img.bytes = indexImage l2Norm items dimensions)
variable (hsize : totalSize items dimensions < 2 ^ 63) (h : AlteredAt p v img img')

include himg in
theorem written_checksum :
    Fnv1a64.of (img.bytes.drop sizeofHeader) = img.header.payloadChecksum := by
  rw [written_payload himg, written_header himg]
  rfl

include hw himg hsize in
theorem written_size_le : sizeofHeader ≤ img.bytes.length := by
  have hle := records_le_vectorsStart items.length
  rw [himg, length_indexImage hw (records_lt hsize), totalSize, stringsStart, sizeofHeader]
  omega

include hw himg hsize h in
theorem Accepts.samePinned (ha : Accepts img') : SamePinned img.header img'.header := by
  have hok := written_headerOk hw himg hsize
  have hok' := ha.header
  have hchecksum := ha.checksum
  rw [h.payload_eq, written_checksum himg] at hchecksum
  exact
    { magic := hok'.magic.trans hok.magic.symm
      version := hok'.version.trans hok.version.symm
      headerSize := hok'.headerSize.trans hok.headerSize.symm
      endianMarker := hok'.endianMarker.trans hok.endianMarker.symm
      recordSize := hok'.recordSize.trans hok.recordSize.symm
      flags := hok'.flags.trans hok.flags.symm
      fileSize := UInt64.toNat_inj.mp (by rw [hok'.fileSize, hok.fileSize, h.length_eq])
      checksumAlgorithm := hok'.checksumAlgorithm.trans hok.checksumAlgorithm.symm
      payloadChecksum := hchecksum.symm }

include hw himg hsize h in
/-- The records of the altered image are those of the original while they start where they
did. -/
theorem altered_record (hrecords : img'.header.recordsOffset = img.header.recordsOffset)
    (i : UInt64) : img'.record i = img.record i := by
  rw [Image.record, Image.record, hrecords, h.slice_eq _ (by
    rw [(written_layout hw himg hsize).records_eq, sizeofHeader]
    omega)]

include hw himg hsize h in
theorem altered_recordOk_iff (hrecords : img'.header.recordsOffset = img.header.recordsOffset)
    (hstrings : img'.header.stringsOffset = img.header.stringsOffset)
    (hfile : img'.header.fileSize = img.header.fileSize) {i : UInt64}
    (hi : i.toNat < items.length) (hi' : i < img'.header.itemCount) :
    RecordOk img'.header (img'.record i) ↔ Readable items[i.toNat].chunk := by
  have hvector := (written_recordFor hw himg hsize hi).vectorIndex
  rw [altered_record hw himg hsize h hrecords, ← recordable_iff_readable,
    ← written_recordOk_iff hw himg hsize hi]
  constructor
  · intro hok
    refine recordOk_of_header hok hstrings.symm hfile.symm ?_
    rw [hvector, (written_layout hw himg hsize).count_eq]
    exact hi
  · intro hok
    refine recordOk_of_header hok hstrings hfile ?_
    rw [hvector]
    exact UInt64.lt_iff_toNat_lt.mp hi'

include hw himg hsize h in
/-- With the pinned fields as they were, acceptance is a matter of counts, sections and
records. -/
theorem altered_accepts (hpinned : SamePinned img.header img'.header)
    (hcount : img'.header.itemCount ≠ 0) (hdimensions : img'.header.dimensions ≠ 0)
    (hsections : SectionsOk img'.header)
    (hrecords : ∀ i, i < img'.header.itemCount → RecordOk img'.header (img'.record i)) :
    Accepts img' := by
  have hok := written_headerOk hw himg hsize
  exact
    { size_le := by
        rw [h.length_eq]
        exact written_size_le hw himg hsize
      header :=
        { magic := hpinned.magic.trans hok.magic
          version := hpinned.version.trans hok.version
          endianMarker := hpinned.endianMarker.trans hok.endianMarker
          headerSize := hpinned.headerSize.trans hok.headerSize
          recordSize := hpinned.recordSize.trans hok.recordSize
          fileSize := by rw [hpinned.fileSize, hok.fileSize, h.length_eq]
          dimensions := hdimensions
          itemCount := hcount
          checksumAlgorithm := hpinned.checksumAlgorithm.trans hok.checksumAlgorithm
          flags := hpinned.flags.trans hok.flags }
      sections := hsections
      records := hrecords
      checksum := by rw [h.payload_eq, written_checksum himg, hpinned.payloadChecksum] }

include hw himg hsize h in
theorem altered_records_iff (hrecords : img'.header.recordsOffset = img.header.recordsOffset)
    (hstrings : img'.header.stringsOffset = img.header.stringsOffset)
    (hfile : img'.header.fileSize = img.header.fileSize)
    (hle : img'.header.itemCount.toNat ≤ items.length) :
    (∀ i, i < img'.header.itemCount → RecordOk img'.header (img'.record i)) ↔
      ∀ item ∈ items.take img'.header.itemCount.toNat, Readable item.chunk := by
  constructor
  · intro hok item hitem
    obtain ⟨i, hi, rfl⟩ := List.mem_take_iff_getElem.mp hitem
    have hlt : i < items.length := by omega
    obtain ⟨hi64, -⟩ := written_index hw himg hsize hlt
    have hi' : UInt64.ofNat i < img'.header.itemCount := by
      rw [UInt64.lt_iff_toNat_lt, hi64]
      omega
    have hreadable := (altered_recordOk_iff hw himg hsize h hrecords hstrings hfile
      (by rw [hi64]; exact hlt) hi').mp (hok _ hi')
    simpa only [hi64] using hreadable
  · intro hreadable i hi
    have hlt := UInt64.lt_iff_toNat_lt.mp hi
    refine (altered_recordOk_iff hw himg hsize h hrecords hstrings hfile (by omega) hi).mpr
      (hreadable _ ?_)
    exact List.mem_take_iff_getElem.mpr ⟨i.toNat, by omega, rfl⟩

/-! The fields that are only bounded. -/

include hw himg hsize h in
theorem altered_allRecords_iff (hrecords : img'.header.recordsOffset = img.header.recordsOffset)
    (hstrings : img'.header.stringsOffset = img.header.stringsOffset)
    (hfile : img'.header.fileSize = img.header.fileSize)
    (hcount : img'.header.itemCount = img.header.itemCount) :
    (∀ i, i < img'.header.itemCount → RecordOk img'.header (img'.record i)) ↔
      ∀ item ∈ items, Readable item.chunk := by
  have hn := (written_layout hw himg hsize).count_eq
  have hiff := altered_records_iff hw himg hsize h hrecords hstrings hfile (by rw [hcount, hn])
  rwa [hcount, hn, List.take_length, ← hcount] at hiff

include hw himg hsize h in
theorem accepts_itemCount_iff {value : UInt64}
    (hh : img'.header = { img.header with itemCount := value })
    (hne : value ≠ img.header.itemCount) : Accepts img' ↔ FewerItems items img img' := by
  have hpinned : SamePinned img.header img'.header := by
    rw [hh]
    exact samePinned_update ..
  have hdims : img'.header.dimensions = img.header.dimensions := by rw [hh]
  have hrecords : img'.header.recordsOffset = img.header.recordsOffset := by rw [hh]
  have hvectors : img'.header.vectorsOffset = img.header.vectorsOffset := by rw [hh]
  have hstrings : img'.header.stringsOffset = img.header.stringsOffset := by rw [hh]
  have hcount : img'.header.itemCount = value := by rw [hh]
  obtain ⟨hn, hd, hr, hv, hs, hf⟩ := written_layout hw himg hsize
  constructor
  · intro ha
    have hfit := ha.sections.records_le
    rw [hrecords, hvectors, hr, hv, vectorsStart] at hfit
    have hle : img'.header.itemCount.toNat ≤ items.length := by omega
    have hnat : value.toNat ≠ img.header.itemCount.toNat :=
      fun hsame => hne (UInt64.toNat_inj.mp hsame)
    refine ⟨ha.header.itemCount, UInt64.lt_iff_toNat_lt.mpr ?_,
      (altered_records_iff hw himg hsize h hrecords hstrings hpinned.fileSize hle).mp ha.records⟩
    rw [hcount] at hle ⊢
    omega
  · rintro ⟨hpos, hlt, hreadable⟩
    have hlt' := UInt64.lt_iff_toNat_lt.mp hlt
    have hsections := written_sections hw himg hsize
    have hvectorBytes := hsections.vectors_le
    have hfloats : img'.header.itemCount.toNat * img.header.dimensions.toNat ≤
        img.header.itemCount.toNat * img.header.dimensions.toNat :=
      Nat.mul_le_mul_right _ (Nat.le_of_lt hlt')
    refine altered_accepts hw himg hsize h hpinned hpos ?_ ?_
      ((altered_records_iff hw himg hsize h hrecords hstrings hpinned.fileSize (by omega)).mpr
        hreadable)
    · rw [hdims]
      exact (written_headerOk hw himg hsize).dimensions
    · refine
        { header_le := by rw [hrecords]; exact hsections.header_le
          records_le := ?_
          vectors_aligned := by rw [hvectors]; exact hsections.vectors_aligned
          vectors_le := by rw [hvectors, hdims, hstrings]; omega
          strings_le := by rw [hstrings, hpinned.fileSize]; exact hsections.strings_le }
      have hfit := hsections.records_le
      rw [hrecords, hvectors]
      omega

include hw himg hsize h in
theorem accepts_dimensions_iff {value : UInt32}
    (hh : img'.header = { img.header with dimensions := value })
    (hne : value ≠ img.header.dimensions) : Accepts img' ↔ FewerDimensions items img img' := by
  have hpinned : SamePinned img.header img'.header := by
    rw [hh]
    exact samePinned_update ..
  have hrecords : img'.header.recordsOffset = img.header.recordsOffset := by rw [hh]
  have hvectors : img'.header.vectorsOffset = img.header.vectorsOffset := by rw [hh]
  have hstrings : img'.header.stringsOffset = img.header.stringsOffset := by rw [hh]
  have hcount : img'.header.itemCount = img.header.itemCount := by rw [hh]
  have hdims : img'.header.dimensions = value := by rw [hh]
  obtain ⟨hn, hd, hr, hv, hs, hf⟩ := written_layout hw himg hsize
  have hrecordsOk :=
    altered_allRecords_iff hw himg hsize h hrecords hstrings hpinned.fileSize hcount
  have hpos : 0 < items.length := List.length_pos_iff.mpr hw.nonempty
  constructor
  · intro ha
    have hfit := ha.sections.vectors_le
    rw [hvectors, hstrings, hcount, hn, hv, hs, stringsStart] at hfit
    have hle : img'.header.dimensions.toNat ≤ dimensions :=
      Nat.le_of_mul_le_mul_left (by omega) hpos
    have hnat : value.toNat ≠ img.header.dimensions.toNat :=
      fun hsame => hne (UInt32.toNat_inj.mp hsame)
    refine ⟨ha.header.dimensions, UInt32.lt_iff_toNat_lt.mpr ?_,
      hrecordsOk.mp ha.records⟩
    rw [hdims] at hle ⊢
    omega
  · rintro ⟨hsome, hlt, hreadable⟩
    have hlt' := UInt32.lt_iff_toNat_lt.mp hlt
    have hsections := written_sections hw himg hsize
    have hvectorBytes := hsections.vectors_le
    have hfloats : img.header.itemCount.toNat * img'.header.dimensions.toNat ≤
        img.header.itemCount.toNat * img.header.dimensions.toNat :=
      Nat.mul_le_mul_left _ (Nat.le_of_lt hlt')
    refine altered_accepts hw himg hsize h hpinned ?_ hsome ?_
      (hrecordsOk.mpr hreadable)
    · rw [hcount]
      exact (written_headerOk hw himg hsize).itemCount
    · exact
        { header_le := by rw [hrecords]; exact hsections.header_le
          records_le := by rw [hrecords, hvectors, hcount]; exact hsections.records_le
          vectors_aligned := by rw [hvectors]; exact hsections.vectors_aligned
          vectors_le := by rw [hvectors, hcount, hstrings]; omega
          strings_le := by rw [hstrings, hpinned.fileSize]; exact hsections.strings_le }

include hw himg hsize h in
theorem accepts_vectorsOffset_iff {value : UInt64}
    (hh : img'.header = { img.header with vectorsOffset := value })
    (hne : value ≠ img.header.vectorsOffset) : Accepts img' ↔ EarlierVectors items img img' := by
  have hpinned : SamePinned img.header img'.header := by
    rw [hh]
    exact samePinned_update ..
  have hdims : img'.header.dimensions = img.header.dimensions := by rw [hh]
  have hrecords : img'.header.recordsOffset = img.header.recordsOffset := by rw [hh]
  have hstrings : img'.header.stringsOffset = img.header.stringsOffset := by rw [hh]
  have hcount : img'.header.itemCount = img.header.itemCount := by rw [hh]
  have hvectors : img'.header.vectorsOffset = value := by rw [hh]
  obtain ⟨hn, hd, hr, hv, hs, hf⟩ := written_layout hw himg hsize
  have hrecordsOk :=
    altered_allRecords_iff hw himg hsize h hrecords hstrings hpinned.fileSize hcount
  constructor
  · intro ha
    have hfit := ha.sections.records_le
    have hfloats := ha.sections.vectors_le
    rw [hrecords, hcount] at hfit
    rw [hstrings, hcount, hdims, hn, hd, hs, stringsStart] at hfloats
    have hnat : value.toNat ≠ img.header.vectorsOffset.toNat :=
      fun hsame => hne (UInt64.toNat_inj.mp hsame)
    refine ⟨hfit, UInt64.lt_iff_toNat_lt.mpr ?_, ha.sections.vectors_aligned,
      hrecordsOk.mp ha.records⟩
    rw [hvectors] at hfloats ⊢
    omega
  · rintro ⟨hfit, hlt, haligned, hreadable⟩
    have hlt' := UInt64.lt_iff_toNat_lt.mp hlt
    have hsections := written_sections hw himg hsize
    have hvectorBytes := hsections.vectors_le
    refine altered_accepts hw himg hsize h hpinned ?_ ?_ ?_
      (hrecordsOk.mpr hreadable)
    · rw [hcount]
      exact (written_headerOk hw himg hsize).itemCount
    · rw [hdims]
      exact (written_headerOk hw himg hsize).dimensions
    · exact
        { header_le := by rw [hrecords]; exact hsections.header_le
          records_le := by rw [hrecords, hcount]; exact hfit
          vectors_aligned := haligned
          vectors_le := by rw [hcount, hdims, hstrings]; omega
          strings_le := by rw [hstrings, hpinned.fileSize]; exact hsections.strings_le }

include hw himg hsize h in
theorem accepts_recordsOffset_iff {value : UInt64}
    (hh : img'.header = { img.header with recordsOffset := value })
    (hne : value ≠ img.header.recordsOffset) : Accepts img' ↔ LaterRecords img img' := by
  have hpinned : SamePinned img.header img'.header := by
    rw [hh]
    exact samePinned_update ..
  have hdims : img'.header.dimensions = img.header.dimensions := by rw [hh]
  have hvectors : img'.header.vectorsOffset = img.header.vectorsOffset := by rw [hh]
  have hstrings : img'.header.stringsOffset = img.header.stringsOffset := by rw [hh]
  have hcount : img'.header.itemCount = img.header.itemCount := by rw [hh]
  have hrecords : img'.header.recordsOffset = value := by rw [hh]
  have hbound : ∀ r, RecordOk img.header r → r.vectorIndex.toNat < img'.header.itemCount.toNat :=
    fun r hok => by rw [hcount]; exact hok.vector_lt
  have hr := (written_layout hw himg hsize).records_eq
  constructor
  · intro ha
    have hheader := ha.sections.header_le
    have hfit := ha.sections.records_le
    rw [hcount, hvectors] at hfit
    have hnat : value.toNat ≠ img.header.recordsOffset.toNat :=
      fun hsame => hne (UInt64.toNat_inj.mp hsame)
    refine ⟨UInt64.lt_iff_toNat_lt.mpr ?_, hfit, fun i hi => ?_⟩
    · rw [hrecords] at hheader ⊢
      omega
    · have hok := ha.records i (by rwa [hcount])
      exact recordOk_of_header hok hstrings.symm hpinned.fileSize.symm
        (by rw [← hcount]; exact hok.vector_lt)
  · rintro ⟨hlt, hfit, hok⟩
    have hlt' := UInt64.lt_iff_toNat_lt.mp hlt
    have hsections := written_sections hw himg hsize
    refine altered_accepts hw himg hsize h hpinned ?_ ?_ ?_ ?_
    · rw [hcount]
      exact (written_headerOk hw himg hsize).itemCount
    · rw [hdims]
      exact (written_headerOk hw himg hsize).dimensions
    · exact
        { header_le := by omega
          records_le := by rw [hcount, hvectors]; exact hfit
          vectors_aligned := by rw [hvectors]; exact hsections.vectors_aligned
          vectors_le := by rw [hvectors, hcount, hdims, hstrings]; exact hsections.vectors_le
          strings_le := by rw [hstrings, hpinned.fileSize]; exact hsections.strings_le }
    · intro i hi
      have hrecord := hok i (by rwa [← hcount])
      exact recordOk_of_header hrecord hstrings hpinned.fileSize (hbound _ hrecord)

include hw himg hsize h in
/-- The strings cannot start later than the first source, nor before the vectors end. -/
theorem rejects_stringsOffset {value : UInt64}
    (hh : img'.header = { img.header with stringsOffset := value })
    (hne : value ≠ img.header.stringsOffset) : ¬Accepts img' := by
  intro ha
  have hdims : img'.header.dimensions = img.header.dimensions := by rw [hh]
  have hvectors : img'.header.vectorsOffset = img.header.vectorsOffset := by rw [hh]
  have hrecords : img'.header.recordsOffset = img.header.recordsOffset := by rw [hh]
  have hcount : img'.header.itemCount = img.header.itemCount := by rw [hh]
  have hstrings : img'.header.stringsOffset = value := by rw [hh]
  obtain ⟨hn, hd, hr, hv, hs, hf⟩ := written_layout hw himg hsize
  have hpos : 0 < items.length := List.length_pos_iff.mpr hw.nonempty
  have hfloats := ha.sections.vectors_le
  rw [hvectors, hcount, hdims, hn, hd, hv, hstrings] at hfloats
  have hfirst := (ha.records 0 (by rw [hcount, UInt64.lt_iff_toNat_lt, hn]; exact hpos)).strings_le
  rw [altered_record hw himg hsize h hrecords,
    (written_recordFor hw himg hsize (show (0 : UInt64).toNat < items.length from hpos)).sourceOffset,
    hstrings, show (0 : UInt64).toNat = 0 from rfl, List.take_zero, List.flatMap_nil,
    List.length_nil, stringsStart] at hfirst
  refine hne (UInt64.toNat_inj.mp ?_)
  rw [hs, stringsStart]
  omega

end Altered

end CppRag
