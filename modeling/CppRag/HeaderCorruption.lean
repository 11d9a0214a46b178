import CppRag.HeaderAcceptance
import CppRag.IndexPadding

/-!
One byte of a written header changed. What an accepted image answers then: as before while
only unread words or the place of zero vectors changed, otherwise with fewer items, shorter
vectors, or tables read next to their places.
-/
namespace CppRag
open Observed Slice LittleEndian

/-- The changes that pass all checks and are served. -/
def HeaderSlips (items : List IndexItem) (img img' : Image) : Prop :=
  FewerItems items img img' ∨ FewerDimensions items img img' ∨
    (EarlierVectors items img img' ∧ ¬ZeroVectors items) ∨ LaterRecords img img'

/-- The fields that are only bounded by others. -/
structure SameBounds (h h' : Header) : Prop where
  itemCount : h'.itemCount = h.itemCount
  dimensions : h'.dimensions = h.dimensions
  vectorsOffset : h'.vectorsOffset = h.vectorsOffset
  recordsOffset : h'.recordsOffset = h.recordsOffset

theorem not_headerSlips {items : List IndexItem} {img img' : Image}
    (h : SameBounds img.header img'.header) : ¬HeaderSlips items img img' := by
  rintro (hfewer | hfewer | ⟨hearlier, -⟩ | hlater)
  · exact hfewer.ne h.itemCount
  · exact hfewer.ne h.dimensions
  · exact hearlier.ne h.vectorsOffset
  · exact hlater.ne h.recordsOffset

section Altered
variable {l2Norm : List FloatBits → FloatBits} {items : List IndexItem} {dimensions : Nat}
variable {img img' : Image} {p : Nat} {v : UInt8}
variable (hw : Writable items dimensions)
variable (himg : img.bytes = indexImage l2Norm items dimensions)
variable (hsize : totalSize items dimensions < 2 ^ 63) (h : AlteredAt p v img img')

/-! What the accepted ones answer. -/

include hw himg hsize in
theorem written_accepts (hreadable : ∀ item ∈ items, Readable item.chunk) : Accepts img :=
  (accepts_written_iff hw himg hsize).mpr fun item hitem =>
    (recordable_iff_readable item.chunk).mpr (hreadable item hitem)

include hw himg hsize h in
theorem altered_vectorBytes (hrecords : img'.header.recordsOffset = img.header.recordsOffset)
    (hdims : img'.header.dimensions = img.header.dimensions)
    (hafter : sizeofHeader ≤ img'.header.vectorsOffset.toNat) {i : UInt64}
    (hi : i.toNat < items.length) :
    img'.vectorBytes i = slice img.bytes
      (img'.header.vectorsOffset.toNat + i.toNat * dimensions * 4) (dimensions * 4) := by
  rw [Image.vectorBytes, altered_record hw himg hsize h hrecords, hdims,
    (written_layout hw himg hsize).dimensions_eq, (written_recordFor hw himg hsize hi).vectorIndex,
    h.slice_eq _ (by omega), sizeofFloat]

include hw himg hsize in
theorem written_vectorBytes {i : UInt64} (hi : i.toNat < items.length) :
    img.vectorBytes i = slice img.bytes
      (vectorsStart items.length + i.toNat * dimensions * 4) (dimensions * 4) := by
  have hlayout := written_layout hw himg hsize
  rw [Image.vectorBytes, hlayout.dimensions_eq, hlayout.vectors_eq,
    (written_recordFor hw himg hsize hi).vectorIndex, sizeofFloat]

include hw himg hsize h in
/-- The vectors of the altered image and of the original, as parts of the original's bytes. -/
theorem moved_vectors {value : UInt64}
    (hh : img'.header = { img.header with vectorsOffset := value })
    (hafter : sizeofHeader ≤ img'.header.vectorsOffset.toNat) (i : UInt64)
    (hi : i.toNat < items.length) :
    img'.vectorBytes i = slice img.bytes
        (img'.header.vectorsOffset.toNat + i.toNat * dimensions * 4) (dimensions * 4) ∧
      img.vectorBytes i = slice img.bytes
        (vectorsStart items.length + i.toNat * dimensions * 4) (dimensions * 4) :=
  ⟨altered_vectorBytes hw himg hsize h (by rw [hh]) (by rw [hh]) hafter hi,
    written_vectorBytes hw himg hsize hi⟩

include hw himg hsize in
/-- Earlier vectors start after the records and before the place they were written at. -/
theorem EarlierVectors.bounds (hearlier : EarlierVectors items img img') :
    96 + items.length * 72 ≤ img'.header.vectorsOffset.toNat ∧
      img'.header.vectorsOffset.toNat < vectorsStart items.length := by
  obtain ⟨hn, -, hr, hv, -, -⟩ := written_layout hw himg hsize
  have hfit := hearlier.after_records
  have hlt := UInt64.lt_iff_toNat_lt.mp hearlier.start_lt
  rw [hr, hn] at hfit
  rw [hv] at hlt
  exact ⟨hfit, hlt⟩

include hw himg hsize in
/-- Later records start after the header and end before the vectors. -/
theorem LaterRecords.bounds (hlater : LaterRecords img img') :
    96 < img'.header.recordsOffset.toNat ∧
      img'.header.recordsOffset.toNat + items.length * 72 ≤ vectorsStart items.length := by
  obtain ⟨hn, -, hr, hv, -, -⟩ := written_layout hw himg hsize
  have hlt := UInt64.lt_iff_toNat_lt.mp hlater.start_lt
  have hfit := hlater.before_vectors
  rw [hr] at hlt
  rw [hn, hv] at hfit
  exact ⟨hlt, hfit⟩

include hw himg hsize h in
theorem zeroVectors_of_same {value : UInt64}
    (hh : img'.header = { img.header with vectorsOffset := value })
    (hearlier : EarlierVectors items img img') (ha : Accepts img) (ha' : Accepts img')
    (hsame : SameAnswers ⟨some img⟩ ⟨some img'⟩) : ZeroVectors items := by
  have hdims : img'.header.dimensions = img.header.dimensions := by rw [hh]
  have hcount : img'.header.itemCount = img.header.itemCount := by rw [hh]
  obtain ⟨hn, hd, hr, hv, hs, hf⟩ := written_layout hw himg hsize
  obtain ⟨hfit, hstart⟩ := hearlier.bounds hw himg hsize
  have hfile := written_length hw himg hsize
  refine zeroVectors_of_shift hw himg hsize hfit hstart fun i hi => ?_
  obtain ⟨hi64, hi'⟩ := written_index hw himg hsize hi
  have hwithin := @vector_within i items.length dimensions hi
  obtain ⟨hmoved, hplaced⟩ := moved_vectors hw himg hsize h hh (by rw [sizeofHeader]; omega)
    (UInt64.ofNat i) (by rw [hi64]; exact hi)
  have hresult := hsame.embedding (UInt64.ofNat i)
  rw [MmapIndex.embedding_result ha hi',
    MmapIndex.embedding_result ha' (by rwa [hcount])] at hresult
  have hfloats : decodeFloats dimensions (img'.vectorBytes (UInt64.ofNat i)) =
      decodeFloats dimensions (img.vectorBytes (UInt64.ofNat i)) := by
    rw [Image.vectorBytes, Image.vectorBytes, hdims, hd]
    rw [hdims, hd] at hresult
    exact Except.ok.inj hresult
  rw [hmoved, hplaced, hi64] at hfloats
  refine decodeFloats_injective (length_slice _ ?_) (length_slice _ ?_) hfloats
  · rw [hfile, totalSize, stringsStart]
    omega
  · rw [hfile, totalSize, stringsStart]
    omega

include hw himg hsize h in
theorem same_of_zeroVectors {value : UInt64}
    (hh : img'.header = { img.header with vectorsOffset := value })
    (hearlier : EarlierVectors items img img') (ha : Accepts img) (ha' : Accepts img')
    (hzero : ZeroVectors items) : SameAnswers ⟨some img⟩ ⟨some img'⟩ := by
  have hdims : img'.header.dimensions = img.header.dimensions := by rw [hh]
  have hrecords : img'.header.recordsOffset = img.header.recordsOffset := by rw [hh]
  have hcount : img'.header.itemCount = img.header.itemCount := by rw [hh]
  obtain ⟨hn, hd, hr, hv, hs, hf⟩ := written_layout hw himg hsize
  obtain ⟨hfit, hstart⟩ := hearlier.bounds hw himg hsize
  refine sameAnswers_of ha ha' hcount hdims (fun _ size hoffset => h.slice_eq size hoffset)
    (fun i _ => altered_record hw himg hsize h hrecords i) fun i hi => ?_
  have hi' : i.toNat < items.length := by
    rw [← hn]
    exact UInt64.lt_iff_toNat_lt.mp hi
  obtain ⟨hmoved, hplaced⟩ := moved_vectors hw himg hsize h hh (by rw [sizeofHeader]; omega) i hi'
  rw [hmoved, hplaced, same_vector_of_zero hw himg hsize hzero hfit hstart hi']

include hw himg hsize h in
/-- The scale size of the last record, as the altered image reads it. -/
theorem later_scale (hlater : LaterRecords img img') :
    (img'.record (UInt64.ofNat (items.length - 1))).scaleBytes = decodeUInt32 (slice img.bytes
      (img'.header.recordsOffset.toNat + (items.length - 1) * 72 + 64) 4) := by
  have hr := (written_layout hw himg hsize).records_eq
  have hlt := UInt64.lt_iff_toNat_lt.mp hlater.start_lt
  rw [Image.record_scaleBytes, h.slice_eq _ (by rw [sizeofHeader]; omega),
    last_displacement hw himg hsize]

include hw himg hsize h in
/-- The last record, read later, ends in zeros: its scale size is another one, or zero. -/
theorem laterRecords_differ (hlater : LaterRecords img img')
    (hcount : img'.header.itemCount = img.header.itemCount) :
    ¬SameAnswers ⟨some img⟩ ⟨some img'⟩ := by
  intro hsame
  obtain ⟨hn, hd, hr, hv, hs, hf⟩ := written_layout hw himg hsize
  have hplace := later_scale hw himg hsize h hlater
  have hok := hlater.records
  obtain ⟨hstart, hfit⟩ := hlater.bounds hw himg hsize
  have hpos : 0 < items.length := List.length_pos_iff.mpr hw.nonempty
  have hfile := written_length hw himg hsize
  rw [totalSize, stringsStart] at hfile
  obtain ⟨-, hlast⟩ := written_index hw himg hsize (Nat.sub_lt hpos Nat.one_pos)
  have hscale := hsame.scaleBytes (UInt64.ofNat (items.length - 1))
  rw [MmapIndex.scaleBytes_result hlast, MmapIndex.scaleBytes_result (by rwa [hcount]), hplace,
    Image.record_scaleBytes, hr, last_displacement hw himg hsize] at hscale
  have hbytes := decodeUInt32_injective (length_slice _ (by omega)) (length_slice _ (by omega))
    (Except.ok.inj hscale)
  have hne := (hok _ hlast).scale_ne
  rw [hplace, last_scale_of_shift hw himg hsize hstart hfit hbytes] at hne
  exact hne (by decide)

include hw himg hsize h in
/-- Records that pass at a later offset start at most three bytes later, and their file has at
least 2^40 bytes: the first source offset moves its low bytes out and high ones in. -/
theorem laterRecords_large (hlater : LaterRecords img img') :
    img'.header.recordsOffset.toNat < 100 ∧ 2 ^ 40 ≤ img.bytes.length := by
  obtain ⟨hn, hd, hr, hv, hs, hf⟩ := written_layout hw himg hsize
  have hplace := later_scale hw himg hsize h hlater
  have hok := hlater.records
  obtain ⟨hstart, hfit⟩ := hlater.bounds hw himg hsize
  have hpos : 0 < items.length := List.length_pos_iff.mpr hw.nonempty
  have hfile := written_length hw himg hsize
  obtain ⟨-, hlast⟩ := written_index hw himg hsize (Nat.sub_lt hpos Nat.one_pos)
  have hshort : img'.header.recordsOffset.toNat < 100 := by
    by_contra hfar
    have hne := (hok _ hlast).scale_ne
    rw [hplace, last_scale_of_far hw himg hsize (Nat.not_lt.mp hfar) hfit] at hne
    exact hne (by decide)
  refine ⟨hshort, ?_⟩
  have hfirst := hok 0 (by rw [UInt64.lt_iff_toNat_lt, hn]; exact hpos)
  have hstrings := hfirst.strings_le
  have hsource := hfirst.source_le
  have htext := hfirst.text_le
  rw [hf, ← hfile] at htext
  have hread : (img'.record 0).sourceOffset =
      decodeUInt64 (slice img.bytes img'.header.recordsOffset.toNat 8) := by
    rw [Image.record_sourceOffset, h.slice_eq _ (by rw [sizeofHeader]; omega),
      show ((0 : UInt64) * 72).toNat = 0 from rfl, Nat.add_zero]
  rw [hread, hs] at hstrings
  rw [hread] at hsource
  rcases first_offset_of_shift hw himg hsize hstart hshort with hbefore | hhuge
  · omega
  · omega

include hw himg hsize h in
/-- Nothing that is read has changed. -/
theorem same_of_unread (hcount : img'.header.itemCount = img.header.itemCount)
    (hdims : img'.header.dimensions = img.header.dimensions)
    (hrecords : img'.header.recordsOffset = img.header.recordsOffset)
    (hvectors : img'.header.vectorsOffset = img.header.vectorsOffset)
    (hstrings : img'.header.stringsOffset = img.header.stringsOffset)
    (hfile : img'.header.fileSize = img.header.fileSize) (ha' : Accepts img') :
    SameAnswers ⟨some img⟩ ⟨some img'⟩ := by
  obtain ⟨hn, hd, hr, hv, hs, hf⟩ := written_layout hw himg hsize
  have hrecordsOk := altered_allRecords_iff hw himg hsize h hrecords hstrings hfile hcount
  have ha := written_accepts hw himg hsize (hrecordsOk.mp ha'.records)
  have hafter : sizeofHeader ≤ img'.header.vectorsOffset.toNat := by
    have hle := records_le_vectorsStart items.length
    rw [hvectors, hv, sizeofHeader]
    omega
  refine sameAnswers_of ha ha' hcount hdims (fun _ size hoffset => h.slice_eq size hoffset)
    (fun i _ => altered_record hw himg hsize h hrecords i) fun i hi => ?_
  have hi' : i.toNat < items.length := by
    rw [← hn]
    exact UInt64.lt_iff_toNat_lt.mp hi
  rw [altered_vectorBytes hw himg hsize h hrecords hdims hafter hi',
    written_vectorBytes hw himg hsize hi', hvectors, hv]

include hw himg hsize h in
theorem pinned_same_iff (hchanged : ¬SamePinned img.header img'.header)
    (hbounds : SameBounds img.header img'.header) :
    (Accepts img' → SameAnswers ⟨some img⟩ ⟨some img'⟩) ↔ ¬HeaderSlips items img img' := by
  exact iff_of_true (fun ha => absurd (ha.samePinned hw himg hsize h) hchanged)
    (not_headerSlips hbounds)

include hw himg hsize h in
theorem itemCount_same_iff {value : UInt64}
    (hh : img'.header = { img.header with itemCount := value })
    (hne : value ≠ img.header.itemCount) :
    (Accepts img' → SameAnswers ⟨some img⟩ ⟨some img'⟩) ↔ ¬HeaderSlips items img img' := by
  have hiff := accepts_itemCount_iff hw himg hsize h hh hne
  constructor
  · rintro hserved (hfewer | hfewer | ⟨hearlier, -⟩ | hlater)
    · exact hfewer.ne (hserved (hiff.mpr hfewer)).itemCount_eq
    · exact hfewer.ne (by rw [hh])
    · exact hearlier.ne (by rw [hh])
    · exact hlater.ne (by rw [hh])
  · exact fun hnot ha => absurd (.inl (hiff.mp ha)) hnot

include hw himg hsize h in
theorem dimensions_same_iff {value : UInt32}
    (hh : img'.header = { img.header with dimensions := value })
    (hne : value ≠ img.header.dimensions) :
    (Accepts img' → SameAnswers ⟨some img⟩ ⟨some img'⟩) ↔ ¬HeaderSlips items img img' := by
  have hiff := accepts_dimensions_iff hw himg hsize h hh hne
  constructor
  · rintro hserved (hfewer | hfewer | ⟨hearlier, -⟩ | hlater)
    · exact hfewer.ne (by rw [hh])
    · exact hfewer.ne (hserved (hiff.mpr hfewer)).dimensions_eq
    · exact hearlier.ne (by rw [hh])
    · exact hlater.ne (by rw [hh])
  · exact fun hnot ha => absurd (.inr (.inl (hiff.mp ha))) hnot

include hw himg hsize h in
theorem vectorsOffset_same_iff {value : UInt64}
    (hh : img'.header = { img.header with vectorsOffset := value })
    (hne : value ≠ img.header.vectorsOffset) :
    (Accepts img' → SameAnswers ⟨some img⟩ ⟨some img'⟩) ↔ ¬HeaderSlips items img img' := by
  have hiff := accepts_vectorsOffset_iff hw himg hsize h hh hne
  constructor
  · rintro hserved (hfewer | hfewer | ⟨hearlier, hnonzero⟩ | hlater)
    · exact hfewer.ne (by rw [hh])
    · exact hfewer.ne (by rw [hh])
    · have ha' := hiff.mpr hearlier
      have ha := written_accepts hw himg hsize hearlier.readable
      exact hnonzero (zeroVectors_of_same hw himg hsize h hh hearlier ha ha' (hserved ha'))
    · exact hlater.ne (by rw [hh])
  · intro hnot ha'
    have hearlier := hiff.mp ha'
    refine same_of_zeroVectors hw himg hsize h hh hearlier
      (written_accepts hw himg hsize hearlier.readable) ha' ?_
    by_contra hnonzero
    exact hnot (.inr (.inr (.inl ⟨hearlier, hnonzero⟩)))

include hw himg hsize h in
theorem recordsOffset_same_iff {value : UInt64}
    (hh : img'.header = { img.header with recordsOffset := value })
    (hne : value ≠ img.header.recordsOffset) :
    (Accepts img' → SameAnswers ⟨some img⟩ ⟨some img'⟩) ↔ ¬HeaderSlips items img img' := by
  have hiff := accepts_recordsOffset_iff hw himg hsize h hh hne
  constructor
  · rintro hserved (hfewer | hfewer | ⟨hearlier, -⟩ | hlater)
    · exact hfewer.ne (by rw [hh])
    · exact hfewer.ne (by rw [hh])
    · exact hearlier.ne (by rw [hh])
    · exact laterRecords_differ hw himg hsize h hlater (by rw [hh]) (hserved (hiff.mpr hlater))
  · exact fun hnot ha => absurd (.inr (.inr (.inr (hiff.mp ha)))) hnot

include hw himg hsize h in
/-- Whichever byte of the header was changed. -/
theorem altered_same_iff : (Accepts img' → SameAnswers ⟨some img⟩ ⟨some img'⟩) ↔
    ¬HeaderSlips items img img' := by
  have hchange := h.headerChange (written_size_le hw himg hsize)
  have hpinned := pinned_same_iff hw himg hsize h
  have hunread := same_of_unread hw himg hsize h
  generalize hh : img'.header = h' at hchange hpinned hunread
  cases hchange with
  | magic hne => exact hpinned (fun hp => hne hp.magic) ⟨rfl, rfl, rfl, rfl⟩
  | version hne => exact hpinned (fun hp => hne hp.version) ⟨rfl, rfl, rfl, rfl⟩
  | headerSize hne => exact hpinned (fun hp => hne hp.headerSize) ⟨rfl, rfl, rfl, rfl⟩
  | endianMarker hne => exact hpinned (fun hp => hne hp.endianMarker) ⟨rfl, rfl, rfl, rfl⟩
  | recordSize hne => exact hpinned (fun hp => hne hp.recordSize) ⟨rfl, rfl, rfl, rfl⟩
  | itemCount hne => exact itemCount_same_iff hw himg hsize h hh hne
  | dimensions hne => exact dimensions_same_iff hw himg hsize h hh hne
  | flags hne => exact hpinned (fun hp => hne hp.flags) ⟨rfl, rfl, rfl, rfl⟩
  | recordsOffset hne => exact recordsOffset_same_iff hw himg hsize h hh hne
  | vectorsOffset hne => exact vectorsOffset_same_iff hw himg hsize h hh hne
  | stringsOffset hne =>
      refine iff_of_true (fun ha => absurd ha (rejects_stringsOffset hw himg hsize h hh hne)) ?_
      exact not_headerSlips (by rw [hh]; exact ⟨rfl, rfl, rfl, rfl⟩)
  | fileSize hne => exact hpinned (fun hp => hne hp.fileSize) ⟨rfl, rfl, rfl, rfl⟩
  | checksumAlgorithm hne =>
      exact hpinned (fun hp => hne hp.checksumAlgorithm) ⟨rfl, rfl, rfl, rfl⟩
  | reserved =>
      refine iff_of_true (hunread rfl rfl rfl rfl rfl rfl) ?_
      exact not_headerSlips (by rw [hh]; exact ⟨rfl, rfl, rfl, rfl⟩)
  | payloadChecksum hne => exact hpinned (fun hp => hne hp.payloadChecksum) ⟨rfl, rfl, rfl, rfl⟩
  | reserved2 =>
      refine iff_of_true (hunread rfl rfl rfl rfl rfl rfl) ?_
      exact not_headerSlips (by rw [hh]; exact ⟨rfl, rfl, rfl, rfl⟩)

end Altered

/-- Of the images a call of `write` leaves, with any one byte of the header changed, exactly
the slips are opened with other answers; all others are refused or answer alike. Records that
start later slip through in huge files only. -/
theorem header_change_served_iff (l2Norm : List FloatBits → FloatBits) (path : String)
    (items : List IndexItem) (fs : FileSystem String) (outcomes : List Outcome)
    (hreturned : (runWrite l2Norm path items fs outcomes).phase = .returned) (img img' : Image)
    (hread : (runWrite l2Norm path items fs outcomes).fs.read path = some img.bytes)
    (p : Nat) (v : UInt8) (haltered : AlteredAt p v img img') :
    ((∀ index, (MmapIndex.openImage img').result = .ok index → SameAnswers ⟨some img⟩ index) ↔
      ¬HeaderSlips items img img') ∧
      (LaterRecords img img' →
        img'.header.recordsOffset.toNat < 100 ∧ 2 ^ 40 ≤ img.bytes.length) := by
  obtain ⟨dimensions, written, hw, hbytes, hsize, hread'⟩ := returned_written hreturned
  rw [hread] at hread'
  have himg : img.bytes = indexImage l2Norm items dimensions :=
    (Option.some.inj hread').trans hbytes
  refine ⟨?_, laterRecords_large hw himg hsize haltered⟩
  rw [← altered_same_iff hw himg hsize haltered]
  constructor
  · exact fun hserved ha => hserved _ ((MmapIndex.openImage_ok_iff img' _).mpr ⟨ha, rfl⟩)
  · intro hserved index hopen
    obtain ⟨ha, rfl⟩ := (MmapIndex.openImage_ok_iff img' index).mp hopen
    exact hserved ha

section Samples

/-- The letter image with a reserved byte set. -/
def reservedImage : Image :=
  ⟨letterImage.bytes.set 76 1, by rw [List.length_set]; exact letterImage.size_lt⟩

theorem header_change_served_reserved :
    ∃ index, (MmapIndex.openImage reservedImage).result = .ok index ∧
      SameAnswers ⟨some letterImage⟩ index := by
  have haccepted : (validate reservedImage).result = .ok () := by decide +kernel
  have hopen : (MmapIndex.openImage reservedImage).result = .ok ⟨some reservedImage⟩ :=
    (MmapIndex.openImage_ok_iff _ _).mpr ⟨(validate_ok_iff _).mp haccepted, rfl⟩
  refine ⟨_, hopen, (header_change_served_iff (fun v => v.headD 0) "index" letterItems .empty
    (List.replicate 13 .ok) (by decide +kernel) letterImage reservedImage (by decide +kernel) 76 1
    ⟨by decide, by decide +kernel, rfl⟩).1.mpr (not_headerSlips ?_) _ hopen⟩
  exact ⟨by decide +kernel, by decide +kernel, by decide +kernel, by decide +kernel⟩

def twoLetters : List IndexItem :=
  [⟨⟨[97], [98], 0, 1, 0, 1⟩, [0x3F800000]⟩, ⟨⟨[97], [99], 1, 2, 0, 1⟩, [0x3F800000]⟩]

def twoLettersImage : Image :=
  ⟨indexImage (fun v => v.headD 0) twoLetters 1, by decide +kernel⟩

/-- The image of two items with an item count of one. -/
def oneCountedImage : Image :=
  ⟨twoLettersImage.bytes.set 24 1, by rw [List.length_set]; exact twoLettersImage.size_lt⟩

/-- The changed count passes every check, and the second item is gone. -/
theorem header_count_served :
    (runWrite (fun v => v.headD 0) "index" twoLetters .empty
        (List.replicate 16 .ok)).phase = .returned ∧
      (runWrite (fun v => v.headD 0) "index" twoLetters .empty
        (List.replicate 16 .ok)).fs.read "index" = some twoLettersImage.bytes ∧
      AlteredAt 24 1 twoLettersImage oneCountedImage ∧
      ¬∀ index, (MmapIndex.openImage oneCountedImage).result = .ok index →
        SameAnswers ⟨some twoLettersImage⟩ index := by
  refine ⟨by decide +kernel, by decide +kernel, ⟨by decide, by decide +kernel, rfl⟩, ?_⟩
  intro h
  have haccepted : (validate oneCountedImage).result = .ok () := by decide +kernel
  have hsame := h _ ((MmapIndex.openImage_ok_iff _ _).mpr
    ⟨(validate_ok_iff _).mp haccepted, rfl⟩)
  exact absurd hsame.itemCount_eq (by decide +kernel)

end Samples

end CppRag
