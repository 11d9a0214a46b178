import CppRag.IndexAcceptance

/-!
The accessors of an open index. An accepted image keeps every accessor, for every
item number, inside the mapping and its `u64` arithmetic exact: the section checks
bound the record and vector tables, the record checks bound what a record points to.
-/
namespace CppRag
open Observed Slice

namespace MmapIndex
variable {img : Image}

theorem meets_size (ha : Accepts img) :
    Meets (Access.Exact img.bytes.length) (size ⟨some img⟩)
      (fun count => count = img.header.itemCount) := by
  refine meets_bind (meets_pure (Q := fun data => data = img) rfl) fun data hdata => ?_
  subst hdata
  refine meets_bind (meets_header data ha.size_le) fun h hh => ?_
  subst hh
  exact meets_pure rfl

theorem meets_dimensions (ha : Accepts img) :
    Meets (Access.Exact img.bytes.length) (dimensions ⟨some img⟩)
      (fun d => d = img.header.dimensions.toUInt64) := by
  refine meets_bind (meets_pure (Q := fun data => data = img) rfl) fun data hdata => ?_
  subst hdata
  refine meets_bind (meets_header data ha.size_le) fun h hh => ?_
  subst hh
  exact meets_pure rfl

theorem meets_item (ha : Accepts img) (i : UInt64) :
    Meets (Access.Exact img.bytes.length) (item ⟨some img⟩ i)
      (fun p => i < img.header.itemCount ∧ p = (img, img.record i)) := by
  refine meets_bind (meets_size ha) fun count hcount => ?_
  subst hcount
  refine meets_bind (meets_failIf _ _) fun _ hrange => ?_
  have hi : i < img.header.itemCount := by simpa using hrange
  refine meets_bind (meets_pure (Q := fun data => data = img) rfl) fun data hdata => ?_
  subst hdata
  refine meets_bind (meets_record data ha.size_le ha.header.fileSize ha.sections hi)
    fun r hr => ?_
  subst hr
  exact meets_pure ⟨hi, rfl⟩

/-- The source range and the text range of an item, in the string section. -/
theorem string_ranges (ha : Accepts img) {i : UInt64} (hi : i < img.header.itemCount) :
    img.header.stringsOffset.toNat ≤ (img.record i).sourceOffset.toNat ∧
    (img.record i).sourceOffset.toNat + (img.record i).sourceSize.toNat ≤ img.bytes.length ∧
    img.header.stringsOffset.toNat ≤ (img.record i).textOffset.toNat ∧
    (img.record i).textOffset.toNat + (img.record i).textSize.toNat ≤ img.bytes.length := by
  obtain ⟨hstrings, hsource, htext, _, _, _⟩ := ha.records i hi
  have hfile := ha.header.fileSize
  omega

/-- The vector an item points to, in the vector section. -/
theorem embedding_range (ha : Accepts img) {i : UInt64} (hi : i < img.header.itemCount) :
    img.header.vectorsOffset.toNat +
        (img.record i).vectorIndex.toNat * img.header.dimensions.toNat * 4 +
        4 * img.header.dimensions.toNat ≤ img.header.stringsOffset.toNat := by
  have hvector := (ha.records i hi).vector_lt
  have hle := ha.sections.vectors_le
  have hnext : ((img.record i).vectorIndex.toNat + 1) * img.header.dimensions.toNat ≤
      img.header.itemCount.toNat * img.header.dimensions.toNat :=
    Nat.mul_le_mul_right _ hvector
  rw [Nat.succ_mul] at hnext
  omega

theorem meets_chunk (ha : Accepts img) (i : UInt64) :
    Meets (Access.Exact img.bytes.length) (chunk ⟨some img⟩ i) (fun c => c =
      ⟨slice img.bytes (img.record i).sourceOffset.toNat (img.record i).sourceSize.toNat,
        slice img.bytes (img.record i).textOffset.toNat (img.record i).textSize.toNat,
        (img.record i).byteBegin, (img.record i).byteEnd, (img.record i).scale,
        (img.record i).scaleBytes⟩) := by
  refine meets_bind (meets_item ha i) ?_
  rintro _ ⟨hi, rfl⟩
  obtain ⟨_, hsource, _, htext⟩ := string_ranges ha hi
  refine meets_bind (meets_load img hsource) fun source hs => ?_
  refine meets_bind (meets_load img htext) fun text ht => ?_
  exact meets_pure (by rw [hs, ht])

theorem meets_embedding (ha : Accepts img) (i : UInt64) :
    Meets (Access.Exact img.bytes.length) (embedding ⟨some img⟩ i) (fun values => values =
      decodeFloats img.header.dimensions.toNat (slice img.bytes
        (img.header.vectorsOffset.toNat +
          (img.record i).vectorIndex.toNat * img.header.dimensions.toNat * 4)
        (img.header.dimensions.toNat * sizeofFloat))) := by
  refine meets_bind (meets_item ha i) ?_
  rintro _ ⟨hi, rfl⟩
  have hrange := embedding_range ha hi
  have hstrings := ha.sections.strings_le
  have hfile := ha.header.fileSize
  have hlt := img.size_lt
  refine meets_bind (meets_header img ha.size_le) fun h hh => ?_
  subst hh
  refine meets_bind (meets_dimensions ha) fun d hd => ?_
  subst hd
  refine meets_bind (meets_mulU64 (by rw [UInt32.toNat_toUInt64]; omega)) fun floats hfloats => ?_
  rw [UInt32.toNat_toUInt64] at hfloats
  refine meets_bind (meets_mulU64 (by rw [hfloats.2, toNat_4]; omega)) fun disp hdisp => ?_
  rw [hfloats.2, toNat_4] at hdisp
  refine meets_bind (meets_addU64 (by omega)) fun offset hoffset => ?_
  refine meets_bind (meets_dimensions ha) fun size hsize => ?_
  subst hsize
  rw [UInt32.toNat_toUInt64]
  refine meets_bind (meets_load img (by rw [sizeofFloat]; omega)) fun values hvalues => ?_
  refine meets_pure ?_
  rw [hvalues, hoffset.2, hdisp.2]

theorem meets_norm (ha : Accepts img) (i : UInt64) :
    Meets (Access.Exact img.bytes.length) (norm ⟨some img⟩ i)
      (fun value => value = (img.record i).norm) := by
  refine meets_bind (meets_item ha i) ?_
  rintro _ ⟨_, rfl⟩
  exact meets_pure rfl

theorem meets_scale (ha : Accepts img) (i : UInt64) :
    Meets (Access.Exact img.bytes.length) (scale ⟨some img⟩ i)
      (fun value => value = (img.record i).scale) := by
  refine meets_bind (meets_item ha i) ?_
  rintro _ ⟨_, rfl⟩
  exact meets_pure rfl

theorem meets_scaleBytes (ha : Accepts img) (i : UInt64) :
    Meets (Access.Exact img.bytes.length) (scaleBytes ⟨some img⟩ i)
      (fun value => value = (img.record i).scaleBytes) := by
  refine meets_bind (meets_item ha i) ?_
  rintro _ ⟨_, rfl⟩
  exact meets_pure rfl

/-- Everything the accessors do for item number `i`. -/
def accesses (index : MmapIndex) (i : UInt64) : List Access :=
  index.size.events ++ index.dimensions.events ++ (index.chunk i).events ++
    (index.embedding i).events ++ (index.norm i).events ++ (index.scale i).events ++
    (index.scaleBytes i).events

theorem accesses_exact (ha : Accepts img) (i : UInt64) (access : Access)
    (h : access ∈ accesses ⟨some img⟩ i) : access.Exact img.bytes.length := by
  simp only [accesses, List.mem_append] at h
  rcases h with (((((h | h) | h) | h) | h) | h) | h
  · exact (meets_size ha).1 access h
  · exact (meets_dimensions ha).1 access h
  · exact (meets_chunk ha i).1 access h
  · exact (meets_embedding ha i).1 access h
  · exact (meets_norm ha i).1 access h
  · exact (meets_scale ha i).1 access h
  · exact (meets_scaleBytes ha i).1 access h

theorem openImage_ok_iff (img : Image) (index : MmapIndex) :
    (openImage img).result = .ok index ↔ Accepts img ∧ index = ⟨some img⟩ := by
  rw [openImage, bind_ok_iff]
  constructor
  · rintro ⟨_, hv, hi⟩
    exact ⟨(validate_ok_iff img).mp hv, by simpa [eq_comm] using hi⟩
  · rintro ⟨ha, rfl⟩
    exact ⟨(), (validate_ok_iff img).mpr ha, rfl⟩

/-! What the accessors return. -/

@[simp] theorem size_result (img : Image) :
    (size ⟨some img⟩).result = .ok img.header.itemCount := by
  simp [size, bytes, bind_ok_iff]

@[simp] theorem dimensions_result (img : Image) :
    (dimensions ⟨some img⟩).result = .ok img.header.dimensions.toUInt64 := by
  simp [dimensions, bytes, bind_ok_iff]

theorem item_result {i : UInt64} (hi : i < img.header.itemCount) :
    (item ⟨some img⟩ i).result = .ok (img, img.record i) := by
  simp [item, bytes, bind_ok_iff, hi]

theorem item_error {i : UInt64} (hi : ¬i < img.header.itemCount) :
    (item ⟨some img⟩ i).result = .error (.outOfRange "index item out of range") := by
  have hge : decide (i ≥ img.header.itemCount) = true := decide_eq_true (UInt64.not_lt.mp hi)
  rw [item, bind_of_ok (size_result img), hge]
  rfl

theorem chunk_result {i : UInt64} (hi : i < img.header.itemCount) :
    (chunk ⟨some img⟩ i).result = .ok
      ⟨slice img.bytes (img.record i).sourceOffset.toNat (img.record i).sourceSize.toNat,
        slice img.bytes (img.record i).textOffset.toNat (img.record i).textSize.toNat,
        (img.record i).byteBegin, (img.record i).byteEnd, (img.record i).scale,
        (img.record i).scaleBytes⟩ := by
  rw [chunk, bind_of_ok (item_result hi)]
  simp [bind_ok_iff]

theorem embedding_result (ha : Accepts img) {i : UInt64} (hi : i < img.header.itemCount) :
    (embedding ⟨some img⟩ i).result = .ok
      (decodeFloats img.header.dimensions.toNat (slice img.bytes
        (img.header.vectorsOffset.toNat +
          (img.record i).vectorIndex.toNat * img.header.dimensions.toNat * 4)
        (img.header.dimensions.toNat * sizeofFloat))) := by
  have hok : ∃ values, (embedding ⟨some img⟩ i).result = .ok values := by
    rw [embedding, bind_of_ok (item_result hi)]
    simp [bind_ok_iff]
  obtain ⟨values, hvalues⟩ := hok
  rw [hvalues, (meets_embedding ha i).2 values hvalues]

theorem norm_result {i : UInt64} (hi : i < img.header.itemCount) :
    (norm ⟨some img⟩ i).result = .ok (img.record i).norm := by
  rw [norm, bind_of_ok (item_result hi)]
  rfl

theorem scale_result {i : UInt64} (hi : i < img.header.itemCount) :
    (scale ⟨some img⟩ i).result = .ok (img.record i).scale := by
  rw [scale, bind_of_ok (item_result hi)]
  rfl

theorem scaleBytes_result {i : UInt64} (hi : i < img.header.itemCount) :
    (scaleBytes ⟨some img⟩ i).result = .ok (img.record i).scaleBytes := by
  rw [scaleBytes, bind_of_ok (item_result hi)]
  rfl

end MmapIndex

/-- No accepted file makes the reader leave the mapping or wrap an offset. -/
theorem validate_sound (img : Image) :
    (∀ access ∈ (validate img).events, access.Exact img.bytes.length) ∧
    ∀ index, (MmapIndex.openImage img).result = .ok index →
      ∃ count h, index.size.result = .ok count ∧ (header img).result = .ok h ∧
        h.fileSize.toNat = img.bytes.length ∧
        ∀ i, i < count → ∃ r, (record img i).result = .ok r ∧
          (∀ access ∈ (record img i).events ++ index.accesses i,
            access.Exact img.bytes.length) ∧
          (96 ≤ h.recordsOffset.toNat + 72 * i.toNat ∧
            h.recordsOffset.toNat + 72 * i.toNat + 72 ≤ img.bytes.length) ∧
          (h.vectorsOffset.toNat + r.vectorIndex.toNat * h.dimensions.toNat * 4 +
            4 * h.dimensions.toNat ≤ h.stringsOffset.toNat) ∧
          (h.stringsOffset.toNat ≤ r.sourceOffset.toNat ∧
            r.sourceOffset.toNat + r.sourceSize.toNat ≤ img.bytes.length) ∧
          (h.stringsOffset.toNat ≤ r.textOffset.toNat ∧
            r.textOffset.toNat + r.textSize.toNat ≤ img.bytes.length) := by
  refine ⟨(meets_validate img).1, ?_⟩
  intro index hopen
  obtain ⟨ha, rfl⟩ := (MmapIndex.openImage_ok_iff img index).mp hopen
  refine ⟨_, _, MmapIndex.size_result img, (header_ok_iff img _).mpr rfl, ha.header.fileSize, ?_⟩
  intro i hi
  have hi' := UInt64.lt_iff_toNat_lt.mp hi
  have hrecord := meets_record img ha.size_le ha.header.fileSize ha.sections hi
  obtain ⟨hheader, hrecords, _, hvectors, hstrings⟩ := ha.sections
  have hfile := ha.header.fileSize
  obtain ⟨hs0, hs1, ht0, ht1⟩ := MmapIndex.string_ranges ha hi
  refine ⟨_, (record_ok_iff img i _).mpr rfl, ?_, ⟨by omega, by omega⟩,
    MmapIndex.embedding_range ha hi, ⟨hs0, hs1⟩, ht0, ht1⟩
  intro access haccess
  rcases List.mem_append.mp haccess with h | h
  · exact hrecord.1 access h
  · exact MmapIndex.accesses_exact ha i access h

end CppRag
