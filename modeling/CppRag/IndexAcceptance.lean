import CppRag.IndexReader

/-!
What `MmapIndex::validate` accepts, stated over mathematical integers, and that
every access it makes on the way to its verdict is exact. Each block of the function
has one triple (its accesses, and what passing it establishes) and one acceptance
equivalence; the whole function is assembled from them.
-/
namespace CppRag
open Observed Slice

/-! Machine operations under the bounds that make them exact. -/

section Rules
variable {mapped : Nat}

theorem meets_addU64 {a b : UInt64} (h : a.toNat + b.toNat < 2 ^ 64) :
    Meets (Access.Exact mapped) (addU64 a b)
      (fun s => s = a + b ∧ s.toNat = a.toNat + b.toNat) :=
  (returns_addU64 h).meets ⟨rfl, toNat_add_of_lt h⟩

theorem meets_subU64 {a b : UInt64} (h : b.toNat ≤ a.toNat) :
    Meets (Access.Exact mapped) (subU64 a b)
      (fun s => s = a - b ∧ s.toNat = a.toNat - b.toNat) :=
  (returns_subU64 (UInt64.le_iff_toNat_le.mpr h)).meets ⟨rfl, toNat_sub_of_toNat_le h⟩

theorem meets_mulU64 {a b : UInt64} (h : a.toNat * b.toNat < 2 ^ 64) :
    Meets (Access.Exact mapped) (mulU64 a b)
      (fun s => s = a * b ∧ s.toNat = a.toNat * b.toNat) := by
  have hs := toNat_mul_of_lt h
  refine meets_bind (meets_report (Q := fun _ => True) ?_ trivial) ?_
  · simp only [Access.Exact, hs, Nat.cast_mul]
  · intro _ _
    exact meets_pure ⟨rfl, hs⟩

theorem meets_divU64 {a b : UInt64} (h : b ≠ 0) :
    Meets (Access.Exact mapped) (divU64 a b)
      (fun s => s = a / b ∧ s.toNat = a.toNat / b.toNat) := by
  have hs := UInt64.toNat_div a b
  refine meets_bind (meets_report (Q := fun _ => True) ?_ trivial) ?_
  · exact ⟨h, by rw [hs, Int.natCast_ediv]⟩
  · intro _ _
    exact meets_pure ⟨rfl, hs⟩

theorem meets_load (img : Image) {offset size : Nat}
    (h : offset + size ≤ img.bytes.length) :
    Meets (Access.Exact img.bytes.length) (load img offset size)
      (fun bytes => bytes = slice img.bytes offset size) := by
  refine meets_bind (meets_report (Q := fun _ => True) h trivial) ?_
  intro _ _
  exact meets_pure rfl

end Rules

@[simp] theorem addU64_ok_iff (a b s : UInt64) :
    (addU64 a b).result = .ok s ↔ a + b = s := by
  simp [addU64]

@[simp] theorem subU64_ok_iff (a b s : UInt64) :
    (subU64 a b).result = .ok s ↔ a - b = s := by
  simp [subU64]

@[simp] theorem mulU64_ok_iff (a b s : UInt64) :
    (mulU64 a b).result = .ok s ↔ a * b = s := by
  simp [mulU64]

@[simp] theorem divU64_ok_iff (a b s : UInt64) :
    (divU64 a b).result = .ok s ↔ a / b = s := by
  simp [divU64]

@[simp] theorem load_ok_iff (img : Image) (offset size : Nat) (bytes : Bytes) :
    (load img offset size).result = .ok bytes ↔ slice img.bytes offset size = bytes := by
  simp [load]

/-! The header and records an image holds, as `header` and `record` read them. -/

def Image.header (img : Image) : Header :=
  Header.decode (slice img.bytes 0 sizeofHeader)

def Image.record (img : Image) (i : UInt64) : Record :=
  Record.decode
    (slice img.bytes (img.header.recordsOffset.toNat + (i * 72).toNat) sizeofRecord)

@[simp] theorem header_ok_iff (img : Image) (h : Header) :
    (CppRag.header img).result = .ok h ↔ img.header = h := by
  simp [CppRag.header, bind_ok_iff, Image.header]

@[simp] theorem record_ok_iff (img : Image) (i : UInt64) (r : Record) :
    (CppRag.record img i).result = .ok r ↔ img.record i = r := by
  simp [CppRag.record, bind_ok_iff, Image.record]

/-! What each block of `validate` establishes. -/

structure HeaderOk (mapped : Nat) (h : Header) : Prop where
  magic : h.magic = kMagic
  version : h.version = kVersion
  endianMarker : h.endianMarker = kEndianMarker
  headerSize : h.headerSize = 96
  recordSize : h.recordSize = 72
  fileSize : h.fileSize.toNat = mapped
  dimensions : h.dimensions ≠ 0
  itemCount : h.itemCount ≠ 0
  checksumAlgorithm : h.checksumAlgorithm = kChecksumFnv1a64
  flags : h.flags = 0

structure SectionsOk (h : Header) : Prop where
  header_le : 96 ≤ h.recordsOffset.toNat
  records_le : h.recordsOffset.toNat + h.itemCount.toNat * 72 ≤ h.vectorsOffset.toNat
  vectors_aligned : h.vectorsOffset.toNat % 4 = 0
  vectors_le : h.vectorsOffset.toNat + h.itemCount.toNat * h.dimensions.toNat * 4 ≤
    h.stringsOffset.toNat
  strings_le : h.stringsOffset.toNat ≤ h.fileSize.toNat

structure RecordOk (h : Header) (r : Record) : Prop where
  strings_le : h.stringsOffset.toNat ≤ r.sourceOffset.toNat
  source_le : r.sourceOffset.toNat + r.sourceSize.toNat ≤ r.textOffset.toNat
  text_le : r.textOffset.toNat + r.textSize.toNat ≤ h.fileSize.toNat
  vector_lt : r.vectorIndex.toNat < h.itemCount.toNat
  range_le : r.byteBegin.toNat ≤ r.byteEnd.toNat
  scale_ne : r.scaleBytes ≠ 0

/-- The acceptance condition of `validate`. -/
structure Accepts (img : Image) : Prop where
  size_le : 96 ≤ img.bytes.length
  header : HeaderOk img.bytes.length img.header
  sections : SectionsOk img.header
  records : ∀ i : UInt64, i < img.header.itemCount → RecordOk img.header (img.record i)
  checksum : Fnv1a64.of (img.bytes.drop sizeofHeader) = img.header.payloadChecksum

theorem toNat_lt_of_not {a b : UInt64} (h : decide (a < b) = false) : b.toNat ≤ a.toNat := by
  simpa [UInt64.lt_iff_toNat_lt] using h

theorem toNat_mod_four {a : UInt64} (h : decide (a % 4 ≠ 0) = false) : a.toNat % 4 = 0 := by
  have hz : a % 4 = 0 := by simpa using h
  simpa using congrArg UInt64.toNat hz

theorem toNat_pos_of_ne_zero {a : UInt64} (h : a ≠ 0) : 0 < a.toNat :=
  Nat.pos_of_ne_zero fun hz => h (UInt64.toNat_inj.mp hz)

theorem toNat_72 : (72 : UInt64).toNat = 72 := rfl

theorem toNat_4 : (4 : UInt64).toNat = 4 := rfl

section Blocks
variable {mapped : Nat}

theorem meets_validateSections (h : Header) (hcount : h.itemCount ≠ 0) :
    Meets (Access.Exact mapped) (validateSections h) (fun _ => SectionsOk h) := by
  have hfile := h.fileSize.toNat_lt
  have hcount' := toNat_pos_of_ne_zero hcount
  refine meets_bind (Q := fun _ => 96 ≤ h.recordsOffset.toNat ∧
    h.recordsOffset.toNat ≤ h.fileSize.toNat ∧
    h.itemCount.toNat * 72 ≤ h.fileSize.toNat - h.recordsOffset.toNat)
    (meets_failWhen _ ?_) ?_
  · refine meets_orElse (meets_pure toNat_lt_of_not) fun _ => ?_
    refine meets_orElse (meets_pure toNat_lt_of_not) fun hle => ?_
    refine meets_bind (meets_subU64 hle) fun room hroom => ?_
    refine meets_bind (meets_divU64 (by decide)) fun capacity hcap => meets_pure fun hb => ?_
    have hdiv := toNat_lt_of_not hb
    rw [hcap.2, hroom.2] at hdiv
    exact (Nat.le_div_iff_mul_le (by decide)).mp hdiv
  rintro _ ⟨hheader, hro, hroom⟩
  refine meets_bind (meets_mulU64 (by rw [toNat_72]; omega)) fun recordBytes hbytes => ?_
  rw [toNat_72] at hbytes
  refine meets_bind (meets_addU64 (by omega)) fun recordsEnd hend => ?_
  refine meets_bind (Q := fun _ => recordsEnd.toNat ≤ h.vectorsOffset.toNat ∧
    h.vectorsOffset.toNat ≤ h.fileSize.toNat ∧ h.vectorsOffset.toNat % 4 = 0 ∧
    h.itemCount.toNat * h.dimensions.toNat * 4 ≤
      h.fileSize.toNat - h.vectorsOffset.toNat) (meets_failWhen _ ?_) ?_
  · refine meets_orElse (meets_pure toNat_lt_of_not) fun _ => ?_
    refine meets_orElse (meets_pure toNat_lt_of_not) fun hle => ?_
    refine meets_orElse (meets_pure toNat_mod_four) fun _ => ?_
    refine meets_bind (meets_subU64 hle) fun room hroom => ?_
    refine meets_bind (meets_divU64 (by decide)) fun floats hfloats => ?_
    refine meets_bind (meets_divU64 hcount) fun capacity hcap => meets_pure fun hb => ?_
    have hdiv := toNat_lt_of_not hb
    rw [hcap.2, hfloats.2, hroom.2, UInt32.toNat_toUInt64, toNat_4,
      Nat.le_div_iff_mul_le hcount', Nat.le_div_iff_mul_le (by decide)] at hdiv
    rwa [Nat.mul_comm h.itemCount.toNat]
  rintro _ ⟨hvo, hvf, haligned, hvroom⟩
  refine meets_bind (meets_mulU64 (by rw [UInt32.toNat_toUInt64]; omega)) fun floats hfloats => ?_
  rw [UInt32.toNat_toUInt64] at hfloats
  refine meets_bind (meets_mulU64 (by rw [hfloats.2, toNat_4]; omega)) fun vectorBytes hvb => ?_
  rw [hfloats.2, toNat_4] at hvb
  refine meets_bind (meets_addU64 (by omega)) fun vectorEnd hve => ?_
  refine (meets_failIf _ _).imp fun _ hstrings => ?_
  rw [Bool.or_eq_false_iff] at hstrings
  have hs := toNat_lt_of_not hstrings.1
  have hf := toNat_lt_of_not hstrings.2
  exact
    { header_le := hheader
      records_le := by omega
      vectors_aligned := haligned
      vectors_le := by omega
      strings_le := hf }

theorem meets_rangeValid (offset size limit : UInt64) :
    Meets (Access.Exact mapped) (rangeValid offset size limit)
      (fun valid => (!valid) = false → offset.toNat + size.toNat ≤ limit.toNat) := by
  by_cases h : offset ≤ limit
  · have hle := UInt64.le_iff_toNat_le.mp h
    rw [rangeValid, if_pos h]
    refine meets_bind (meets_subU64 hle) fun room hroom => meets_pure fun hb => ?_
    have hsize : size ≤ room := by simpa using hb
    have := UInt64.le_iff_toNat_le.mp hsize
    omega
  · rw [rangeValid, if_neg h]
    exact meets_pure (fun hb => by cases hb)

theorem meets_rangeInvalid (offset size limit : UInt64) :
    Meets (Access.Exact mapped) (rangeInvalid offset size limit)
      (fun b => b = false → offset.toNat + size.toNat ≤ limit.toNat) :=
  meets_bind (meets_rangeValid offset size limit) fun _ hv => meets_pure hv

theorem meets_validateRecord (h : Header) (r : Record) :
    Meets (Access.Exact mapped) (validateRecord h r) (fun _ => RecordOk h r) := by
  have hfile := h.fileSize.toNat_lt
  refine (meets_failWhen (A :=
    r.sourceOffset.toNat + r.sourceSize.toNat ≤ h.fileSize.toNat ∧
    r.textOffset.toNat + r.textSize.toNat ≤ h.fileSize.toNat ∧
    h.stringsOffset.toNat ≤ r.sourceOffset.toNat ∧
    r.sourceOffset.toNat + r.sourceSize.toNat ≤ r.textOffset.toNat ∧ True ∧
    (decide (r.vectorIndex ≥ h.itemCount) || decide (r.byteBegin > r.byteEnd) ||
      decide (r.scaleBytes = 0)) = false) _ ?_).imp ?_
  · refine meets_orElse (meets_rangeInvalid _ _ _) fun hsource => ?_
    refine meets_orElse (meets_rangeInvalid _ _ _) fun htext => ?_
    refine meets_orElse (meets_pure toNat_lt_of_not) fun _ => ?_
    refine meets_orElse (meets_bind (meets_addU64 (by omega)) fun sourceEnd hend =>
      meets_pure fun hb => ?_) fun _ => ?_
    · rw [← hend.2]
      exact toNat_lt_of_not hb
    · exact meets_orElse (meets_bind (meets_addU64 (by omega)) fun _ _ =>
        meets_pure fun _ => trivial) fun _ => meets_pure id
  rintro _ ⟨_, htext, hstrings, hsource, _, hrest⟩
  simp only [Bool.or_eq_false_iff, decide_eq_false_iff_not] at hrest
  obtain ⟨⟨hvector, hrange⟩, hscale⟩ := hrest
  exact
    { strings_le := hstrings
      source_le := hsource
      text_le := htext
      vector_lt := by simpa [UInt64.le_iff_toNat_le] using hvector
      range_le := by simpa [UInt64.lt_iff_toNat_lt] using hrange
      scale_ne := hscale }

theorem meets_validateIdentity (h : Header) :
    Meets (Access.Exact mapped) (validateIdentity h) (fun _ =>
      h.magic = kMagic ∧ h.version = kVersion ∧ h.endianMarker = kEndianMarker) := by
  refine meets_bind (meets_failIf _ _) fun _ hmagic => ?_
  have hmagic' : h.magic = kMagic := by simpa using hmagic
  split
  · exact meets_bind (meets_failIf _ _) fun _ _ => meets_fail _ _
  next hversion =>
    split
    · exact meets_bind (meets_failIf _ _) fun _ _ => meets_fail _ _
    next hendian => exact meets_pure ⟨hmagic', not_not.mp hversion, not_not.mp hendian⟩

theorem meets_header (img : Image) (h : 96 ≤ img.bytes.length) :
    Meets (Access.Exact img.bytes.length) (header img) (fun fh => fh = img.header) := by
  refine meets_bind (meets_load img (by simpa [sizeofHeader] using h)) fun _ hb => ?_
  subst hb
  exact meets_pure rfl

/-- A record of an accepted record section: its index arithmetic is exact and the
whole struct lies in the mapping, after the header. -/
theorem meets_record (img : Image) {i : UInt64} (hsize : 96 ≤ img.bytes.length)
    (hfile : img.header.fileSize.toNat = img.bytes.length) (hs : SectionsOk img.header)
    (hi : i < img.header.itemCount) :
    Meets (Access.Exact img.bytes.length) (record img i) (fun r => r = img.record i) := by
  have hlt := img.size_lt
  have hi' := UInt64.lt_iff_toNat_lt.mp hi
  obtain ⟨_, hrecords, _, hvectors, hstrings⟩ := hs
  refine meets_bind (meets_header img hsize) fun fh hfh => ?_
  subst hfh
  refine meets_bind (meets_mulU64 (by rw [toNat_72]; omega)) fun d hd => ?_
  rw [toNat_72] at hd
  refine meets_bind (meets_load img (by rw [hd.2, sizeofRecord]; omega)) fun _ hb => ?_
  subst hb
  refine meets_pure ?_
  rw [Image.record, hd.1]

theorem meets_validateChecksum (img : Image) (h : Header) (hsize : 96 ≤ img.bytes.length) :
    Meets (Access.Exact img.bytes.length) (validateChecksum img h)
      (fun _ => Fnv1a64.of (img.bytes.drop sizeofHeader) = h.payloadChecksum) := by
  have hmapped := img.toNat_mappedSize
  refine meets_bind (meets_subU64 (by rw [hmapped]; exact hsize)) fun payloadSize hps => ?_
  have hlen : payloadSize.toNat = img.bytes.length - 96 := by rw [hps.2, hmapped]; rfl
  refine meets_bind (meets_load img (by rw [hlen, sizeofHeader]; omega)) fun payload hp => ?_
  refine (meets_failIf _ _).imp fun _ hc => ?_
  have hall : slice img.bytes sizeofHeader payloadSize.toNat = img.bytes.drop sizeofHeader := by
    rw [slice, hlen, List.take_of_length_le]
    simp [sizeofHeader]
  rw [← hall, ← hp]
  simpa using hc

end Blocks

/-- Every access of `validate` is exact on every image, and what it accepts satisfies
the acceptance condition. -/
theorem meets_validate (img : Image) :
    Meets (Access.Exact img.bytes.length) (validate img) (fun _ => Accepts img) := by
  have hmapped := img.toNat_mappedSize
  refine meets_bind (meets_failIf _ _) fun _ hsmall => ?_
  have hsize : 96 ≤ img.bytes.length := by
    rw [← hmapped]
    exact toNat_lt_of_not hsmall
  refine meets_bind (meets_header img hsize) fun h hh => ?_
  subst hh
  refine meets_bind (meets_validateIdentity _) fun _ hid => ?_
  obtain ⟨hmagic, hversion, hendian⟩ := hid
  refine meets_bind (meets_failIf _ _) fun _ hheader => ?_
  simp only [Bool.or_eq_false_iff, decide_eq_false_iff_not, ne_eq, not_not] at hheader
  obtain ⟨⟨⟨⟨⟨⟨hhs, hrs⟩, hfs⟩, hdim⟩, hcount⟩, halg⟩, hflags⟩ := hheader
  have hfile : img.header.fileSize.toNat = img.bytes.length := by rw [hfs, hmapped]
  refine meets_bind (meets_validateSections _ hcount) fun _ hsections => ?_
  refine meets_bind (meets_forRange
    (Q := fun i => RecordOk img.header (img.record (UInt64.ofNat i))) fun i hi => ?_)
    fun _ hrecords => ?_
  · have hi' : UInt64.ofNat i < img.header.itemCount := by
      rwa [UInt64.lt_iff_toNat_lt,
        UInt64.toNat_ofNat_of_lt' (Nat.lt_trans hi img.header.itemCount.toNat_lt)]
    refine meets_bind (meets_record img hsize hfile hsections hi') fun r hr => ?_
    subst hr
    exact meets_validateRecord img.header _
  · refine (meets_validateChecksum img _ hsize).imp fun _ hchecksum => ?_
    exact
      { size_le := hsize
        header := ⟨hmagic, hversion, hendian, hhs, hrs, hfile, hdim, hcount, halg, hflags⟩
        sections := hsections
        records := fun i hi => by
          simpa using hrecords i.toNat (UInt64.lt_iff_toNat_lt.mp hi)
        checksum := hchecksum }

/-! Conversely each block passes what it is meant to let through. -/

theorem le_of_toNat_le {a b : UInt64} (h : a.toNat ≤ b.toNat) : a ≤ b :=
  UInt64.le_iff_toNat_le.mpr h

theorem validateSections_of_ok {h : Header} (hcount : h.itemCount ≠ 0) (hs : SectionsOk h) :
    (validateSections h).result = .ok () := by
  have hcount' := toNat_pos_of_ne_zero hcount
  have hfile := h.fileSize.toNat_lt
  obtain ⟨hheader, hrecords, haligned, hvectors, hstrings⟩ := hs
  have hrb : (h.itemCount * 72).toNat = h.itemCount.toNat * 72 :=
    toNat_mul_of_lt (by rw [toNat_72]; omega)
  have hre : (h.recordsOffset + h.itemCount * 72).toNat =
      h.recordsOffset.toNat + h.itemCount.toNat * 72 := by
    rw [toNat_add_of_lt (by omega), hrb]
  have hfloats : (h.itemCount * h.dimensions.toUInt64).toNat =
      h.itemCount.toNat * h.dimensions.toNat := by
    rw [toNat_mul_of_lt (by rw [UInt32.toNat_toUInt64]; omega), UInt32.toNat_toUInt64]
  have hvb : (h.itemCount * h.dimensions.toUInt64 * 4).toNat =
      h.itemCount.toNat * h.dimensions.toNat * 4 := by
    rw [toNat_mul_of_lt (by rw [hfloats, toNat_4]; omega), hfloats, toNat_4]
  have hve : (h.vectorsOffset + h.itemCount * h.dimensions.toUInt64 * 4).toNat =
      h.vectorsOffset.toNat + h.itemCount.toNat * h.dimensions.toNat * 4 := by
    rw [toNat_add_of_lt (by omega), hvb]
  have hmod : h.vectorsOffset % 4 = 0 := by
    apply UInt64.toNat_inj.mp
    simpa using haligned
  have hrdiv : h.itemCount ≤ (h.fileSize - h.recordsOffset) / 72 := by
    apply le_of_toNat_le
    rw [UInt64.toNat_div, toNat_sub_of_toNat_le (by omega), toNat_72,
      Nat.le_div_iff_mul_le (by decide)]
    omega
  have hvdiv : h.dimensions.toUInt64 ≤ (h.fileSize - h.vectorsOffset) / 4 / h.itemCount := by
    apply le_of_toNat_le
    rw [UInt64.toNat_div, UInt64.toNat_div, toNat_sub_of_toNat_le (by omega), UInt32.toNat_toUInt64,
      toNat_4, Nat.le_div_iff_mul_le hcount', Nat.le_div_iff_mul_le (by decide),
      Nat.mul_comm h.dimensions.toNat]
    omega
  simp only [validateSections, bind_ok_iff, failWhen_ok_iff, orElse_false_iff, result_pure,
    subU64_ok_iff, mulU64_ok_iff, addU64_ok_iff, divU64_ok_iff, failIf_ok_iff, Except.ok.injEq,
    exists_eq_left', exists_const, decide_eq_false_iff_not, UInt64.not_lt, Bool.or_eq_false_iff,
    ne_eq, not_not, gt_iff_lt]
  refine ⟨⟨le_of_toNat_le hheader, le_of_toNat_le (by omega), hrdiv⟩,
    ⟨le_of_toNat_le (by omega), le_of_toNat_le (by omega), hmod, hvdiv⟩,
    le_of_toNat_le (by omega), le_of_toNat_le hstrings⟩

theorem rangeInvalid_of_le {offset size limit : UInt64}
    (h : offset.toNat + size.toNat ≤ limit.toNat) :
    (rangeInvalid offset size limit).result = .ok false := by
  have hle : offset ≤ limit := le_of_toNat_le (by omega)
  have hsize : size ≤ limit - offset := by
    refine le_of_toNat_le ?_
    rw [toNat_sub_of_toNat_le (by omega)]
    omega
  simp [rangeInvalid, rangeValid, bind_ok_iff, hle, hsize]

theorem validateRecord_of_ok {h : Header} {r : Record} (hr : RecordOk h r) :
    (validateRecord h r).result = .ok () := by
  have hfile := h.fileSize.toNat_lt
  obtain ⟨hstrings, hsource, htext, hvector, hrange, hscale⟩ := hr
  have hse : (r.sourceOffset + r.sourceSize).toNat = _ := toNat_add_of_lt (by omega)
  have hte : (r.textOffset + r.textSize).toNat = _ := toNat_add_of_lt (by omega)
  simp only [validateRecord, bind_ok_iff, failWhen_ok_iff, orElse_false_iff, result_pure,
    addU64_ok_iff, Except.ok.injEq, exists_eq_left', decide_eq_false_iff_not, UInt64.not_lt,
    Bool.or_eq_false_iff, gt_iff_lt, ge_iff_le, UInt64.not_le]
  exact ⟨rangeInvalid_of_le (by omega), rangeInvalid_of_le htext, le_of_toNat_le hstrings,
    le_of_toNat_le (by omega), le_of_toNat_le (by omega),
    ⟨UInt64.lt_iff_toNat_lt.mpr hvector, le_of_toNat_le hrange⟩, hscale⟩

theorem validate_of_accepts {img : Image} (ha : Accepts img) :
    (validate img).result = .ok () := by
  obtain ⟨hsize, hheader, hsections, hrecords, hchecksum⟩ := ha
  have hmapped := img.toNat_mappedSize
  have hsmall : ¬ img.mappedSize < 96 := by
    rw [UInt64.not_lt]
    exact le_of_toNat_le (by rw [hmapped]; exact hsize)
  have hfile : img.header.fileSize = img.mappedSize := by
    apply UInt64.toNat_inj.mp
    rw [hheader.fileSize, hmapped]
  have hidentity : (validateIdentity img.header).result = .ok () := by
    simp [validateIdentity, bind_ok_iff, hheader.magic, hheader.version, hheader.endianMarker]
  have hvheader : (validateHeader img.mappedSize img.header).result = .ok () := by
    simp [validateHeader, hheader.headerSize, hheader.recordSize, hfile, hheader.dimensions,
      hheader.itemCount, hheader.checksumAlgorithm, hheader.flags]
  have hvchecksum : (validateChecksum img img.header).result = .ok () := by
    have hlen : (img.mappedSize - 96).toNat = img.bytes.length - 96 := by
      rw [toNat_sub_of_toNat_le (by rw [hmapped]; exact hsize), hmapped]
      rfl
    have hall : slice img.bytes sizeofHeader (img.mappedSize - 96).toNat =
        img.bytes.drop sizeofHeader := by
      rw [slice, hlen, List.take_of_length_le]
      simp [sizeofHeader]
    simp [validateChecksum, bind_ok_iff, hall, hchecksum]
  have hvrecords : ∀ i, i < img.header.itemCount.toNat →
      (validateRecord img.header (img.record (UInt64.ofNat i))).result = .ok () :=
    fun i hi => validateRecord_of_ok (hrecords _ (by
      rwa [UInt64.lt_iff_toNat_lt,
        UInt64.toNat_ofNat_of_lt' (Nat.lt_trans hi img.header.itemCount.toNat_lt)]))
  simp only [validate, bind_ok_iff, failIf_ok_iff, header_ok_iff, record_ok_iff,
    exists_eq_left', exists_const, forRange_ok_iff, decide_eq_false_iff_not]
  exact ⟨hsmall, ⟨(), hidentity, (), hvheader, (),
    validateSections_of_ok hheader.itemCount hsections, hvrecords, hvchecksum⟩⟩

theorem validate_ok_iff (img : Image) : (validate img).result = .ok () ↔ Accepts img :=
  ⟨(meets_validate img).2 (), validate_of_accepts⟩

end CppRag
