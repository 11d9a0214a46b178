import CppRag.IndexLayout

/-!
The numbers behind the image: what the input checks establish, where each section
starts, and the record made for each item. Below the 64-bit limit the wrapping
arithmetic of the writer computes exactly these positions.
-/
namespace CppRag
open OutputStream Slice

/-- What the input checks of `write` establish. -/
structure Writable (items : List IndexItem) (dimensions : Nat) : Prop where
  nonempty : items ≠ []
  dimensions_pos : 0 < dimensions
  dimensions_lt : dimensions < 2 ^ 32
  uniform : ∀ item, item ∈ items → item.embedding.length = dimensions

theorem checkItems_ok_iff (items : List IndexItem) (dimensions : Nat) :
    checkItems items = .ok dimensions ↔ Writable items dimensions := by
  cases items with
  | nil =>
      refine ⟨?_, fun h => absurd rfl h.nonempty⟩
      intro h
      cases h
  | cons front items =>
      simp only [checkItems]
      constructor
      · intro h
        split at h
        · cases h
        · next hd =>
            split at h
            · cases h
            · next hu =>
                cases h
                rw [not_or, Nat.not_lt] at hd
                have hsize : UInt32.size = 2 ^ 32 := rfl
                refine ⟨List.cons_ne_nil _ _, Nat.pos_of_ne_zero hd.1, by omega, ?_⟩
                simpa using hu
      · intro h
        have hfront : front.embedding.length = dimensions :=
          h.uniform front List.mem_cons_self
        have hpos := h.dimensions_pos
        have hlt := h.dimensions_lt
        have hsize : UInt32.size = 2 ^ 32 := rfl
        have hall : (front :: items).any
            (fun item => item.embedding.length ≠ dimensions) = false := by
          simpa using h.uniform
        rw [hfront, if_neg (by omega), hall]
        rfl

/-- What is written to the end is the image of items that pass the checks. -/
theorem writeBytes_ok_iff (l2Norm : List FloatBits → FloatBits) (items : List IndexItem)
    (bytes : Bytes) : writeBytes l2Norm items = .ok bytes ↔
      ∃ dimensions, Writable items dimensions ∧ bytes = indexImage l2Norm items dimensions := by
  unfold writeBytes
  cases hcheck : checkItems items with
  | error error =>
      constructor
      · intro h
        cases h
      · rintro ⟨dimensions, hw, -⟩
        rw [(checkItems_ok_iff items dimensions).mpr hw] at hcheck
        cases hcheck
  | ok dimensions =>
      constructor
      · intro h
        refine ⟨dimensions, (checkItems_ok_iff items dimensions).mp hcheck, ?_⟩
        rw [← writeOps_contents]
        exact (Except.ok.inj h).symm
      · rintro ⟨d, hw, rfl⟩
        rw [(checkItems_ok_iff items d).mpr hw] at hcheck
        cases hcheck
        rw [← writeOps_contents]
        rfl

/-- Where the vector section starts: after the records, aligned up to 64 bytes. -/
def vectorsStart (count : Nat) : Nat := (96 + count * 72 + 63) / 64 * 64

def stringsStart (count dimensions : Nat) : Nat := vectorsStart count + count * dimensions * 4

def totalSize (items : List IndexItem) (dimensions : Nat) : Nat :=
  stringsStart items.length dimensions + (items.flatMap itemStrings).length

theorem records_le_vectorsStart (count : Nat) : 96 + count * 72 ≤ vectorsStart count := by
  unfold vectorsStart
  omega

theorem alignUp_toNat {value : UInt64} (h : value.toNat + 64 < 2 ^ 64) :
    (alignUp value 64).toNat = (value.toNat + 63) / 64 * 64 := by
  have h64 : (64 : UInt64).toNat = 64 := rfl
  have hadd : (value + 64).toNat = value.toNat + 64 := toNat_add_of_lt (by rw [h64]; exact h)
  have hsub : (value + 64 - 1).toNat = value.toNat + 63 := by
    rw [toNat_sub_of_toNat_le (by rw [hadd]; exact Nat.le_add_left 1 _), hadd]
    rfl
  have hdiv : ((value + 64 - 1) / 64).toNat = (value.toNat + 63) / 64 := by
    rw [UInt64.toNat_div, hsub, h64]
  rw [alignUp, toNat_mul_of_lt (by rw [hdiv, h64]; omega), hdiv, h64]

/-! Records. -/

section Records
variable (l2Norm : List FloatBits → FloatBits)

/-- A record that describes `item` as number `index`, its strings at `offset`. -/
structure RecordFor (item : IndexItem) (index offset : Nat) (r : Record) : Prop where
  sourceOffset : r.sourceOffset.toNat = offset
  sourceSize : r.sourceSize.toNat = item.chunk.source.length
  textOffset : r.textOffset.toNat = offset + item.chunk.source.length
  textSize : r.textSize.toNat = item.chunk.text.length
  byteBegin : r.byteBegin = item.chunk.byteBegin
  byteEnd : r.byteEnd = item.chunk.byteEnd
  vectorIndex : r.vectorIndex.toNat = index
  norm : r.norm = l2Norm item.embedding
  scale : r.scale = item.chunk.scale
  scaleBytes : r.scaleBytes = recordScaleBytes item.chunk

theorem length_makeRecords (i cursor : UInt64) (items : List IndexItem) :
    (makeRecords l2Norm i cursor items).1.length = items.length := by
  induction items generalizing i cursor with
  | nil => rfl
  | cons item items ih => simp only [makeRecords, List.length_cons, ih]

theorem cursor_step {item : IndexItem} {items : List IndexItem} {cursor : UInt64}
    (h : cursor.toNat + ((item :: items).flatMap itemStrings).length < 2 ^ 64) :
    (cursor + UInt64.ofNat item.chunk.source.length).toNat =
        cursor.toNat + item.chunk.source.length ∧
    (cursor + UInt64.ofNat item.chunk.source.length +
        UInt64.ofNat item.chunk.text.length).toNat =
          cursor.toNat + (itemStrings item).length := by
  simp only [List.flatMap_cons, itemStrings, List.length_append] at h ⊢
  have hs : (UInt64.ofNat item.chunk.source.length).toNat = item.chunk.source.length :=
    UInt64.toNat_ofNat_of_lt' (by rw [UInt64.size]; omega)
  have ht : (UInt64.ofNat item.chunk.text.length).toNat = item.chunk.text.length :=
    UInt64.toNat_ofNat_of_lt' (by rw [UInt64.size]; omega)
  have hsource : (cursor + UInt64.ofNat item.chunk.source.length).toNat =
      cursor.toNat + item.chunk.source.length := by
    rw [toNat_add_of_lt (by omega), hs]
  refine ⟨hsource, ?_⟩
  rw [toNat_add_of_lt (by omega), hsource, ht, Nat.add_assoc]

theorem makeRecords_cursor (i cursor : UInt64) (items : List IndexItem)
    (h : cursor.toNat + (items.flatMap itemStrings).length < 2 ^ 64) :
    (makeRecords l2Norm i cursor items).2.toNat =
      cursor.toNat + (items.flatMap itemStrings).length := by
  induction items generalizing i cursor with
  | nil => simp [makeRecords]
  | cons item items ih =>
      have hstep := (cursor_step h).2
      rw [List.flatMap_cons, List.length_append] at h ⊢
      simp only [makeRecords]
      rw [ih _ _ (by rw [hstep]; omega), hstep, Nat.add_assoc]

theorem makeRecords_get (i cursor : UInt64) (items : List IndexItem)
    (h : cursor.toNat + (items.flatMap itemStrings).length < 2 ^ 64)
    (hi : i.toNat + items.length < 2 ^ 64) (k : Nat) (hk : k < items.length)
    (hrecord : k < (makeRecords l2Norm i cursor items).1.length) :
    RecordFor l2Norm items[k] (i.toNat + k)
      (cursor.toNat + ((items.take k).flatMap itemStrings).length)
      (makeRecords l2Norm i cursor items).1[k] := by
  induction items generalizing i cursor k with
  | nil => exact absurd hk (Nat.not_lt_zero k)
  | cons item items ih =>
      obtain ⟨hsource, hstep⟩ := cursor_step h
      rw [List.flatMap_cons, List.length_append] at h
      rw [List.length_cons] at hi
      cases k with
      | zero =>
          have hlen : item.chunk.source.length + item.chunk.text.length =
              (itemStrings item).length := by rw [itemStrings, List.length_append]
          exact
            { sourceOffset := by simp [makeRecords]
              sourceSize := by
                simp only [makeRecords, List.getElem_cons_zero]
                exact UInt64.toNat_ofNat_of_lt' (by rw [UInt64.size]; omega)
              textOffset := by simpa [makeRecords] using hsource
              textSize := by
                simp only [makeRecords, List.getElem_cons_zero]
                exact UInt64.toNat_ofNat_of_lt' (by rw [UInt64.size]; omega)
              byteBegin := rfl
              byteEnd := rfl
              vectorIndex := rfl
              norm := rfl
              scale := rfl
              scaleBytes := rfl }
      | succ k =>
          have hnext : (i + 1).toNat = i.toNat + 1 := toNat_add_of_lt (by
            have h1 : (1 : UInt64).toNat = 1 := rfl
            omega)
          have htail := ih (i + 1) _ (by rw [hstep]; omega) (by rw [hnext]; omega) k
            (Nat.lt_of_succ_lt_succ hk)
            (by rw [length_makeRecords]; exact Nat.lt_of_succ_lt_succ hk)
          rw [hnext, hstep] at htail
          simp only [makeRecords, List.getElem_cons_succ, List.take_succ_cons,
            List.flatMap_cons, List.length_append]
          rw [show i.toNat + (k + 1) = i.toNat + 1 + k by omega, ← Nat.add_assoc]
          exact htail

end Records

end CppRag
