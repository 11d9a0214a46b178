import CppRag.IndexWriter
import CppRag.IndexAcceptance

/-!
The image `MmapIndex::write` leaves behind, as one concatenation: the sealed header,
the record table, padding, the vector table and the string block. The streamed
digest is the digest of that payload, and below the 64-bit limit every computed
offset is the position its section really has.
-/
namespace CppRag
open OutputStream Slice LittleEndian

/-- `e'` is `e` after writing `data` in some pieces, hashing each as it goes. -/
def Emits (e : Emitter) (data : Bytes) (e' : Emitter) : Prop :=
  ∃ pieces : List Bytes, e'.ops = e.ops ++ pieces.map .write ∧ pieces.flatten = data ∧
    e'.hasher = e.hasher.add data

theorem emits_nil (e : Emitter) : Emits e [] e :=
  ⟨[], by simp, rfl, rfl⟩

theorem emits_emit (e : Emitter) (data : Bytes) : Emits e data (e.emit data) :=
  ⟨[data], by simp [Emitter.emit], by simp, rfl⟩

theorem Emits.trans {e₀ e₁ e₂ : Emitter} {xs ys : Bytes} (h₁ : Emits e₀ xs e₁)
    (h₂ : Emits e₁ ys e₂) : Emits e₀ (xs ++ ys) e₂ := by
  obtain ⟨p, hops, hp, hhash⟩ := h₁
  obtain ⟨q, hops', hq, hhash'⟩ := h₂
  refine ⟨p ++ q, ?_, ?_, ?_⟩
  · rw [hops', hops, List.map_append, List.append_assoc]
  · rw [List.flatten_append, hp, hq]
  · rw [hhash', hhash, Fnv1a64.add_append]

theorem emits_writePadding (e : Emitter) (bytes : Nat) :
    Emits e (List.replicate bytes 0) (e.writePadding bytes) := by
  induction bytes using Nat.strongRecOn generalizing e with
  | ind bytes ih =>
      rw [Emitter.writePadding]
      split
      · next hpos =>
          have hsplit : List.replicate bytes (0 : UInt8) =
              List.replicate (min bytes 64) 0 ++ List.replicate (bytes - min bytes 64) 0 := by
            rw [List.replicate_append_replicate]
            congr 1
            omega
          rw [hsplit]
          exact (emits_emit e _).trans (ih _ (by omega) _)
      · next hzero =>
          have hb : bytes = 0 := by omega
          subst hb
          exact emits_nil e

theorem emits_foldl (step : Emitter → IndexItem → Emitter) (data : IndexItem → Bytes)
    (h : ∀ e item, Emits e (data item) (step e item)) (items : List IndexItem) (e : Emitter) :
    Emits e (items.flatMap data) (items.foldl step e) := by
  induction items generalizing e with
  | nil => exact emits_nil e
  | cons item items ih =>
      rw [List.flatMap_cons, List.foldl_cons]
      exact (h e item).trans (ih (step e item))

/-- The strings of one item, as they lie in the string block. -/
def itemStrings (item : IndexItem) : Bytes := item.chunk.source ++ item.chunk.text

def itemFloats (item : IndexItem) : Bytes := encodeFloats item.embedding

section Image
variable (l2Norm : List FloatBits → FloatBits) (items : List IndexItem) (dimensions : Nat)

def fileRecords : List Record :=
  (makeRecords l2Norm 0 (fileHeader l2Norm items dimensions).stringsOffset items).1

def paddingSize : Nat :=
  let h := fileHeader l2Norm items dimensions
  (h.vectorsOffset - (h.recordsOffset + h.itemCount * 72)).toNat

def payload : Bytes :=
  (fileRecords l2Norm items dimensions).flatMap Record.encode ++
    (List.replicate (paddingSize l2Norm items dimensions) 0 ++
      (items.flatMap itemFloats ++ items.flatMap itemStrings))

def sealedHeader : Header :=
  { fileHeader l2Norm items dimensions with
    payloadChecksum := Fnv1a64.of (payload l2Norm items dimensions) }

def indexImage : Bytes :=
  (sealedHeader l2Norm items dimensions).encode ++ payload l2Norm items dimensions

theorem emits_writePayload (e : Emitter) :
    Emits e (payload l2Norm items dimensions)
      (Emitter.writePayload l2Norm e items (fileHeader l2Norm items dimensions)) := by
  refine (emits_emit e _).trans ((emits_writePadding _ _).trans
    (Emits.trans (emits_foldl _ itemFloats (fun e item => emits_emit e _) items _)
      (emits_foldl _ itemStrings (fun e item => ?_) items _)))
  exact (emits_emit e item.chunk.source).trans (emits_emit _ item.chunk.text)

/-- The stream operations are a placeholder header, the payload in pieces, and the
header again with the digest of that payload. -/
theorem writeOps_eq : ∃ pieces : List Bytes,
    pieces.flatten = payload l2Norm items dimensions ∧
    writeOps l2Norm items dimensions =
      ((fileHeader l2Norm items dimensions).encode :: pieces).map .write ++
        [.seekp 0, .write (sealedHeader l2Norm items dimensions).encode] := by
  obtain ⟨pieces, hops, hflat, hhash⟩ := emits_writePayload l2Norm items dimensions
    ⟨[.write (fileHeader l2Norm items dimensions).encode], Fnv1a64.init⟩
  refine ⟨pieces, hflat, ?_⟩
  simp only [writeOps, hops, hhash, sealedHeader, Fnv1a64.of, List.map_cons,
    List.cons_append, List.nil_append]

theorem writeOps_contents :
    (File.empty.run (writeOps l2Norm items dimensions)).contents =
      indexImage l2Norm items dimensions := by
  obtain ⟨pieces, hflat, hops⟩ := writeOps_eq l2Norm items dimensions
  have hfront : (sealedHeader l2Norm items dimensions).encode.length =
      (fileHeader l2Norm items dimensions).encode.length := by
    rw [Header.length_encode _ rfl, Header.length_encode _ rfl]
  rw [hops, File.run_front_rewritten _ _ _ hfront, hflat, indexImage]

end Image

end CppRag
