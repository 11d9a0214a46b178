import CppRag.IndexInstall
import CppRag.IndexChecksum

/-!
What a call of `write` has installed once it returns. It is the image of its items,
whatever the file system did on the way; a call whose operations all succeed does return;
and the reader accepts the image exactly when every chunk has an ordered range and a scale
size that its record can hold.
-/
namespace CppRag
open OutputStream

section Returned
variable (l2Norm : List FloatBits → FloatBits) (path : String) {items : List IndexItem}
variable {dimensions : Nat}

theorem exists_holds_run (fs : FileSystem String) (hcheck : checkItems items = .ok dimensions)
    (outcomes : List Outcome) :
    ∃ held, Holds path (indexImage l2Norm items dimensions) held
      (runWrite l2Norm path items fs outcomes).fs
      (runWrite l2Norm path items fs outcomes).phase := by
  induction outcomes using List.reverseRecOn with
  | nil => exact ⟨_, holds_start fs hcheck⟩
  | append_singleton outcomes outcome ih =>
      obtain ⟨held, hholds⟩ := ih
      rw [runWrite_append]
      exact ⟨_, holds_step outcome hholds⟩

/-- A call that returned passed its checks and left the image of its items. -/
theorem returned_image {l2Norm : List FloatBits → FloatBits} {path : String}
    {items : List IndexItem} {fs : FileSystem String} {outcomes : List Outcome}
    (h : (runWrite l2Norm path items fs outcomes).phase = .returned) :
    ∃ dimensions, Writable items dimensions ∧
      (indexImage l2Norm items dimensions).length ≤ maxFileSize ∧
      (runWrite l2Norm path items fs outcomes).fs.read path =
        some (indexImage l2Norm items dimensions) := by
  cases hcheck : checkItems items with
  | error error =>
      rw [runWrite_rejected fs hcheck] at h
      cases h
  | ok dimensions =>
      obtain ⟨held, hholds⟩ := exists_holds_run l2Norm path fs hcheck outcomes
      rw [h] at hholds
      exact ⟨dimensions, (checkItems_ok_iff items dimensions).mp hcheck, hholds.2, hholds.1⟩

/-- What is left at the path is below the limit of every offset the header holds. -/
theorem returned_written {l2Norm : List FloatBits → FloatBits} {path : String}
    {items : List IndexItem} {fs : FileSystem String} {outcomes : List Outcome}
    (h : (runWrite l2Norm path items fs outcomes).phase = .returned) :
    ∃ (dimensions : Nat) (img : Image), Writable items dimensions ∧
      img.bytes = indexImage l2Norm items dimensions ∧ totalSize items dimensions < 2 ^ 63 ∧
      (runWrite l2Norm path items fs outcomes).fs.read path = some img.bytes := by
  obtain ⟨dimensions, hw, hfile, hread⟩ := returned_image h
  have hlt : (indexImage l2Norm items dimensions).length < 2 ^ 63 := by
    have hmax : maxFileSize = 2 ^ 63 - 1 := rfl
    omega
  exact ⟨dimensions, ⟨indexImage l2Norm items dimensions, by omega⟩, hw, rfl,
    totalSize_lt hw hlt, hread⟩

end Returned

/-! A call whose operations all succeed. -/

section Succeeds
variable {path : String}

/-- `s'` is reached from `s` by operations that all succeed. -/
def Succeeds (path : String) (s s' : WriteState) : Prop :=
  ∃ count, (List.replicate count Outcome.ok).foldl (WriteState.step path) s = s'

theorem Succeeds.trans {s s' s'' : WriteState} (h : Succeeds path s s')
    (h' : Succeeds path s' s'') : Succeeds path s s'' := by
  obtain ⟨count, rfl⟩ := h
  obtain ⟨count', rfl⟩ := h'
  exact ⟨count + count', by rw [List.replicate_add, List.foldl_append]⟩

theorem succeeds_step {s s' : WriteState} (h : s.step path .ok = s') : Succeeds path s s' :=
  ⟨1, h⟩

theorem succeeds_writes (fd position : Nat) (pieces : List Bytes) (ops : List StreamOp)
    (fs : FileSystem String) (hfits : position + pieces.flatten.length ≤ maxFileSize) :
    ∃ fs', Succeeds path ⟨fs, .writing fd position (pieces.map .write ++ ops)⟩
      ⟨fs', .writing fd (position + pieces.flatten.length) ops⟩ := by
  induction pieces generalizing fs position with
  | nil => exact ⟨fs, 0, rfl⟩
  | cons piece pieces ih =>
      rw [List.flatten_cons, List.length_append] at hfits ⊢
      obtain ⟨fs', hrest⟩ := ih (position + piece.length) (fs.writeAt fd position piece)
        (by omega)
      refine ⟨fs', (succeeds_step ?_).trans (by rwa [Nat.add_assoc] at hrest)⟩
      simp only [List.map_cons, List.cons_append, WriteState.step, writeStep]
      rw [if_pos (by omega)]

end Succeeds

section Returns
variable (l2Norm : List FloatBits → FloatBits) (path : String) {items : List IndexItem}
variable {dimensions : Nat}

/-- The stream takes the whole image when it fits in a file. -/
theorem succeeds_installing (hw : Writable items dimensions)
    (hsize : (indexImage l2Norm items dimensions).length ≤ maxFileSize)
    (fs : FileSystem String) :
    ∃ fs', Succeeds path ⟨fs, startPhase l2Norm items⟩ ⟨fs', .installing⟩ := by
  obtain ⟨pieces, hflat, hops⟩ := writeOps_eq l2Norm items dimensions
  have hheader : (fileHeader l2Norm items dimensions).encode.length = sizeofHeader :=
    Header.length_encode _ rfl
  have hsealed : (sealedHeader l2Norm items dimensions).encode.length = sizeofHeader :=
    Header.length_encode _ rfl
  rw [indexImage, List.length_append, hsealed] at hsize
  have hstart : startPhase l2Norm items = .opening (writeOps l2Norm items dimensions) := by
    rw [startPhase, (checkItems_ok_iff items dimensions).mpr hw]
  obtain ⟨fs', hwrites⟩ := @succeeds_writes path (fs.openTruncate (temporary path)).2 0
    ((fileHeader l2Norm items dimensions).encode :: pieces)
    [.seekp 0, .write (sealedHeader l2Norm items dimensions).encode]
    (fs.openTruncate (temporary path)).1 (by
      rw [List.flatten_cons, List.length_append, hflat, hheader]
      omega)
  obtain ⟨fs'', hseal⟩ := @succeeds_writes path (fs.openTruncate (temporary path)).2 0
    [(sealedHeader l2Norm items dimensions).encode] [] fs' (by
      rw [List.flatten_singleton, hsealed]
      omega)
  rw [hstart, hops]
  exact ⟨fs'', (succeeds_step rfl).trans (hwrites.trans ((succeeds_step rfl).trans
    (hseal.trans (succeeds_step rfl))))⟩

/-- Items that pass the checks and fit in a file are installed when nothing fails. -/
theorem write_returns (hw : Writable items dimensions)
    (hsize : (indexImage l2Norm items dimensions).length ≤ maxFileSize)
    (fs : FileSystem String) :
    ∃ count, (runWrite l2Norm path items fs (List.replicate count .ok)).phase = .returned := by
  obtain ⟨fs', count, hrun⟩ := succeeds_installing l2Norm path hw hsize fs
  have hcheck := (checkItems_ok_iff items dimensions).mpr hw
  have hinstalling : runWrite l2Norm path items fs (List.replicate count .ok) =
      ⟨fs', .installing⟩ := hrun
  obtain ⟨held, hholds⟩ := exists_holds_run l2Norm path fs hcheck
    (List.replicate count .ok)
  rw [hinstalling] at hholds
  refine ⟨count + 1, ?_⟩
  rw [List.replicate_succ', runWrite_append, hinstalling]
  cases hrename : fs'.rename (temporary path) path with
  | some renamed => simp only [WriteState.step, tryRename, hrename]
  | none =>
      rw [FileSystem.rename_eq_none_iff, ← FileSystem.read_eq_none_iff, hholds.2.1] at hrename
      cases hrename

end Returns

/-! What the reader says to the image. -/

/-- A range in order, and a scale size that survives the cast of the text's length. -/
structure Readable (chunk : Chunk) : Prop where
  range_le : chunk.byteBegin ≤ chunk.byteEnd
  scale_fits : chunk.scaleBytes = 0 → chunk.text ≠ [] → ¬2 ^ 32 ∣ chunk.text.length

theorem recordScaleBytes_eq_zero_iff (chunk : Chunk) : recordScaleBytes chunk = 0 ↔
    chunk.scaleBytes = 0 ∧ chunk.text ≠ [] ∧ 2 ^ 32 ∣ chunk.text.length := by
  unfold recordScaleBytes
  by_cases hscale : chunk.scaleBytes = 0
  · rw [if_pos hscale, ← UInt32.toNat_inj, UInt32.toNat_ofNat',
      show (0 : UInt32).toNat = 0 from rfl]
    by_cases htext : chunk.text = []
    · simp [htext]
    · have hpos : 0 < chunk.text.length := List.length_pos_iff.mpr htext
      rw [Nat.max_eq_right hpos, Nat.dvd_iff_mod_eq_zero]
      exact ⟨fun h => ⟨hscale, htext, h⟩, fun h => h.2.2⟩
  · rw [if_neg hscale]
    exact ⟨fun h => absurd h hscale, fun h => absurd h.1 hscale⟩

theorem recordable_iff_readable (chunk : Chunk) : Recordable chunk ↔ Readable chunk := by
  constructor
  · rintro ⟨hrange, hscale⟩
    refine ⟨hrange, fun hzero htext hdvd => ?_⟩
    exact hscale ((recordScaleBytes_eq_zero_iff chunk).mpr ⟨hzero, htext, hdvd⟩)
  · rintro ⟨hrange, hscale⟩
    refine ⟨hrange, fun hzero => ?_⟩
    obtain ⟨hbytes, htext, hdvd⟩ := (recordScaleBytes_eq_zero_iff chunk).mp hzero
    exact hscale hbytes htext hdvd

/-- The image a returned call leaves at the path is accepted exactly when every chunk is
readable. -/
theorem written_accepted_iff (l2Norm : List FloatBits → FloatBits) (path : String)
    (items : List IndexItem) (fs : FileSystem String) (outcomes : List Outcome)
    (hreturned : (runWrite l2Norm path items fs outcomes).phase = .returned) :
    ∃ img : Image, (runWrite l2Norm path items fs outcomes).fs.read path = some img.bytes ∧
      ((validate img).result = .ok () ↔ ∀ item, item ∈ items → Readable item.chunk) := by
  obtain ⟨dimensions, img, hw, himg, hsize, hread⟩ := returned_written hreturned
  refine ⟨img, hread, ?_⟩
  rw [validate_ok_iff, accepts_written_iff hw himg hsize]
  exact forall_congr' fun item => imp_congr_right fun _ => recordable_iff_readable item.chunk

section Backward

theorem written_accepted_letter :
    ∃ (count : Nat) (img : Image), (runWrite (fun _ => 0) "index" letterItems .empty
        (List.replicate count .ok)).fs.read "index" = some img.bytes ∧
      (validate img).result = .ok () := by
  have hw : Writable letterItems 1 := ⟨by decide, by decide, by decide, by decide⟩
  obtain ⟨count, hreturned⟩ :=
    write_returns (fun _ => 0) "index" hw (by decide +kernel) .empty
  obtain ⟨img, hread, hiff⟩ := written_accepted_iff _ _ _ _ _ hreturned
  refine ⟨count, img, hread, hiff.mpr fun item hitem => ?_⟩
  cases List.mem_singleton.mp hitem
  exact ⟨by decide, by decide⟩

/-- A chunk whose range ends before it begins. -/
def backwardItems : List IndexItem := [⟨⟨[97], [98], 1, 0, 0, 1⟩, [0x3F800000]⟩]

def backwardImage : Image :=
  ⟨indexImage (fun _ => 0) backwardItems 1, by decide +kernel⟩

/-- Every operation succeeds, the call returns, and the index it leaves cannot be opened. -/
theorem written_rejected :
    (runWrite (fun _ => 0) "index" backwardItems .empty
        (List.replicate 13 .ok)).phase = .returned ∧
      (runWrite (fun _ => 0) "index" backwardItems .empty
        (List.replicate 13 .ok)).fs.read "index" = some backwardImage.bytes ∧
      (validate backwardImage).result = .error (.runtimeError "index record is invalid") := by
  refine ⟨by decide +kernel, by decide +kernel, by decide +kernel⟩

end Backward

end CppRag
