import Mathlib.Data.List.Basic

/-!
Output to a seekable file: what a sequence of writes and seeks leaves in it.
-/
namespace OutputStream

/-- The contents after `data` is written at `position`; a gap before the position
reads as zero bytes, and writing nothing leaves none. -/
def overwrite (contents : List UInt8) (position : Nat) (data : List UInt8) : List UInt8 :=
  if data = [] then contents
  else
    contents.take position ++ List.replicate (position - contents.length) 0 ++ data ++
      contents.drop (position + data.length)

inductive StreamOp where
  | write (data : List UInt8)
  | seekp (position : Nat)
  deriving DecidableEq, Repr

/-- An open file: its contents and the position the next write starts at. -/
structure File where
  contents : List UInt8
  position : Nat
  deriving DecidableEq, Repr

def File.empty : File := ⟨[], 0⟩

def StreamOp.apply (file : File) : StreamOp → File
  | .write data => ⟨overwrite file.contents file.position data, file.position + data.length⟩
  | .seekp position => ⟨file.contents, position⟩

def File.run (file : File) (ops : List StreamOp) : File :=
  ops.foldl StreamOp.apply file

theorem File.run_append (file : File) (first second : List StreamOp) :
    file.run (first ++ second) = (file.run first).run second :=
  List.foldl_append

theorem length_overwrite_le (contents : List UInt8) (position : Nat) (data : List UInt8) :
    (overwrite contents position data).length ≤
      max contents.length (position + data.length) := by
  unfold overwrite
  split
  · exact Nat.le_max_left _ _
  · simp only [List.length_append, List.length_take, List.length_replicate, List.length_drop]
    omega

theorem overwrite_end (contents data : List UInt8) :
    overwrite contents contents.length data = contents ++ data := by
  unfold overwrite
  split
  · next hdata => rw [hdata, List.append_nil]
  · simp

/-- Rewriting the front replaces exactly the bytes it covers. -/
theorem overwrite_front (front new rest : List UInt8) (h : new.length = front.length) :
    overwrite (front ++ rest) 0 new = new ++ rest := by
  unfold overwrite
  split
  · next hnew =>
      rw [hnew, List.length_nil] at h
      rw [hnew, List.eq_nil_of_length_eq_zero h.symm]
  · simp [h]

/-- Writes in sequence append their concatenation to a file positioned at its end. -/
theorem File.run_writes (contents : List UInt8) (pieces : List (List UInt8)) :
    File.run ⟨contents, contents.length⟩ (pieces.map .write) =
      ⟨contents ++ pieces.flatten, (contents ++ pieces.flatten).length⟩ := by
  induction pieces generalizing contents with
  | nil => simp [File.run]
  | cons piece pieces ih =>
      have hstep : StreamOp.apply ⟨contents, contents.length⟩ (.write piece) =
          ⟨contents ++ piece, (contents ++ piece).length⟩ := by
        simp only [StreamOp.apply, overwrite_end, List.length_append]
      have htail := ih (contents ++ piece)
      simp only [File.run, List.map_cons, List.foldl_cons, List.flatten_cons] at htail ⊢
      rw [hstep, htail, List.append_assoc]

/-- A front written as a placeholder, a payload in pieces, and the front again. -/
theorem File.run_front_rewritten (placeholder front : List UInt8) (pieces : List (List UInt8))
    (h : front.length = placeholder.length) :
    (File.empty.run
      ((placeholder :: pieces).map .write ++ [.seekp 0, .write front])).contents =
        front ++ pieces.flatten := by
  have hwrites := File.run_writes [] (placeholder :: pieces)
  have hempty : File.empty = ⟨[], ([] : List UInt8).length⟩ := rfl
  rw [File.run_append, hempty, hwrites]
  simp only [File.run, List.nil_append, List.flatten_cons, List.foldl_cons, List.foldl_nil,
    StreamOp.apply]
  exact overwrite_front placeholder front pieces.flatten h

end OutputStream
