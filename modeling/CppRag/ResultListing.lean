import CppRag.ShellCommand
import CppRag.Foundation.HeadedRecords
import CppRag.Foundation.Slice

/-!
What the evaluation harness reads from a command: the output of the pipe, line by line through
a buffer, and the results listed in it, each from a line that begins with `score=` to the next.
-/
namespace CppRag
open Characters Occurrences HeadedRecords Slice

/-! The pipe. -/

/-- `sizeof buffer` in `run_command`. -/
def bufferSize : Nat := 4096

/-- What `fgets` puts in the buffer: the rest of a line with its end, as far as it fits. -/
def fgets (input : Bytes) : Bytes :=
  let fits := input.take (bufferSize - 1)
  fits.take ((fits.takeWhile (· ≠ newline)).length + 1)

theorem length_fgets_pos {input : Bytes} (h : input ≠ []) : 0 < (fgets input).length := by
  have hpos := List.length_pos_of_ne_nil h
  simp only [fgets, bufferSize, List.length_take]
  omega

/-- The `text` of the output: the buffer is appended as a C string. -/
def pipeText (input : Bytes) : Bytes :=
  if _h : input = [] then []
  else cStr (fgets input) ++ pipeText (input.drop (fgets input).length)
termination_by input.length
decreasing_by
  have := length_fgets_pos _h
  have := List.length_pos_of_ne_nil _h
  rw [List.length_drop]
  omega

def scoreHeader : Bytes := ascii "score="

/-- `push` of `parse_chunks`. -/
def pushChunk (text : Bytes) (start stop : Nat) : List Bytes :=
  if stop > start then [slice text start (stop - start)] else []

/-- The loop of `parse_chunks`, from the result that begins at `start` on. -/
def chunksFrom (text : Bytes) (start : Nat) : List Bytes :=
  if start < text.length then
    match find (newline :: scoreHeader) (text.drop (start + 1)) with
    | none => pushChunk text start text.length
    | some offset =>
        let next := start + 1 + offset
        pushChunk text start (next + 1) ++ chunksFrom text (next + 1)
  else []
termination_by text.length - start

def parseChunks (text : Bytes) : List Bytes :=
  match find scoreHeader text with
  | none => []
  | some start =>
      if start ≠ 0 ∧ text.getD (start - 1) 0 ≠ newline then [] else chunksFrom text start

end CppRag
