import CppRag.Chunker
import CppRag.PromptBuilder
import CppRag.Foundation.Numerals

/-!
What the commands of the program share: how they fail, the stop sequences they give to the
generator, and the options with unsigned values. Arguments are C strings: they hold no NUL
and are given by their characters.
-/
namespace CppRag
open Characters Numerals

/-- A command prints its usage with an error and exits, or an exception reaches `main`. -/
inductive Failure where
  | usage (error : Bytes)
  | exception (exception : Exception)
  deriving DecidableEq, Repr

def chatStopSequences : List Bytes :=
  [ascii "<|im_end|>", ascii "<|im_start|>", ascii "|im_end|", ascii "|im_start|"]

/-- Whatever `stoull` throws, and a value with characters after it, are the same error. -/
def sizeValue (option value : Bytes) : Except Failure UInt64 :=
  match stoull isSpace value with
  | .error _ => .error (.usage (ascii "invalid numeric value for " ++ option))
  | .ok (result, consumed) =>
      if consumed ≠ value.length then
        .error (.usage (ascii "invalid numeric value for " ++ option))
      else .ok result

def parseScale (item : Bytes) : Except Failure ChunkOptions :=
  match item.dropWhile (· ≠ colon) with
  | [] => .error (.usage (ascii "--scales expects BYTES:OVERLAP[,BYTES:OVERLAP...]"))
  | _ :: after => do
      let bytes ← sizeValue (ascii "--scales") (item.takeWhile (· ≠ colon))
      let overlap ← sizeValue (ascii "--scales") after
      if bytes = 0 ∨ overlap ≥ bytes then
        .error (.usage (ascii "--scales needs 0 < overlap < bytes in every pair"))
      else pure ⟨bytes, overlap⟩

/-- The loop over the items, from the beginning of one on. -/
def parseScalesFrom (spec : Bytes) : Except Failure (List ChunkOptions) :=
  match _hrest : spec.dropWhile (· ≠ comma) with
  | [] => do
      let scale ← parseScale (spec.takeWhile (· ≠ comma))
      pure [scale]
  | _ :: rest => do
      let scale ← parseScale (spec.takeWhile (· ≠ comma))
      let scales ← parseScalesFrom rest
      pure (scale :: scales)
termination_by spec.length
decreasing_by
  have hle := (spec.dropWhile_sublist (· ≠ comma)).length_le
  rw [_hrest, List.length_cons] at hle
  omega

def parseScales (spec : Bytes) : Except Failure (List ChunkOptions) :=
  if spec.isEmpty then pure [] else parseScalesFrom spec

end CppRag
