import Mathlib.Algebra.Group.Nat.Defs
import Mathlib.Data.List.Basic

/-!
Values shared by the indexer, the chunker and the prompt builder. Strings are byte
strings: nothing in the pipeline inspects them as text except the chunker, which
looks at UTF-8 continuation bits and whitespace. A `float` is its bit pattern; the
operations on floats are parameters of the functions that use them.
-/
namespace CppRag

abbrev Bytes := List UInt8

abbrev FloatBits := UInt32

/-- The standard exceptions thrown by the library, with their `what()` text. -/
inductive Exception where
  | invalidArgument (what : String)
  | lengthError (what : String)
  | logicError (what : String)
  | outOfRange (what : String)
  | runtimeError (what : String)
  /-- With the text the code gives it; `what()` goes on with that of the error code. -/
  | systemError (text : String)
  /-- From the file-system library, whose text is not the code's, with the path it names. -/
  | filesystemError (path : String)
  | badAlloc
  deriving DecidableEq, Repr

/-- What is granted when room is reserved by an estimate of what will be stored. What is stored
is taken to fit. -/
structure Memory where
  /-- There is room for so many bytes, in the container itself or in a block. -/
  grants : Nat → Bool

def Memory.unbounded : Memory := ⟨fun _ => true⟩

/-- The largest `std::ptrdiff_t`, which bounds the bytes of a container. -/
def maxPtrdiff : Nat := 2 ^ 63 - 1

/-- `reserve` of an empty container for `count` elements of `size` bytes. -/
def Memory.reserve (memory : Memory) (size : Nat) (count : UInt64) (tooLong : String) :
    Except Exception Unit :=
  if count.toNat > maxPtrdiff / size then throw (.lengthError tooLong)
  else if count ≠ 0 ∧ !memory.grants (count.toNat * size) then throw .badAlloc
  else pure ()

/-- The reservation returns. -/
def Memory.Reserves (memory : Memory) (size : Nat) (count : UInt64) : Prop :=
  count.toNat ≤ maxPtrdiff / size ∧ (count = 0 ∨ memory.grants (count.toNat * size) = true)

instance (memory : Memory) (size : Nat) (count : UInt64) :
    Decidable (memory.Reserves size count) :=
  inferInstanceAs (Decidable (_ ∧ _))

theorem Memory.reserve_ok_iff {memory : Memory} {size : Nat} {count : UInt64}
    {tooLong : String} :
    memory.reserve size count tooLong = .ok () ↔ memory.Reserves size count := by
  rw [Memory.reserve, Memory.Reserves]
  split
  · next hlong => exact iff_of_false nofun fun h => Nat.not_lt.mpr h.1 hlong
  · next hshort =>
      split
      · next hrefused =>
          refine iff_of_false nofun fun h => ?_
          rcases h.2 with hzero | hgrants
          · exact hrefused.1 hzero
          · simp [hgrants] at hrefused
      · next hgranted =>
          refine iff_of_true rfl ⟨Nat.not_lt.mp hshort, ?_⟩
          by_cases hzero : count = 0
          · exact .inl hzero
          · exact .inr (by simpa [hzero] using hgranted)

structure Chunk where
  source : Bytes
  text : Bytes
  byteBegin : UInt64
  byteEnd : UInt64
  scale : UInt32
  scaleBytes : UInt32
  deriving DecidableEq, Repr

structure IndexItem where
  chunk : Chunk
  embedding : List FloatBits
  deriving DecidableEq, Repr

end CppRag
