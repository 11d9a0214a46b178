import CppRag.IndexSafety
import CppRag.Foundation.PriorityQueue
import Mathlib.Data.List.Sort
import Mathlib.Data.UInt

/-!
`search` over an open index: the score of every item, a bounded heap of results for
each chunk scale, and the merge of the heaps into one ranked, truncated list.

Float arithmetic is a parameter. `finite` is `std::isfinite` together with the value
of a finite float, the two zeros being one value, so results compare as `float`s do.
The heaps grow as they are filled; the room for the results is reserved from the memory.
-/
namespace CppRag
open Observed

structure FloatOps (K : Type) where
  add : FloatBits → FloatBits → FloatBits
  mul : FloatBits → FloatBits → FloatBits
  div : FloatBits → FloatBits → FloatBits
  sqrt : FloatBits → FloatBits
  isZero : FloatBits → Bool
  finite : FloatBits → Option K

/-- The bit pattern of `1.0F`; that of `0.0F` is 0. -/
def oneF : FloatBits := 0x3F800000

section Scores
variable {K : Type} (ops : FloatOps K)

/-- The four accumulator lanes of the SSE2 build, summed at the end of the full blocks,
and the remaining products one by one. The other builds add in another order. -/
def sumProducts : FloatBits × FloatBits × FloatBits × FloatBits → List FloatBits →
    List FloatBits → FloatBits
  | (l0, l1, l2, l3), x0 :: x1 :: x2 :: x3 :: xs, y0 :: y1 :: y2 :: y3 :: ys =>
      sumProducts (ops.add l0 (ops.mul x0 y0), ops.add l1 (ops.mul x1 y1),
        ops.add l2 (ops.mul x2 y2), ops.add l3 (ops.mul x3 y3)) xs ys
  | (l0, l1, l2, l3), xs, ys =>
      (xs.zip ys).foldl (fun sum pair => ops.add sum (ops.mul pair.1 pair.2))
        (ops.add (ops.add (ops.add l0 l1) l2) l3)

def dotProduct (lhs rhs : List FloatBits) : Checked FloatBits := do
  failIf (lhs.length ≠ rhs.length) (.invalidArgument "vector dimensions do not match")
  pure (sumProducts ops (0, 0, 0, 0) lhs rhs)

inductive Metric where
  | cosine
  | dotProduct
  deriving DecidableEq, Repr

structure SearchOptions where
  metric : Metric := .cosine
  maxPerScale : Nat := 0
  deriving DecidableEq, Repr

structure SearchResult (K : Type) where
  index : Nat
  score : K
  scale : UInt32
  scaleBytes : UInt32
  rankWithinScale : Nat
  deriving DecidableEq, Repr

def queryNorm (metric : Metric) (query : List FloatBits) : Checked FloatBits :=
  match metric with
  | .cosine => do
      let product ← dotProduct ops query query
      pure (ops.sqrt product)
  | .dotProduct => pure oneF

def scoreItem (index : MmapIndex) (metric : Metric) (query : List FloatBits)
    (norm : FloatBits) (i : Nat) : Checked FloatBits := do
  let embedding ← index.embedding (UInt64.ofNat i)
  let score ← dotProduct ops embedding query
  match metric with
  | .cosine => do
      let itemNorm ← index.norm (UInt64.ofNat i)
      pure (if ops.isZero itemNorm then 0 else ops.div score (ops.mul itemNorm norm))
  | .dotProduct => pure score

/-- The candidate for item `i`, none when its score is not finite. -/
def candidate (index : MmapIndex) (metric : Metric) (query : List FloatBits)
    (norm : FloatBits) (i : Nat) : Checked (Option (SearchResult K)) := do
  let score ← scoreItem ops index metric query norm i
  match ops.finite score with
  | none => pure none
  | some value => do
      let scale ← index.scale (UInt64.ofNat i)
      let scaleBytes ← index.scaleBytes (UInt64.ofNat i)
      pure (some ⟨i, value, scale, scaleBytes, 0⟩)

end Scores

section Search
variable {K : Type} [LinearOrder K]

def betterResult (lhs rhs : SearchResult K) : Bool :=
  if lhs.score ≠ rhs.score then lhs.score > rhs.score else lhs.index < rhs.index

variable (pq : PriorityQueue (SearchResult.score (K := K)))

abbrev PerScale : Type := Std.TreeMap UInt32 pq.Queue

def PerScale.add (heapSize : Nat) (perScale : PerScale pq) (c : SearchResult K) :
    PerScale pq :=
  perScale.alter c.scale fun best => some (pq.offer heapSize (best.getD pq.empty) c)

/-- Numbers the results of each scale from 1 on, in the order of the list. -/
def assignRanks (scaleRank : Std.TreeMap UInt32 Nat) :
    List (SearchResult K) → List (SearchResult K)
  | [] => []
  | result :: results =>
      let rank := scaleRank.getD result.scale 0 + 1
      { result with rankWithinScale := rank } ::
        assignRanks (scaleRank.insert result.scale rank) results

/-- The item loop: every finite candidate is offered to its scale's heap. -/
def scanItems (ops : FloatOps K) (index : MmapIndex) (metric : Metric)
    (query : List FloatBits) (norm : FloatBits) (heapSize count : Nat) :
    Checked (PerScale pq) :=
  foldRange count ∅ fun i perScale => do
    let c ← candidate ops index metric query norm i
    match c with
    | none => pure perScale
    | some c => pure (perScale.add pq heapSize c)

def drainHeaps (perScale : PerScale pq) : List (SearchResult K) :=
  perScale.toList.flatMap fun entry => pq.drain entry.2

def sortResults (results : List (SearchResult K)) : List (SearchResult K) :=
  results.insertionSort fun lhs rhs => betterResult rhs lhs = false

/-- What `search` does after its scan. -/
def mergeHeaps (topK : Nat) (perScale : PerScale pq) : List (SearchResult K) :=
  (assignRanks ∅ (sortResults (drainHeaps pq perScale))).take topK

/-- The bytes of a result. -/
def sizeofSearchResult : Nat := 32

/-- `results.reserve` for the heaps of so many scales. -/
def reserveResults (memory : Memory) (scales heapSize : Nat) : Except Exception Unit :=
  memory.reserve sizeofSearchResult (UInt64.ofNat scales * UInt64.ofNat heapSize)
    "vector::reserve"

/-- There is room for the results of so many scales. -/
def Memory.ReservesResults (memory : Memory) (scales heapSize : Nat) : Prop :=
  memory.Reserves sizeofSearchResult (UInt64.ofNat scales * UInt64.ofNat heapSize)

instance (memory : Memory) (scales heapSize : Nat) :
    Decidable (memory.ReservesResults scales heapSize) :=
  inferInstanceAs (Decidable (Memory.Reserves _ _ _))

theorem reserveResults_ok_iff {memory : Memory} {scales heapSize : Nat} :
    reserveResults memory scales heapSize = .ok () ↔ memory.ReservesResults scales heapSize :=
  Memory.reserve_ok_iff

def heapCapacity (topK maxPerScale : Nat) : Nat :=
  if maxPerScale = 0 then topK else min topK maxPerScale

def search (memory : Memory) (ops : FloatOps K) (index : MmapIndex) (query : List FloatBits)
    (topK : Nat) (options : SearchOptions) : Checked (List (SearchResult K)) := do
  let dimensions ← index.dimensions
  failIf (query.length ≠ dimensions.toNat)
    (.invalidArgument "query dimensions do not match index")
  let itemCount ← index.size
  if topK = 0 ∨ itemCount = 0 then pure []
  else do
    let norm ← queryNorm ops options.metric query
    if options.metric = .cosine ∧ ops.isZero norm then pure []
    else do
      let topK := min topK itemCount.toNat
      let heapSize := heapCapacity topK options.maxPerScale
      let perScale ← scanItems pq ops index options.metric query norm heapSize itemCount.toNat
      ofResult (reserveResults memory perScale.size heapSize)
      pure (mergeHeaps pq topK perScale)

end Search

end CppRag
