import CppRag.DotProduct
import CppRag.SearchQuota
import Mathlib.Analysis.InnerProductSpace.PiL2
import Mathlib.Geometry.Euclidean.Angle.Unoriented.Basic

/-!
`cosine_similarity`. With real numbers for floats it is the cosine of the angle between its
arguments, in every build of `dot_product`; with the operations of `search` it is the score of an
item that is stored with the norm it computes.
-/
namespace CppRag.DotProduct
open Observed

/-- The operations of `cosine_similarity`. -/
structure RootArithmetic (R : Type) extends Arithmetic R where
  sqrt : R → R
  div : R → R → R
  isZero : R → Bool

def cosineSimilarity {R : Type} (ops : RootArithmetic R) (lhs rhs : List R) (build : Build) :
    Reader R := do
  let product ← dotProduct ops.toArithmetic lhs rhs build
  let lhsProduct ← dotProduct ops.toArithmetic lhs lhs build
  let lhsNorm := ops.sqrt lhsProduct
  let rhsProduct ← dotProduct ops.toArithmetic rhs rhs build
  let rhsNorm := ops.sqrt rhsProduct
  if ops.isZero lhsNorm || ops.isZero rhsNorm then pure ops.zero
  else pure (ops.div product (ops.mul lhsNorm rhsNorm))

/-! Over the real numbers. -/

section Real

noncomputable def RootArithmetic.ofReal : RootArithmetic ℝ where
  toArithmetic := .ofRing ℝ
  sqrt := Real.sqrt
  div := (· / ·)
  isZero x := decide (x = 0)

/-- The vector of a list. -/
noncomputable def vector (dimensions : Nat) (xs : List ℝ) : EuclideanSpace ℝ (Fin dimensions) :=
  WithLp.toLp 2 fun i => xs.getD i 0

theorem inner_vector (dimensions : Nat) (xs ys : List ℝ) :
    inner ℝ (vector dimensions xs) (vector dimensions ys) = partialSum xs ys dimensions := by
  rw [partialSum, Finset.sum_range, PiLp.inner_apply]
  refine Finset.sum_congr rfl fun i _ => ?_
  simp [vector, mul_comm]

theorem sqrt_partialSum (dimensions : Nat) (xs : List ℝ) :
    Real.sqrt (partialSum xs xs dimensions) = ‖vector dimensions xs‖ := by
  rw [← inner_vector, real_inner_self_eq_norm_sq, Real.sqrt_sq (norm_nonneg _)]

theorem dotProduct_result (build : Build) {lhs rhs : List ℝ} (h : lhs.length = rhs.length) :
    (dotProduct (.ofRing ℝ) lhs rhs build).result = .ok (partialSum lhs rhs lhs.length) := by
  have hreturns : Returns (Below lhs.length) (dotProduct (.ofRing ℝ) lhs rhs build)
      (partialSum lhs rhs lhs.length) := by
    refine returns_bind (returns_failIf (decide_eq_false (not_not.mpr h))) ?_
    cases build with
    | scalar => exact returns_tail lhs rhs 0 (Nat.zero_le _)
    | aarch64 => exact returns_blocks_tail lhs rhs .aarch64
    | neon => exact returns_blocks_tail lhs rhs .neon
    | sse2 => exact returns_blocks_tail lhs rhs .sse2
  exact hreturns.2

theorem dotProduct_mismatch {R : Type} (ops : Arithmetic R) (build : Build) {lhs rhs : List R}
    (h : lhs.length ≠ rhs.length) : (dotProduct ops lhs rhs build).result =
      .error (.invalidArgument "vector dimensions do not match") := by
  unfold dotProduct
  rw [decide_eq_true h]
  rfl

/-- For all vectors and in every build: vectors of equal length give the cosine of their angle,
which is 0 when one of them is the zero vector. -/
theorem cosineSimilarity_exact (build : Build) (lhs rhs : List ℝ) :
    (cosineSimilarity .ofReal lhs rhs build).result =
      if lhs.length = rhs.length then
        .ok (Real.cos (InnerProductGeometry.angle (vector lhs.length lhs)
          (vector lhs.length rhs)))
      else .error (.invalidArgument "vector dimensions do not match") := by
  split
  · rename_i h
    have hrhs : (dotProduct (.ofRing ℝ) rhs rhs build).result =
        .ok (partialSum rhs rhs lhs.length) := by
      rw [dotProduct_result build rfl, h]
    refine (bind_of_ok (dotProduct_result build h) _).trans ?_
    refine (bind_of_ok (dotProduct_result build rfl) _).trans ((bind_of_ok hrhs _).trans ?_)
    rw [InnerProductGeometry.cos_angle, inner_vector]
    change (if decide (Real.sqrt _ = 0) || decide (Real.sqrt _ = 0) then _ else _ :
      Reader ℝ).result = _
    rw [sqrt_partialSum, sqrt_partialSum]
    split
    · rename_i hzero
      have hproduct : ‖vector lhs.length lhs‖ * ‖vector lhs.length rhs‖ = 0 := by
        simpa using hzero
      rw [hproduct, div_zero]
      rfl
    · rw [← sqrt_partialSum, ← sqrt_partialSum]
      rfl
  · rename_i h
    exact bind_of_error (dotProduct_mismatch _ build h) _

end Real

/-! In `search`. -/

section Search
variable {K : Type} (ops : FloatOps K)

def RootArithmetic.ofFloats : RootArithmetic FloatBits where
  toArithmetic := .ofFloats ops
  sqrt := ops.sqrt
  div := ops.div
  isZero := ops.isZero

/-- An item stored with the norm that `cosine_similarity` computes is scored by it, bit for bit,
for a query that is not refused. -/
theorem scoreItem_cosine {index : MmapIndex} {i : Nat} {embedding query : List FloatBits}
    {norm : FloatBits} (hembedding : (index.embedding (UInt64.ofNat i)).result = .ok embedding)
    (hnorm : (index.norm (UInt64.ofNat i)).result =
      .ok (ops.sqrt (sumProducts ops (0, 0, 0, 0) embedding embedding)))
    (hquery : (queryNorm ops .cosine query).result = .ok norm) (hzero : ops.isZero norm = false) :
    (scoreItem ops index .cosine query norm i).result =
      (cosineSimilarity (.ofFloats ops) embedding query .sse2).result := by
  have hdot (xs ys : List FloatBits) :
      (dotProduct (RootArithmetic.ofFloats ops).toArithmetic xs ys .sse2).result =
        (CppRag.dotProduct ops xs ys).result := dotProduct_sse2 ops xs ys
  rw [queryNorm, bind_of_ok (CppRag.dotProduct_result rfl)] at hquery
  have hquery : ops.sqrt (sumProducts ops (0, 0, 0, 0) query query) = norm := Except.ok.inj hquery
  rw [scoreItem, bind_of_ok hembedding]
  by_cases hlength : embedding.length = query.length
  · have hproduct : (CppRag.dotProduct ops embedding query).result =
        .ok (sumProducts ops (0, 0, 0, 0) embedding query) := CppRag.dotProduct_result hlength
    rw [bind_of_ok hproduct, bind_of_ok hnorm]
    rw [cosineSimilarity, bind_of_ok ((hdot _ _).trans hproduct),
      bind_of_ok ((hdot _ _).trans (CppRag.dotProduct_result rfl)),
      bind_of_ok ((hdot _ _).trans (CppRag.dotProduct_result rfl))]
    simp only [RootArithmetic.ofFloats, hquery, hzero, Bool.or_false]
    split <;> rfl
  · have hproduct : (CppRag.dotProduct ops embedding query).result =
        .error (.invalidArgument "vector dimensions do not match") := by
      rw [← dotProduct_sse2, dotProduct_mismatch _ _ hlength]
    rw [bind_of_error hproduct, cosineSimilarity,
      bind_of_error ((hdot _ _).trans hproduct)]

end Search

/-- The first of the sample items, whose norm is exact. -/
theorem scoreItem_cosine_sample :
    (scoreItem sampleOps ⟨some sampleImage⟩ .cosine [oneF] oneF 0).result =
      (cosineSimilarity (.ofFloats sampleOps) [oneF] [oneF] .sse2).result :=
  scoreItem_cosine sampleOps (by decide +kernel) (by decide +kernel) rfl rfl

end CppRag.DotProduct
