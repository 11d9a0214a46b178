import CppRag.VectorSearch
import Mathlib.Algebra.BigOperators.Fin
import Mathlib.Tactic.Ring

/-!
`dot_product` as each build compiles it: the loop over blocks of four with one accumulator a
lane, the sum over the lanes, and the loop over the elements after the last block. The float
operations are a parameter. Over a commutative ring all builds return the same sum; with the
operations of `search` the SSE2 build is the one `search` calls.
-/
namespace CppRag.DotProduct
open Observed

structure Arithmetic (R : Type) where
  zero : R
  add : R → R → R
  mul : R → R → R

def Arithmetic.ofRing (R : Type) [CommRing R] : Arithmetic R := ⟨0, (· + ·), (· * ·)⟩

/-- What the preprocessor selects. The intrinsics of Arm come with two sums over the lanes. -/
inductive Build where
  | aarch64
  | neon
  | sse2
  | scalar
  deriving DecidableEq, Repr

/-- An element of one of the spans. -/
inductive ElementRead where
  | lhs (i : Nat)
  | rhs (i : Nat)
  deriving DecidableEq, Repr

def ElementRead.index : ElementRead → Nat
  | .lhs i => i
  | .rhs i => i

abbrev Reader (α : Type) : Type := Observed ElementRead Exception α

/-- `float32x4_t`, `__m128` -/
structure Lanes (R : Type) where
  lane0 : R
  lane1 : R
  lane2 : R
  lane3 : R

section Code
variable {R : Type} (ops : Arithmetic R)

def element (side : Nat → ElementRead) (xs : List R) (i : Nat) : Reader R := do
  report (side i)
  pure (xs.getD i ops.zero)

/-- `vld1q_f32`, `_mm_loadu_ps` -/
def load (side : Nat → ElementRead) (xs : List R) (i : Nat) : Reader (Lanes R) := do
  let x0 ← element ops side xs i
  let x1 ← element ops side xs (i + 1)
  let x2 ← element ops side xs (i + 2)
  let x3 ← element ops side xs (i + 3)
  pure ⟨x0, x1, x2, x3⟩

/-- `vdupq_n_f32(0.0F)`, `_mm_setzero_ps` -/
def Lanes.zero : Lanes R := ⟨ops.zero, ops.zero, ops.zero, ops.zero⟩

/-- `vmlaq_f32`, and `_mm_add_ps` of a `_mm_mul_ps` -/
def Lanes.mulAdd (accumulator x y : Lanes R) : Lanes R :=
  ⟨ops.add accumulator.lane0 (ops.mul x.lane0 y.lane0),
    ops.add accumulator.lane1 (ops.mul x.lane1 y.lane1),
    ops.add accumulator.lane2 (ops.mul x.lane2 y.lane2),
    ops.add accumulator.lane3 (ops.mul x.lane3 y.lane3)⟩

/-- `vaddvq_f32`; `vadd_f32` of the halves and `vpadd_f32`; or the sum of the stored lanes. -/
def Lanes.sum (build : Build) (accumulator : Lanes R) : R :=
  match build with
  | .aarch64 =>
      ops.add (ops.add accumulator.lane0 accumulator.lane1)
        (ops.add accumulator.lane2 accumulator.lane3)
  | .neon =>
      ops.add (ops.add accumulator.lane0 accumulator.lane2)
        (ops.add accumulator.lane1 accumulator.lane3)
  | _ =>
      ops.add (ops.add (ops.add accumulator.lane0 accumulator.lane1) accumulator.lane2)
        accumulator.lane3

variable (lhs rhs : List R)

/-- The loop over the blocks: the index after them and the accumulator. -/
def blocks (i : Nat) (accumulator : Lanes R) : Reader (Nat × Lanes R) :=
  if i + 4 ≤ lhs.length then do
    let x ← load ops .lhs lhs i
    let y ← load ops .rhs rhs i
    blocks (i + 4) (accumulator.mulAdd ops x y)
  else pure (i, accumulator)
termination_by lhs.length - i

/-- The last loop. -/
def tail (i : Nat) (sum : R) : Reader R :=
  if i < lhs.length then do
    let x ← element ops .lhs lhs i
    let y ← element ops .rhs rhs i
    tail (i + 1) (ops.add sum (ops.mul x y))
  else pure sum
termination_by lhs.length - i

def dotProduct (build : Build) : Reader R := do
  failIf (lhs.length ≠ rhs.length) (.invalidArgument "vector dimensions do not match")
  match build with
  | .scalar => tail ops lhs rhs 0 ops.zero
  | build => do
      let (i, accumulator) ← blocks ops lhs rhs 0 (Lanes.zero ops)
      tail ops lhs rhs i (accumulator.sum ops build)

end Code

/-! Over a ring. -/

section Ring
variable {R : Type} [CommRing R] (lhs rhs : List R)

/-- The sum of the first `i` products. -/
def partialSum (i : Nat) : R := ∑ j ∈ Finset.range i, lhs.getD j 0 * rhs.getD j 0

theorem partialSum_succ (i : Nat) :
    partialSum lhs rhs (i + 1) = partialSum lhs rhs i + lhs.getD i 0 * rhs.getD i 0 :=
  Finset.sum_range_succ _ i

/-- What the lanes hold together. -/
def Lanes.total (accumulator : Lanes R) : R :=
  accumulator.lane0 + accumulator.lane1 + accumulator.lane2 + accumulator.lane3

/-- Every lane is counted once, in whatever order. -/
theorem Lanes.sum_eq_total (build : Build) (accumulator : Lanes R) :
    accumulator.sum (.ofRing R) build = accumulator.total := by
  cases build with
  | aarch64 =>
      change (_ + _) + (_ + _) = _ + _ + _ + _
      ring
  | neon =>
      change (_ + _) + (_ + _) = _ + _ + _ + _
      ring
  | sse2 => rfl
  | scalar => rfl

/-- A block adds its four products, one to each lane. -/
theorem Lanes.total_mulAdd (accumulator x y : Lanes R) :
    (accumulator.mulAdd (.ofRing R) x y).total = accumulator.total + x.lane0 * y.lane0 +
      x.lane1 * y.lane1 + x.lane2 * y.lane2 + x.lane3 * y.lane3 := by
  change accumulator.lane0 + x.lane0 * y.lane0 + (accumulator.lane1 + x.lane1 * y.lane1) +
      (accumulator.lane2 + x.lane2 * y.lane2) + (accumulator.lane3 + x.lane3 * y.lane3) =
    accumulator.lane0 + accumulator.lane1 + accumulator.lane2 + accumulator.lane3 +
      x.lane0 * y.lane0 + x.lane1 * y.lane1 + x.lane2 * y.lane2 + x.lane3 * y.lane3
  ring

/-- An element that a loop below `n` reads. -/
def Below (n : Nat) (read : ElementRead) : Prop := read.index < n

theorem returns_element {n i : Nat} (h : i < n) (side : Nat → ElementRead)
    (hside : (side i).index = i) (xs : List R) :
    Returns (Below n) (element (.ofRing R) side xs i) (xs.getD i 0) := by
  refine returns_bind (returns_report ?_) returns_pure
  rw [Below, hside]
  exact h

theorem returns_load {n i : Nat} (h : i + 4 ≤ n) (side : Nat → ElementRead)
    (hside : ∀ i, (side i).index = i) (xs : List R) :
    Returns (Below n) (load (.ofRing R) side xs i)
      ⟨xs.getD i 0, xs.getD (i + 1) 0, xs.getD (i + 2) 0, xs.getD (i + 3) 0⟩ := by
  refine returns_bind (returns_element (by omega) side (hside _) xs) ?_
  refine returns_bind (returns_element (by omega) side (hside _) xs) ?_
  refine returns_bind (returns_element (by omega) side (hside _) xs) ?_
  exact returns_bind (returns_element (by omega) side (hside _) xs) returns_pure

/-- The invariant of the last loop: the sum of the products before the index. -/
theorem returns_tail (i : Nat) (h : i ≤ lhs.length) :
    Returns (Below lhs.length) (tail (.ofRing R) lhs rhs i (partialSum lhs rhs i))
      (partialSum lhs rhs lhs.length) := by
  generalize hsum : partialSum lhs rhs i = sum
  induction i, sum using tail.induct (.ofRing R) lhs with
  | case1 i sum hlt ih =>
      rw [tail, if_pos hlt]
      refine returns_bind (returns_element hlt .lhs rfl lhs) ?_
      refine returns_bind (returns_element hlt .rhs rfl rhs) ?_
      refine ih _ _ hlt ?_
      rw [partialSum_succ, hsum]
      rfl
  | case2 i sum hge =>
      rw [tail, if_neg hge, ← hsum, Nat.le_antisymm h (Nat.not_lt.mp hge)]
      exact returns_pure

/-- The invariant of the loop over the blocks: the lanes hold the products before the index. -/
theorem returns_blocks (i : Nat) (accumulator : Lanes R) (h : i ≤ lhs.length)
    (htotal : accumulator.total = partialSum lhs rhs i) :
    ∃ last lanes, last ≤ lhs.length ∧ lanes.total = partialSum lhs rhs last ∧
      Returns (Below lhs.length) (blocks (.ofRing R) lhs rhs i accumulator) (last, lanes) := by
  induction i, accumulator using blocks.induct (.ofRing R) lhs with
  | case1 i accumulator hle ih =>
      have hstep : (accumulator.mulAdd (.ofRing R)
          ⟨lhs.getD i 0, lhs.getD (i + 1) 0, lhs.getD (i + 2) 0, lhs.getD (i + 3) 0⟩
          ⟨rhs.getD i 0, rhs.getD (i + 1) 0, rhs.getD (i + 2) 0, rhs.getD (i + 3) 0⟩).total =
          partialSum lhs rhs (i + 4) := by
        rw [Lanes.total_mulAdd, htotal, partialSum_succ, partialSum_succ, partialSum_succ,
          partialSum_succ]
      obtain ⟨last, lanes, hlast, hlanes, hreturns⟩ := ih _ _ hle hstep
      refine ⟨last, lanes, hlast, hlanes, ?_⟩
      rw [blocks, if_pos hle]
      refine returns_bind (returns_load hle .lhs (fun _ => rfl) lhs) ?_
      exact returns_bind (returns_load hle .rhs (fun _ => rfl) rhs) hreturns
  | case2 i accumulator hgt =>
      refine ⟨i, accumulator, h, htotal, ?_⟩
      rw [blocks, if_neg hgt]
      exact returns_pure

theorem returns_blocks_tail (build : Build) :
    Returns (Below lhs.length)
      (blocks (.ofRing R) lhs rhs 0 (Lanes.zero (.ofRing R)) >>= fun state =>
        tail (.ofRing R) lhs rhs state.1 (state.2.sum (.ofRing R) build))
      (partialSum lhs rhs lhs.length) := by
  have hzero : (Lanes.zero (.ofRing R)).total = partialSum lhs rhs 0 := by
    change (0 : R) + 0 + 0 + 0 = 0
    ring
  obtain ⟨last, lanes, hlast, hlanes, hreturns⟩ :=
    returns_blocks lhs rhs 0 (Lanes.zero (.ofRing R)) (Nat.zero_le _) hzero
  refine returns_bind hreturns ?_
  rw [Lanes.sum_eq_total, hlanes]
  exact returns_tail lhs rhs last hlast

end Ring

/-- Every build returns the sum of the products and reads elements of the vectors only. -/
theorem dotProduct_exact {R : Type} [CommRing R] (build : Build) (lhs rhs : List R)
    (h : lhs.length = rhs.length) :
    (dotProduct (.ofRing R) lhs rhs build).result =
      .ok (∑ i : Fin lhs.length, lhs.get i * rhs.get (i.cast h)) ∧
    ∀ read ∈ (dotProduct (.ofRing R) lhs rhs build).events, read.index < lhs.length := by
  have hsum : partialSum lhs rhs lhs.length =
      ∑ i : Fin lhs.length, lhs.get i * rhs.get (i.cast h) := by
    rw [partialSum, Finset.sum_range]
    refine Finset.sum_congr rfl fun i _ => ?_
    rw [List.getD_eq_getElem?_getD, List.getD_eq_getElem?_getD, List.getElem?_eq_getElem i.isLt,
      List.getElem?_eq_getElem (h ▸ i.isLt)]
    rfl
  have hreturns : Returns (Below lhs.length) (dotProduct (.ofRing R) lhs rhs build)
      (partialSum lhs rhs lhs.length) := by
    refine returns_bind (returns_failIf (decide_eq_false (not_not.mpr h))) ?_
    cases build with
    | scalar => exact returns_tail lhs rhs 0 (Nat.zero_le _)
    | aarch64 => exact returns_blocks_tail lhs rhs .aarch64
    | neon => exact returns_blocks_tail lhs rhs .neon
    | sse2 => exact returns_blocks_tail lhs rhs .sse2
  rw [← hsum]
  exact ⟨hreturns.2, hreturns.1⟩

/-- One block and one element after it. -/
theorem dotProduct_exact_five :
    (dotProduct (.ofRing Int) [1, 2, 3, 4, 5] [6, 7, 8, 9, 10] .neon).result =
      .ok (∑ i : Fin 5, ([1, 2, 3, 4, 5] : List Int).get i * [6, 7, 8, 9, 10].get i) ∧
    ∀ read ∈ (dotProduct (.ofRing Int) [1, 2, 3, 4, 5] [6, 7, 8, 9, 10] .neon).events,
      read.index < 5 :=
  dotProduct_exact .neon [1, 2, 3, 4, 5] [6, 7, 8, 9, 10] rfl

/-! The build that `search` calls, on its own operations. -/

def Arithmetic.ofFloats {K : Type} (ops : FloatOps K) : Arithmetic FloatBits :=
  ⟨0, ops.add, ops.mul⟩

theorem drop_eq_getD_cons {R : Type} (xs : List R) {i : Nat} (h : i < xs.length) (default : R) :
    xs.drop i = xs.getD i default :: xs.drop (i + 1) := by
  rw [List.drop_eq_getElem_cons h, List.getD_eq_getElem?_getD, List.getElem?_eq_getElem h]
  rfl

theorem drop_eq_block {R : Type} (xs : List R) {i : Nat} (h : i + 4 ≤ xs.length) (default : R) :
    xs.drop i = xs.getD i default :: xs.getD (i + 1) default :: xs.getD (i + 2) default ::
      xs.getD (i + 3) default :: xs.drop (i + 4) := by
  rw [drop_eq_getD_cons xs (by omega) default,
    drop_eq_getD_cons xs (show i + 1 < xs.length by omega) default,
    drop_eq_getD_cons xs (show i + 2 < xs.length by omega) default,
    drop_eq_getD_cons xs (show i + 3 < xs.length by omega) default]

section Search
variable {K : Type} (ops : FloatOps K) {lhs rhs : List FloatBits}

theorem tail_result (h : lhs.length = rhs.length) (i : Nat) (sum : FloatBits) :
    (tail (.ofFloats ops) lhs rhs i sum).result = .ok (((lhs.drop i).zip (rhs.drop i)).foldl
      (fun sum pair => ops.add sum (ops.mul pair.1 pair.2)) sum) := by
  induction i, sum using tail.induct (.ofFloats ops) lhs with
  | case1 i sum hlt ih =>
      rw [tail, if_pos hlt, drop_eq_getD_cons lhs hlt 0, drop_eq_getD_cons rhs (h ▸ hlt) 0,
        List.zip_cons_cons, List.foldl_cons]
      exact ih _ _
  | case2 i sum hge =>
      rw [tail, if_neg hge, List.drop_eq_nil_of_le (Nat.not_lt.mp hge), List.zip_nil_left]
      rfl

/-- Without a full block the products are added one by one. -/
theorem sumProducts_short (l0 l1 l2 l3 : FloatBits) {xs : List FloatBits} (ys : List FloatBits)
    (h : xs.length < 4) :
    sumProducts ops (l0, l1, l2, l3) xs ys =
      (xs.zip ys).foldl (fun sum pair => ops.add sum (ops.mul pair.1 pair.2))
        (ops.add (ops.add (ops.add l0 l1) l2) l3) := by
  match xs with
  | [] => rfl
  | [_] => rfl
  | [_, _] => rfl
  | [_, _, _] => rfl
  | _ :: _ :: _ :: _ :: _ =>
      simp only [List.length_cons] at h
      omega

/-- The loop over the blocks is the recursion over four elements of each list. -/
theorem blocks_result (h : lhs.length = rhs.length) (i : Nat) (accumulator : Lanes FloatBits) :
    ∃ last lanes, (blocks (.ofFloats ops) lhs rhs i accumulator).result = .ok (last, lanes) ∧
      lhs.length < last + 4 ∧
      sumProducts ops
        (accumulator.lane0, accumulator.lane1, accumulator.lane2, accumulator.lane3)
        (lhs.drop i) (rhs.drop i) =
      sumProducts ops (lanes.lane0, lanes.lane1, lanes.lane2, lanes.lane3) (lhs.drop last)
        (rhs.drop last) := by
  induction i, accumulator using blocks.induct (.ofFloats ops) lhs with
  | case1 i accumulator hle ih =>
      obtain ⟨last, lanes, hresult, hlast, hsum⟩ :=
        ih ⟨lhs.getD i 0, lhs.getD (i + 1) 0, lhs.getD (i + 2) 0, lhs.getD (i + 3) 0⟩
          ⟨rhs.getD i 0, rhs.getD (i + 1) 0, rhs.getD (i + 2) 0, rhs.getD (i + 3) 0⟩
      refine ⟨last, lanes, ?_, hlast, ?_⟩
      · rw [blocks, if_pos hle]
        exact (bind_of_ok rfl _).trans ((bind_of_ok rfl _).trans hresult)
      · rw [← hsum, drop_eq_block lhs hle 0, drop_eq_block rhs (h ▸ hle) 0, sumProducts]
        rfl
  | case2 i accumulator hgt =>
      refine ⟨i, accumulator, ?_, Nat.not_le.mp hgt, rfl⟩
      rw [blocks, if_neg hgt]
      rfl

/-- `dot_product` as `search` models it. -/
theorem dotProduct_sse2 (lhs rhs : List FloatBits) :
    (dotProduct (.ofFloats ops) lhs rhs .sse2).result =
      (CppRag.dotProduct ops lhs rhs).result := by
  by_cases h : lhs.length = rhs.length
  · have hcheck : decide (lhs.length ≠ rhs.length) = false := decide_eq_false (not_not.mpr h)
    obtain ⟨last, lanes, hresult, hlast, hsum⟩ := blocks_result ops h 0 (Lanes.zero (.ofFloats ops))
    have hshort : (lhs.drop last).length < 4 := by
      rw [List.length_drop]
      omega
    rw [sumProducts_short ops _ _ _ _ _ hshort] at hsum
    rw [dotProduct, CppRag.dotProduct, hcheck]
    · refine (bind_of_ok hresult _).trans ((tail_result ops h last _).trans ?_)
      exact congrArg Except.ok hsum.symm
    · nofun
  · have hcheck : decide (lhs.length ≠ rhs.length) = true := decide_eq_true h
    rw [dotProduct, CppRag.dotProduct, hcheck]
    · rfl
    · nofun

end Search

end CppRag.DotProduct
