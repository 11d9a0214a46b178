import Mathlib.Data.List.Basic
import Mathlib.Tactic.Ring

/-!
The part of a list that starts at an offset and has a given size, and where the
parts of a concatenation lie. Out-of-range parts are cut short, as `List.take`
and `List.drop` cut them; the statements that need the full part carry its bound.
-/
namespace Slice
variable {α β : Type}

def slice (xs : List α) (offset size : Nat) : List α :=
  (xs.drop offset).take size

theorem length_slice (xs : List α) {offset size : Nat} (h : offset + size ≤ xs.length) :
    (slice xs offset size).length = size := by
  rw [slice, List.length_take, List.length_drop]
  omega

theorem slice_append_left (xs ys : List α) (size : Nat) (h : xs.length = size) :
    slice (xs ++ ys) 0 size = xs := by
  subst h
  simp [slice]

theorem slice_append_right (xs ys : List α) (offset size : Nat) (h : xs.length ≤ offset) :
    slice (xs ++ ys) offset size = slice ys (offset - xs.length) size := by
  simp only [slice, List.drop_append, List.drop_eq_nil_of_le h, List.nil_append]

theorem slice_self (xs : List α) (size : Nat) (h : xs.length = size) : slice xs 0 size = xs := by
  subst h
  simp [slice]

/-- The middle of a three-part concatenation. -/
theorem slice_middle (xs ys zs : List α) (offset size : Nat)
    (hx : xs.length = offset) (hy : ys.length = size) :
    slice (xs ++ (ys ++ zs)) offset size = ys := by
  rw [slice_append_right _ _ _ _ (by omega), hx, Nat.sub_self]
  exact slice_append_left ys zs size hy

/-- What is left of a range without its beginning. -/
theorem drop_slice (xs : List α) {first middle last : Nat} (hfirst : first ≤ middle)
    (hlast : middle ≤ last) :
    (slice xs first (last - first)).drop (middle - first) = slice xs middle (last - middle) := by
  rw [slice, List.drop_take, List.drop_drop, slice, Nat.add_sub_cancel' hfirst]
  congr 1
  omega

theorem slice_append_drop (xs : List α) {first last : Nat} (h : first ≤ last) :
    slice xs first (last - first) ++ xs.drop last = xs.drop first := by
  have hdrop : xs.drop last = (xs.drop first).drop (last - first) := by
    rw [List.drop_drop, Nat.add_sub_cancel' h]
  rw [hdrop, slice, List.take_append_drop]

theorem slice_slice (xs : List α) (offset size inner count : Nat) (h : inner + count ≤ size) :
    slice (slice xs offset size) inner count = slice xs (offset + inner) count := by
  simp only [slice, List.drop_take, List.drop_drop, List.take_take]
  rw [Nat.min_eq_left (by omega)]

theorem getElem?_slice (xs : List α) (offset : Nat) {size i : Nat} (h : i < size) :
    (slice xs offset size)[i]? = xs[offset + i]? := by
  rw [slice, List.getElem?_take_of_lt h, List.getElem?_drop]

/-- Parts that agree at every position are the same. -/
theorem slice_ext {xs ys : List α} {offset offset' size : Nat}
    (h : ∀ i, i < size → xs[offset + i]? = ys[offset' + i]?) :
    slice xs offset size = slice ys offset' size := by
  refine List.ext_getElem? fun i => ?_
  by_cases hi : i < size
  · rw [getElem?_slice _ _ hi, getElem?_slice _ _ hi, h i hi]
  · rw [List.getElem?_eq_none, List.getElem?_eq_none] <;> rw [slice, List.length_take] <;> omega

theorem slice_eq_replicate {xs : List α} {a : α} {offset size : Nat}
    (h : ∀ i, i < size → xs[offset + i]? = some a) :
    slice xs offset size = List.replicate size a := by
  refine List.ext_getElem? fun i => ?_
  by_cases hi : i < size
  · rw [getElem?_slice _ _ hi, List.getElem?_replicate_of_lt hi, h i hi]
  · rw [List.getElem?_eq_none, List.getElem?_eq_none]
    · rw [List.length_replicate]
      omega
    · rw [slice, List.length_take]
      omega

theorem slice_add (xs : List α) (offset first second : Nat) :
    slice xs offset (first + second) =
      slice xs offset first ++ slice xs (offset + first) second := by
  rw [slice, List.take_add, List.drop_drop]
  rfl

/-- A part read later loses its beginning and goes on behind its end. -/
theorem slice_shift (xs : List α) (offset : Nat) {size shift : Nat} (h : shift ≤ size) :
    slice xs (offset + shift) size =
      (slice xs offset size).drop shift ++ slice xs (offset + size) shift := by
  have hdrop : (slice xs offset size).drop shift = slice xs (offset + shift) (size - shift) := by
    rw [slice, List.drop_take, List.drop_drop, slice]
  rw [hdrop, show offset + size = offset + shift + (size - shift) by omega, ← slice_add,
    Nat.sub_add_cancel h]

/-! A function on positions that does not change under a shift within an interval. -/

section Shift
variable {f : Nat → α} {z : α} {first last shift : Nat}

/-- What its beginning is spreads upwards. -/
theorem const_of_shift_up (hshift : 0 < shift)
    (h : ∀ x, first ≤ x → x + shift < last → f (x + shift) = f x)
    (hfront : ∀ x, first ≤ x → x < first + shift → f x = z) :
    ∀ x, first ≤ x → x < last → f x = z := by
  intro x
  induction x using Nat.strongRecOn with
  | ind x ih =>
      intro hfirst hlast
      by_cases hx : x < first + shift
      · exact hfront x hfirst hx
      · have hback := h (x - shift) (by omega) (by omega)
        rw [Nat.sub_add_cancel (by omega)] at hback
        rw [hback]
        exact ih (x - shift) (by omega) (by omega) (by omega)

/-- What its end is spreads downwards. -/
theorem const_of_shift_down (hshift : 0 < shift)
    (h : ∀ x, first ≤ x → x + shift < last → f (x + shift) = f x)
    (hback : ∀ x, last ≤ x + shift → x < last → f x = z) :
    ∀ x, first ≤ x → x < last → f x = z := by
  intro x
  induction hrest : last - x using Nat.strongRecOn generalizing x with
  | ind rest ih =>
      intro hfirst hlast
      by_cases hx : last ≤ x + shift
      · exact hback x hx hlast
      · rw [← h x hfirst (by omega)]
        exact ih (last - (x + shift)) (by omega) (x + shift) rfl (by omega) (by omega)

end Shift

/-! One entry replaced. -/

theorem slice_set_other (xs : List α) (a : α) {p offset size : Nat}
    (h : p < offset ∨ offset + size ≤ p) :
    slice (xs.set p a) offset size = slice xs offset size :=
  slice_ext fun i hi => List.getElem?_set_ne (by omega)

theorem slice_set_ne (xs : List α) {a : α} {p offset size : Nat} (hlength : p < xs.length)
    (hne : xs[p]? ≠ some a) (hoffset : offset ≤ p) (hp : p < offset + size) :
    slice (xs.set p a) offset size ≠ slice xs offset size := by
  intro h
  have hat := congrArg (fun part => part[p - offset]?) h
  simp only [getElem?_slice _ _ (show p - offset < size by omega),
    Nat.add_sub_cancel' hoffset] at hat
  rw [List.getElem?_set_self hlength] at hat
  exact hne hat.symm

/-! Concatenations of parts of one size: a table of fixed-size entries. -/

theorem length_flatMap_const (f : β → List α) (size : Nat) (xs : List β)
    (h : ∀ x, x ∈ xs → (f x).length = size) : (xs.flatMap f).length = xs.length * size := by
  induction xs with
  | nil => simp
  | cons x xs ih =>
      simp only [List.flatMap_cons, List.length_append, List.length_cons]
      rw [h x List.mem_cons_self, ih (fun y hy => h y (List.mem_cons_of_mem x hy))]
      ring

theorem slice_flatMap_const (f : β → List α) (size : Nat) (xs : List β)
    (h : ∀ x, x ∈ xs → (f x).length = size) (i : Nat) (hi : i < xs.length) (ys : List α) :
    slice (xs.flatMap f ++ ys) (i * size) size = f xs[i] := by
  induction xs generalizing i with
  | nil => exact absurd hi (Nat.not_lt_zero i)
  | cons x xs ih =>
      have hx := h x List.mem_cons_self
      rw [List.flatMap_cons, List.append_assoc]
      cases i with
      | zero => simpa using slice_append_left _ _ size hx
      | succ i =>
          have hle : (f x).length ≤ (i + 1) * size := by
            rw [hx, Nat.succ_mul]
            exact Nat.le_add_left size (i * size)
          have hsub : (i + 1) * size - (f x).length = i * size := by
            rw [hx, Nat.succ_mul, Nat.add_sub_cancel]
          rw [slice_append_right _ _ _ _ hle, hsub]
          exact ih (fun y hy => h y (List.mem_cons_of_mem x hy)) i (Nat.lt_of_succ_lt_succ hi)

/-- An entry of a concatenation of parts of any sizes lies after the parts before it. -/
theorem slice_flatMap (f : β → List α) (xs : List β) (ys : List α) (i : Nat)
    (hi : i < xs.length) :
    slice (xs.flatMap f ++ ys) ((xs.take i).flatMap f).length (f xs[i]).length = f xs[i] := by
  have hsplit : xs.flatMap f ++ ys =
      (xs.take i).flatMap f ++ (f xs[i] ++ ((xs.drop (i + 1)).flatMap f ++ ys)) := by
    conv_lhs => rw [← List.take_append_drop i xs, List.drop_eq_getElem_cons hi]
    simp only [List.flatMap_append, List.flatMap_cons, List.append_assoc]
  rw [hsplit]
  exact slice_middle _ _ _ _ _ rfl rfl

end Slice
