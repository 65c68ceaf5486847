import Mathlib.Algebra.Order.BigOperators.Group.List
import Mathlib.Algebra.Order.Field.Basic
import Mathlib.Data.List.DropRight
import Mathlib.Data.List.Sort
import Mathlib.Tactic.FieldSimp

/-!
# Samples — the last values of a series, and their ranks

A `deque` with a maximal length keeps the last values.  An element of a sorted list has as many
elements that are not above it as its index says, so that the index gives a percentile.  A mean
depends on the arithmetic: `sum` rounds at every step.
-/

namespace PyStd

variable {α : Type*}

/-! ## Bounded buffers -/

/-- `append` of a `deque` with `maxlen`: an element that is too many leaves at the other end. -/
def appendBounded (maxlen : Nat) (buffer : List α) (x : α) : List α :=
  if maxlen < (buffer ++ [x]).length then (buffer ++ [x]).tail else buffer ++ [x]

/-- The buffer keeps the last elements of what was appended. -/
theorem appendBounded_rtake (maxlen : Nat) (xs : List α) (x : α) :
    appendBounded maxlen (xs.rtake maxlen) x = (xs ++ [x]).rtake maxlen := by
  have hkept : (xs.rtake maxlen).length = min maxlen xs.length := by
    simp only [List.rtake, List.length_drop]
    omega
  by_cases hfull : maxlen ≤ xs.length
  · -- the first of the last `maxlen` elements leaves
    have hover : maxlen < (xs.rtake maxlen ++ [x]).length := by simp [hkept, hfull]
    have hindex : (xs ++ [x]).length - maxlen = xs.length - maxlen + 1 := by
      simp only [List.length_append, List.length_singleton]
      omega
    have hinside : xs.length - maxlen ≤ xs.length := Nat.sub_le _ _
    rw [appendBounded, if_pos hover, List.rtake, List.rtake, hindex,
      ← List.drop_append_of_le_length hinside, List.tail_drop]
  · have hroom : xs.length + 1 ≤ maxlen := Nat.lt_of_not_le hfull
    have hall : xs.rtake maxlen = xs := by
      rw [List.rtake, Nat.sub_eq_zero_of_le (Nat.le_of_not_le hfull), List.drop_zero]
    have hfits : ¬ maxlen < (xs ++ [x]).length := by simpa using hroom
    rw [hall, appendBounded, if_neg hfits, List.rtake,
      Nat.sub_eq_zero_of_le (not_lt.mp hfits), List.drop_zero]

/-! ## Indexing -/

/-- `IndexError: list index out of range` -/
inductive IndexError
  | listIndexOutOfRange
  deriving DecidableEq, Repr

/-- `xs[i]`; a negative index counts from the end. -/
def getItem (xs : List α) (i : Int) : Except IndexError α :=
  let index := if i < 0 then i + xs.length else i
  if index < 0 then
    .error .listIndexOutOfRange
  else
    match xs[index.toNat]? with
    | some x => .ok x
    | none => .error .listIndexOutOfRange

theorem getItem_of_lt {xs : List α} {i : Nat} (h : i < xs.length) : getItem xs i = .ok xs[i] := by
  have hnat : ¬ (i : Int) < 0 := by omega
  simp [getItem, hnat, List.getElem?_eq_getElem h]

/-- `xs[-1]` -/
theorem getItem_neg_one {xs : List α} (h : xs ≠ []) : getItem xs (-1) = .ok (xs.getLast h) := by
  have hpos := List.length_pos_iff.mpr h
  have hlast : ¬ (-1 + (xs.length : Int)) < 0 := by omega
  have hindex : (-1 + (xs.length : Int)).toNat = xs.length - 1 := by omega
  have hget : xs[xs.length - 1]? = some (xs.getLast h) := by
    rw [← List.getLast?_eq_getElem?, List.getLast?_eq_some_getLast h]
  simp [getItem, hlast, hindex, hget]

/-! ## Ranks -/

/-- How many values are not above `x`. -/
def notAbove [LE α] [DecidableLE α] (xs : List α) (x : α) : Nat := xs.countP fun y => decide (y ≤ x)

/-- The index of a percentile below the hundredth is in range. -/
theorem percentile_lt {n p : Nat} (hn : 0 < n) (hp : p < 100) : n * p / 100 < n := by
  apply Nat.div_lt_of_lt_mul
  calc
    n * p < n * 100 := Nat.mul_lt_mul_of_pos_left hp hn
    _ = 100 * n := Nat.mul_comm _ _

/-- The value that is read off sorted values. -/
def percentile (xs : List α) (hpos : 0 < xs.length) (p : Fin 100) : α :=
  xs.get ⟨xs.length * p / 100, percentile_lt hpos p.isLt⟩

theorem percentile_mem (xs : List α) (hpos : 0 < xs.length) (p : Fin 100) :
    percentile xs hpos p ∈ xs := List.get_mem _ _

section Ranks

variable [LinearOrder α] {xs : List α}

theorem notAbove_perm {ys : List α} (h : xs.Perm ys) (x : α) : notAbove xs x = notAbove ys x :=
  h.countP_eq _

/-- The elements up to an index are not above the element there. -/
theorem lt_notAbove (h : xs.Pairwise (· ≤ ·)) {i : Nat} (hi : i < xs.length) :
    i < notAbove xs xs[i] := by
  have hall : ∀ x ∈ xs.take (i + 1), decide (x ≤ xs[i]) = true := by
    intro x hx
    rcases List.mem_take_iff_getElem.mp hx with ⟨j, hj, rfl⟩
    rcases Nat.lt_or_eq_of_le (Nat.lt_succ_iff.mp (lt_min_iff.mp hj).1) with hlt | rfl
    · simpa using List.pairwise_iff_getElem.mp h j i _ hi hlt
    · simp
  calc
    i < (xs.take (i + 1)).length := by
      rw [List.length_take]
      omega
    _ = notAbove (xs.take (i + 1)) xs[i] := (List.countP_eq_length.mpr hall).symm
    _ ≤ notAbove xs xs[i] := (List.take_sublist _ _).countP_le

/-- At least `p` percent of the elements are not above the percentile. -/
theorem percentile_rank (h : xs.Pairwise (· ≤ ·)) (hpos : 0 < xs.length) (p : Fin 100) :
    p * xs.length ≤ 100 * notAbove xs (percentile xs hpos p) := by
  have hrank := lt_notAbove h (percentile_lt hpos p.isLt)
  have hfloor := Nat.lt_mul_div_succ (xs.length * p) (Nat.succ_pos 99)
  calc
    p * xs.length = xs.length * p := Nat.mul_comm _ _
    _ ≤ 100 * (xs.length * p / 100 + 1) := hfloor.le
    _ ≤ 100 * notAbove xs (percentile xs hpos p) := Nat.mul_le_mul_left 100 hrank

theorem get_mono (h : xs.Pairwise (· ≤ ·)) {i j : Fin xs.length} (hij : i ≤ j) :
    xs.get i ≤ xs.get j := by
  rcases hij.lt_or_eq with hlt | rfl
  · exact List.pairwise_iff_getElem.mp h i j i.isLt j.isLt hlt
  · exact le_refl _

theorem percentile_mono (h : xs.Pairwise (· ≤ ·)) (hpos : 0 < xs.length) {p q : Fin 100}
    (hpq : p ≤ q) : percentile xs hpos p ≤ percentile xs hpos q :=
  get_mono h (Fin.mk_le_mk.mpr (Nat.div_le_div_right (Nat.mul_le_mul_left _ hpq)))

end Ranks

/-! ## The mean -/

/-- `sum` and the division by a number of values. -/
structure Arithmetic (α : Type*) where
  sum : List α → α
  div : α → Nat → α

namespace Arithmetic

/-- `sum(xs) / len(xs)` -/
def mean (arith : Arithmetic α) (xs : List α) : α := arith.div (arith.sum xs) xs.length

def exact {K : Type*} [DivisionRing K] : Arithmetic K where
  sum := List.sum
  div s n := s / n

/-- `sum` of floats before Python 3.12. -/
def plain : Arithmetic Float where
  sum xs := xs.foldl (· + ·) 0
  div s n := s / .ofNat n

/-- A running sum, and what rounding has taken from it so far. -/
structure Compensated where
  hi : Float := 0
  lo : Float := 0

def Compensated.add (total : Compensated) (x : Float) : Compensated :=
  let t := total.hi + x
  if x.abs ≤ total.hi.abs then ⟨t, total.lo + ((total.hi - t) + x)⟩
  else ⟨t, total.lo + ((x - t) + total.hi)⟩

/-- `sum` of floats from Python 3.12 on. -/
def compensated : Arithmetic Float where
  sum xs :=
    let total := xs.foldl Compensated.add {}
    if total.lo != 0 && total.lo.isFinite then total.hi + total.lo else total.hi
  div s n := s / .ofNat n

end Arithmetic

/-- In exact arithmetic the mean of some values lies between their bounds. -/
theorem mean_between {K : Type*} [Field K] [LinearOrder K] [IsStrictOrderedRing K] {xs : List K}
    (hne : xs ≠ []) {lo hi : K} (hlo : ∀ x ∈ xs, lo ≤ x) (hhi : ∀ x ∈ xs, x ≤ hi) :
    lo ≤ Arithmetic.exact.mean xs ∧ Arithmetic.exact.mean xs ≤ hi := by
  have hpos : (0 : K) < xs.length := Nat.cast_pos.mpr (List.length_pos_iff.mpr hne)
  have hleast := xs.card_nsmul_le_sum lo hlo
  have hmost := xs.sum_le_card_nsmul hi hhi
  rw [nsmul_eq_mul] at hleast hmost
  unfold Arithmetic.mean Arithmetic.exact
  constructor
  · rw [le_div_iff₀ hpos, mul_comm]
    exact hleast
  · rw [div_le_iff₀ hpos, mul_comm]
    exact hmost

end PyStd
