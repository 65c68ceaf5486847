import Mathlib.Algebra.Order.AbsoluteValue.Basic
import Mathlib.Algebra.Order.Field.Basic
import Mathlib.Data.List.MinMax
import Mathlib.Tactic.Linarith
import Mathlib.Tactic.Ring

/-!
# MovingAverage — an exponential average of what was measured so far

Every new value moves the average by the part `α` of its distance.  The average stays between the
smallest and the largest value, and a steady value is approached geometrically.
-/

namespace Machine

variable {K : Type*} [Field K] {α r d : K} {xs ys : List K}

/-- The average `r` after the values `xs`. -/
def movingAverage (α r : K) (xs : List K) : K :=
  xs.foldl (fun r x => α * x + (1 - α) * r) r

/-- An average that begins with the first value. -/
def startedAverage (α : K) : List K → Option K
  | [] => none
  | x :: xs => some (movingAverage α x xs)

@[simp] theorem movingAverage_nil (α r : K) : movingAverage α r [] = r := rfl

theorem movingAverage_append (α r : K) (xs ys : List K) :
    movingAverage α r (xs ++ ys) = movingAverage α (movingAverage α r xs) ys :=
  List.foldl_append

@[simp] theorem movingAverage_concat (α r : K) (xs : List K) (x : K) :
    movingAverage α r (xs ++ [x]) = α * x + (1 - α) * movingAverage α r xs := by
  simp [movingAverage]

theorem startedAverage_append (h : startedAverage α xs = some r) (ys : List K) :
    startedAverage α (xs ++ ys) = some (movingAverage α r ys) := by
  cases xs with
  | nil => cases h
  | cons x xs =>
      have hr : movingAverage α x xs = r := Option.some.inj h
      rw [List.cons_append, startedAverage, movingAverage_append, hr]

theorem startedAverage_isSome (α : K) (xs : List K) :
    (startedAverage α xs).isSome ↔ xs ≠ [] := by
  cases xs <;> simp [startedAverage]

/-- Each value `d` brings the average closer to `d` by the factor `1 - α`. -/
theorem movingAverage_replicate (α r d : K) (k : Nat) :
    movingAverage α r (List.replicate k d) - d = (1 - α) ^ k * (r - d) := by
  induction k with
  | zero => simp
  | succ k ih =>
      have hnext : movingAverage α r (List.replicate (k + 1) d) - d =
          (1 - α) * (movingAverage α r (List.replicate k d) - d) := by
        rw [List.replicate_succ', movingAverage_concat]
        ring
      rw [hnext, ih]
      ring

variable [LinearOrder K] [IsStrictOrderedRing K]

/-- A convex combination leaves no interval that holds all values. -/
theorem movingAverage_mem_Icc (h0 : 0 ≤ α) (h1 : α ≤ 1) {lo hi : K} (hr : lo ≤ r ∧ r ≤ hi)
    (hxs : ∀ x ∈ xs, lo ≤ x ∧ x ≤ hi) :
    lo ≤ movingAverage α r xs ∧ movingAverage α r xs ≤ hi := by
  induction xs using List.reverseRecOn with
  | nil => exact hr
  | append_singleton xs x ih =>
      rcases ih fun x hx => hxs x (List.mem_append_left _ hx) with ⟨hlo, hhi⟩
      rcases hxs x (by simp) with ⟨hlo', hhi'⟩
      have hrest : 0 ≤ 1 - α := sub_nonneg.mpr h1
      rw [movingAverage_concat]
      constructor
      · calc
          lo = α * lo + (1 - α) * lo := by ring
          _ ≤ α * x + (1 - α) * movingAverage α r xs :=
            add_le_add (mul_le_mul_of_nonneg_left hlo' h0) (mul_le_mul_of_nonneg_left hlo hrest)
      · calc
          α * x + (1 - α) * movingAverage α r xs ≤ α * hi + (1 - α) * hi :=
            add_le_add (mul_le_mul_of_nonneg_left hhi' h0) (mul_le_mul_of_nonneg_left hhi hrest)
          _ = hi := by ring

/-- The average lies between the smallest and the largest value. -/
theorem startedAverage_between (h0 : 0 ≤ α) (h1 : α ≤ 1) (h : startedAverage α xs = some r) :
    xs.minimum ≤ (r : WithTop K) ∧ (r : WithBot K) ≤ xs.maximum := by
  cases xs with
  | nil => cases h
  | cons x xs =>
      have hpos : 0 < (x :: xs).length := Nat.succ_pos _
      have hbounds : ∀ y ∈ x :: xs, (x :: xs).minimum_of_length_pos hpos ≤ y ∧
          y ≤ (x :: xs).maximum_of_length_pos hpos := fun y hy =>
        ⟨List.minimum_of_length_pos_le_of_mem hy hpos, List.le_maximum_of_length_pos_of_mem hy hpos⟩
      rcases movingAverage_mem_Icc h0 h1 (hbounds x List.mem_cons_self) fun y hy =>
        hbounds y (List.mem_cons_of_mem x hy) with ⟨hlo, hhi⟩
      rw [Option.some.inj h] at hlo hhi
      rw [← List.coe_minimum_of_length_pos hpos, ← List.coe_maximum_of_length_pos hpos]
      exact ⟨WithTop.coe_le_coe.mpr hlo, WithBot.coe_le_coe.mpr hhi⟩

/-- The distance from a steady value shrinks by the factor `1 - α`. -/
theorem abs_movingAverage_replicate (h1 : α ≤ 1) (r d : K) (k : Nat) :
    |movingAverage α r (List.replicate k d) - d| = (1 - α) ^ k * |r - d| := by
  have hrest : 0 ≤ (1 - α) ^ k := pow_nonneg (sub_nonneg.mpr h1) k
  rw [movingAverage_replicate, abs_mul, abs_of_nonneg hrest]

end Machine
