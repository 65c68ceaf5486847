import Mathlib.Algebra.Order.Ring.Rat
import Mathlib.Order.WithBot
import Mathlib.Tactic.Common

/-!
# Floats — exact numbers, the infinities and a NaN

The values of a Python `float`, without rounding.  A NaN is unequal to, and neither smaller nor
greater than, every value, itself included, and it spreads through sums and products.
-/

namespace PyStd

inductive PyFloat
  | nan
  | negInf
  | fin (q : Rat)
  | posInf
  deriving DecidableEq

namespace PyFloat

/-! ## The operations -/

/-- An infinity times `q`. -/
def infinity (q : Rat) : PyFloat :=
  if q = 0 then nan else if 0 < q then posInf else negInf

protected def add : PyFloat → PyFloat → PyFloat
  | fin a, fin b => fin (a + b)
  | fin _, posInf => posInf
  | fin _, negInf => negInf
  | posInf, fin _ => posInf
  | posInf, posInf => posInf
  | negInf, fin _ => negInf
  | negInf, negInf => negInf
  | _, _ => nan

protected def mul : PyFloat → PyFloat → PyFloat
  | fin a, fin b => fin (a * b)
  | fin a, posInf => infinity a
  | fin a, negInf => infinity (-a)
  | posInf, fin b => infinity b
  | negInf, fin b => infinity (-b)
  | posInf, posInf => posInf
  | posInf, negInf => negInf
  | negInf, posInf => negInf
  | negInf, negInf => posInf
  | _, _ => nan

/-- The divisor is not zero: Python raises `ZeroDivisionError` then. -/
protected def div : PyFloat → PyFloat → PyFloat
  | fin a, fin b => fin (a / b)
  | fin _, posInf => fin 0
  | fin _, negInf => fin 0
  | posInf, fin b => if b < 0 then negInf else posInf
  | negInf, fin b => if b < 0 then posInf else negInf
  | _, _ => nan

/-- `a < b` -/
protected def lt : PyFloat → PyFloat → Bool
  | fin a, fin b => decide (a < b)
  | fin _, posInf => true
  | negInf, fin _ => true
  | negInf, posInf => true
  | _, _ => false

/-- `a == b` -/
protected def beq : PyFloat → PyFloat → Bool
  | fin a, fin b => decide (a = b)
  | posInf, posInf => true
  | negInf, negInf => true
  | _, _ => false

instance : Add PyFloat := ⟨PyFloat.add⟩
instance : Mul PyFloat := ⟨PyFloat.mul⟩
instance : Div PyFloat := ⟨PyFloat.div⟩
instance : RatCast PyFloat := ⟨fin⟩
instance : LT PyFloat := ⟨fun a b => a.lt b = true⟩
instance : LE PyFloat := ⟨fun a b => a.lt b = true ∨ a.beq b = true⟩

instance (a b : PyFloat) : Decidable (a < b) := inferInstanceAs (Decidable (a.lt b = true))
instance (a b : PyFloat) : Decidable (a ≤ b) := inferInstanceAs (Decidable (_ ∨ _))

def IsInf (a : PyFloat) : Prop := a = posInf ∨ a = negInf

instance (a : PyFloat) : Decidable a.IsInf := inferInstanceAs (Decidable (_ ∨ _))

/-! ## The order of the numbers -/

/-- The place of a number; a NaN has one only for completeness. -/
def rank : PyFloat → WithBot (WithTop Rat)
  | nan => ⊥
  | negInf => ⊥
  | fin q => ((q : WithTop Rat) : WithBot (WithTop Rat))
  | posInf => ((⊤ : WithTop Rat) : WithBot (WithTop Rat))

theorem lt_iff_rank {a b : PyFloat} (ha : a ≠ nan) (hb : b ≠ nan) : a < b ↔ a.rank < b.rank := by
  have htop : ∀ q : Rat, ((q : WithTop Rat) : WithBot (WithTop Rat)) < ((⊤ : WithTop Rat) :) :=
    fun q => WithBot.coe_lt_coe.mpr (WithTop.coe_lt_top q)
  show a.lt b = true ↔ _
  cases a <;> cases b <;> simp_all [PyFloat.lt, rank]

theorem beq_iff_rank {a b : PyFloat} (ha : a ≠ nan) (hb : b ≠ nan) :
    a.beq b = true ↔ a.rank = b.rank := by
  cases a <;> cases b <;> simp_all [PyFloat.beq, rank]

theorem beq_fin {a : PyFloat} {q : Rat} : a.beq (fin q) = true ↔ a = fin q := by
  cases a <;> simp [PyFloat.beq]

theorem fin_le_fin {p q : Rat} : fin p ≤ fin q ↔ p ≤ q := by
  show decide (p < q) = true ∨ decide (p = q) = true ↔ _
  rw [decide_eq_true_eq, decide_eq_true_eq, le_iff_lt_or_eq]

/-- The numbers that are not negative. -/
theorem zero_le_iff {a : PyFloat} : fin 0 ≤ a ↔ a = posInf ∨ ∃ q, 0 ≤ q ∧ a = fin q := by
  cases a with
  | nan => exact iff_of_false (by decide) (by simp)
  | negInf => exact iff_of_false (by decide) (by simp)
  | fin q => simp [fin_le_fin]
  | posInf => exact iff_of_true (by decide) (.inl rfl)

/-- A value that is greater is not equal. -/
theorem beq_of_lt {a b : PyFloat} (h : a < b) : b.beq a = false := by
  have hlt : a.lt b = true := h
  cases a <;> cases b <;> simp_all [PyFloat.lt, PyFloat.beq]
  next x y => exact hlt.ne'

theorem mul_one (a : PyFloat) : a * fin 1 = a := by
  show a.mul (fin 1) = a
  cases a <;> simp [PyFloat.mul, infinity]

/-- Dividing by a positive number leaves the infinities and a NaN as they are. -/
theorem div_eq_iff {a v : PyFloat} {q : Rat} (hq : 0 < q) (hv : ∀ b, v ≠ fin b) :
    a / fin q = v ↔ a = v := by
  show a.div (fin q) = v ↔ _
  have hnot : ¬ q < 0 := not_lt.mpr hq.le
  cases a <;> simp [PyFloat.div, hnot, (hv _).symm]

/-! ## Where a NaN comes from -/

@[simp] theorem infinity_eq_nan {q : Rat} : infinity q = nan ↔ q = 0 := by
  unfold infinity
  split
  · simp [*]
  · split <;> simp [*]

/-- A product of numbers is a NaN only where an infinity meets zero. -/
theorem mul_eq_nan {a b : PyFloat} : a * b = nan ↔
    a = nan ∨ b = nan ∨ a = fin 0 ∧ b.IsInf ∨ a.IsInf ∧ b = fin 0 := by
  show a.mul b = nan ↔ _
  cases a <;> cases b <;> simp [PyFloat.mul, IsInf]

/-- A sum of numbers is a NaN only where infinities of both signs meet. -/
theorem add_eq_nan {a b : PyFloat} : a + b = nan ↔
    a = nan ∨ b = nan ∨ a = posInf ∧ b = negInf ∨ a = negInf ∧ b = posInf := by
  show a.add b = nan ↔ _
  cases a <;> cases b <;> simp [PyFloat.add]

theorem add_eq_posInf {a b : PyFloat} (h : a + b ≠ nan) :
    a + b = posInf ↔ a = posInf ∨ b = posInf := by
  revert h
  show a.add b ≠ nan → (a.add b = posInf ↔ _)
  cases a <;> cases b <;> simp [PyFloat.add]

theorem add_eq_negInf {a b : PyFloat} (h : a + b ≠ nan) :
    a + b = negInf ↔ a = negInf ∨ b = negInf := by
  revert h
  show a.add b ≠ nan → (a.add b = negInf ↔ _)
  cases a <;> cases b <;> simp [PyFloat.add]

/-- The values of a list can be added up. -/
def Summable (l : List PyFloat) : Prop := nan ∉ l ∧ ¬ (posInf ∈ l ∧ negInf ∈ l)

theorem foldl_add_ne_nan {a : PyFloat} {l : List PyFloat} :
    l.foldl (· + ·) a ≠ nan ↔ Summable (a :: l) := by
  induction l generalizing a with
  | nil =>
      simp only [List.foldl_nil, Summable, List.mem_singleton]
      constructor
      · intro h
        exact ⟨fun heq => h heq.symm, fun hboth => by simp [← hboth.1] at hboth⟩
      · intro h heq
        exact h.1 heq.symm
  | cons x l ih =>
      rw [List.foldl_cons, ih]
      unfold Summable
      by_cases hsum : a + x = nan
      · -- the NaN of the first sum stays
        rcases add_eq_nan.mp hsum with rfl | rfl | ⟨rfl, rfl⟩ | ⟨rfl, rfl⟩ <;> simp [hsum]
      · have hparts := mt add_eq_nan.mpr hsum
        simp only [not_or] at hparts
        have hmem : ∀ v, (a + x = v ↔ a = v ∨ x = v) → (v ∈ (a + x) :: l ↔ v ∈ a :: x :: l) := by
          intro v hv
          simp only [List.mem_cons, @eq_comm _ v, hv, or_assoc]
        have hnan : a + x = nan ↔ a = nan ∨ x = nan := by simp [hsum, hparts.1, hparts.2.1]
        rw [hmem nan hnan, hmem posInf (add_eq_posInf hsum), hmem negInf (add_eq_negInf hsum)]

end PyFloat
end PyStd
