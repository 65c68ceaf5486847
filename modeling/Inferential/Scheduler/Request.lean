import Mathlib.Data.Rat.Cast.Order
import Mathlib.Order.Defs.Unbundled
import Mathlib.Tactic.Common

/-!
# Request — inference requests and their order

`InferenceRequest` with the `__lt__` that the heaps compare by.  Clock readings are exact rationals;
the numbers that make up a score are of a type `ν` with the few operations that scoring uses, so
that the same code can be read over exact numbers and over numbers with a NaN.
-/

namespace Inferential

abbrev Bytes := List UInt8

/-- The exceptions that the modelled code raises or lets through. -/
inductive PyError
  | queueFullError (clientId : String)
  | zeroDivisionError
  | valueError (message : String)
  | typeError (message : String)
  | observationError (message : String)
  /-- Raised by code that the server is given: a policy, a model, a transport. -/
  | foreign (message : String)
  deriving DecidableEq, Repr

/-- The float operations behind a score. -/
class Score (ν : Type) extends Add ν, Mul ν, Div ν, RatCast ν, LT ν, BEq ν where
  decLt : DecidableLT ν
  beq_of_lt {a b : ν} : a < b → (b == a) = false

namespace Score

variable {ν : Type} [Score ν]

instance decidableLT : DecidableLT ν := Score.decLt

/-- `min(a, b)`: the first one, unless the second is smaller. -/
def min (a b : ν) : ν := if b < a then b else a

/-- A divisor for which Python raises `ZeroDivisionError`. -/
def isZero (a : ν) : Bool := a == ((0 : Rat) : ν)

theorem isZero_of_pos {a : ν} (h : ((0 : Rat) : ν) < a) : isZero a = false := beq_of_lt h

end Score

/-- Exact arithmetic. -/
instance : Score Rat where
  decLt := inferInstance
  beq_of_lt h := beq_false_of_ne h.ne'

@[simp] theorem Score.isZero_rat {a : Rat} : Score.isZero a = true ↔ a = 0 := beq_iff_eq

theorem Score.min_rat (a b : Rat) : Score.min a b = a ⊓ b := by
  unfold Score.min
  split
  · next hlt => exact (inf_eq_right.mpr hlt.le).symm
  · next hnot => exact (inf_eq_left.mpr (not_lt.mp hnot)).symm

structure InferenceRequest (ν : Type) where
  clientId : String
  modelId : String
  identity : Bytes
  envelope : Bytes
  payload : Bytes
  receivedAt : Rat
  urgency : ν
  stepsRemaining : Option Nat
  timeUntilNext : Rat
  latencyBudgetMs : ν
  priority : Nat
  score : ν
  retryCount : Nat := 0
  /-- `_counter`, the insertion order that breaks ties -/
  counter : Nat := 0
  /-- `id(request)`: which request object this is -/
  objId : Nat
  deriving DecidableEq

/-- What a call reads from outside: the clock, and what the registered policies return now. -/
structure Moment (ν : Type) where
  now : Rat
  policy : String → InferenceRequest ν → Except PyError ν

namespace InferenceRequest

variable {ν : Type}

/-- `request.score = score; request._counter = counter` -/
def stamp (r : InferenceRequest ν) (score : ν) (counter : Nat) : InferenceRequest ν :=
  { r with score := score, counter := counter }

@[simp] theorem stamp_objId (r : InferenceRequest ν) (score : ν) (counter : Nat) :
    (r.stamp score counter).objId = r.objId := rfl

@[simp] theorem stamp_modelId (r : InferenceRequest ν) (score : ν) (counter : Nat) :
    (r.stamp score counter).modelId = r.modelId := rfl

@[simp] theorem stamp_clientId (r : InferenceRequest ν) (score : ν) (counter : Nat) :
    (r.stamp score counter).clientId = r.clientId := rfl

@[simp] theorem stamp_counter (r : InferenceRequest ν) (score : ν) (counter : Nat) :
    (r.stamp score counter).counter = counter := rfl

@[simp] theorem stamp_score (r : InferenceRequest ν) (score : ν) (counter : Nat) :
    (r.stamp score counter).score = score := rfl

variable [Score ν]

/-- The request without the two fields that queueing overwrites. -/
def unstamped (r : InferenceRequest ν) : InferenceRequest ν := r.stamp ((0 : Rat) : ν) 0

@[simp] theorem unstamped_stamp (r : InferenceRequest ν) (score : ν) (counter : Nat) :
    (r.stamp score counter).unstamped = r.unstamped := rfl

/-- `__lt__`: the higher score first, the smaller counter on a tie. -/
def lt (a b : InferenceRequest ν) : Bool :=
  if a.score != b.score then
    decide (b.score < a.score)
  else
    decide (a.counter < b.counter)

/-! ## The order under totally ordered scores -/

section Order

variable [LawfulBEq ν] [IsStrictTotalOrder ν (· < ·)]

theorem lt_iff {a b : InferenceRequest ν} :
    a.lt b = true ↔ b.score < a.score ∨ a.score = b.score ∧ a.counter < b.counter := by
  unfold lt
  by_cases h : a.score = b.score
  · have hirr : ¬ b.score < a.score := by
      rw [h]
      exact Std.Irrefl.irrefl (r := fun x y : ν => x < y) b.score
    simp [h, Std.Irrefl.irrefl (r := fun x y : ν => x < y) b.score]
  · simp [h]

instance : IsStrictWeakOrder (InferenceRequest ν) (fun a b => a.lt b = true) where
  irrefl a := by
    rw [lt_iff]
    rintro (h | ⟨-, h⟩)
    · exact Std.Irrefl.irrefl (r := fun x y : ν => x < y) _ h
    · exact Nat.lt_irrefl _ h
  trans a b c hab hbc := by
    rw [lt_iff] at hab hbc ⊢
    rcases hab with hab | ⟨heq, hab⟩ <;> rcases hbc with hbc | ⟨heq', hbc⟩
    · exact Or.inl (IsTrans.trans (r := fun x y : ν => x < y) _ _ _ hbc hab)
    · exact Or.inl (heq' ▸ hab)
    · exact Or.inl (heq ▸ hbc)
    · exact Or.inr ⟨heq.trans heq', hab.trans hbc⟩
  incomp_trans a b c hab hbc := by
    -- requests neither of which is before the other agree on score and counter
    have hlevel : ∀ x y : InferenceRequest ν, ¬ x.lt y = true ∧ ¬ y.lt x = true →
        x.score = y.score ∧ x.counter = y.counter := by
      intro x y h
      rw [lt_iff, lt_iff] at h
      rcases Std.Trichotomous.rel_or_eq_or_rel_swap (r := fun x y : ν => x < y)
        (a := x.score) (b := y.score) with hlt | heq | hgt
      · exact absurd (Or.inl hlt) h.2
      · refine ⟨heq, ?_⟩
        have h1 : ¬ x.counter < y.counter := fun hc => h.1 (Or.inr ⟨heq, hc⟩)
        have h2 : ¬ y.counter < x.counter := fun hc => h.2 (Or.inr ⟨heq.symm, hc⟩)
        omega
      · exact absurd (Or.inl hgt) h.1
    obtain ⟨hs, hc⟩ := hlevel a b hab
    rw [lt_iff, lt_iff, hs, hc, ← lt_iff, ← lt_iff]
    exact hbc

/-- Two requests with different counters are never level. -/
theorem lt_or_lt_of_counter_ne {a b : InferenceRequest ν} (h : a.counter ≠ b.counter) :
    a.lt b = true ∨ b.lt a = true := by
  rw [lt_iff, lt_iff]
  rcases Std.Trichotomous.rel_or_eq_or_rel_swap (r := fun x y : ν => x < y)
    (a := a.score) (b := b.score) with hlt | heq | hgt
  · exact Or.inr (Or.inl hlt)
  · rcases Nat.lt_or_gt_of_ne h with hc | hc
    · exact Or.inl (Or.inr ⟨heq, hc⟩)
    · exact Or.inr (Or.inr ⟨heq.symm, hc⟩)
  · exact Or.inl (Or.inl hgt)

end Order

end InferenceRequest

/-- The scores are totally ordered: they are numbers, and none is a NaN. -/
structure TotalScores (ν : Type) [Score ν] : Prop where
  lawful : LawfulBEq ν
  total : IsStrictTotalOrder ν (· < ·)

theorem totalScores {ν : Type} [Score ν] [LawfulBEq ν] [IsStrictTotalOrder ν (· < ·)] :
    TotalScores ν :=
  ⟨inferInstance, inferInstance⟩

theorem TotalScores.weakOrder {ν : Type} [Score ν] (h : TotalScores ν) :
    IsStrictWeakOrder (InferenceRequest ν) (fun a b => a.lt b = true) := by
  have := h.lawful
  have := h.total
  infer_instance

/-- A request without hints from its client, as the tests build them. -/
def plainRequest (clientId modelId : String) (receivedAt : Rat) (objId : Nat) :
    InferenceRequest Rat where
  clientId := clientId
  modelId := modelId
  identity := []
  envelope := []
  payload := []
  receivedAt := receivedAt
  urgency := 0
  stepsRemaining := none
  timeUntilNext := 0
  latencyBudgetMs := 50
  priority := 1
  score := 0
  objId := objId

end Inferential
