import Inferential.Machine.Guarded
import Inferential.Proto.Wire
import Inferential.PyStd.Floats
import Inferential.Scheduler.QueueOrder
import Inferential.Server.Receive
import Mathlib.Data.Prod.Lex

/-!
# ScoreOrder — heaps of scores that may be a NaN

`__lt__` orders requests strictly and totally as long as no score is a NaN.  The score is computed
from what the client reports and from the configured weights, and neither has to be a number.
-/

namespace Inferential

open PyStd PyStd.Heapq Machine

instance : Score PyFloat where
  beq := PyFloat.beq
  decLt := inferInstance
  beq_of_lt h := PyFloat.beq_of_lt h

/-! ## When a score is a number -/

section Factors

/-- What `steps_remaining` adds to the score, as factors. -/
def stepsFactors (weights : DeadlineAwareConfig PyFloat) : Option Nat → List (PyFloat × PyFloat)
  | none => []
  | some steps =>
      if steps = 0 then [(weights.stepsWeight, .fin 1)]
      else if steps ≤ 2 then [(weights.stepsWeight, .fin (7 / 10))]
      else if steps ≤ 4 then [(weights.stepsWeight, .fin (4 / 10))]
      else []

/-- The pairs that are multiplied and added up in the built-in score. -/
def scoreFactors (weights : DeadlineAwareConfig PyFloat) (now : Rat)
    (r : InferenceRequest PyFloat) : List (PyFloat × PyFloat) :=
  (.fin (max 0 (-r.timeUntilNext) / (1 / 10)), weights.cadenceWeight) ::
  (r.urgency, weights.urgencyWeight) ::
  stepsFactors weights r.stepsRemaining ++
  [(.fin (10 - min (r.priority : Rat) 10), weights.priorityWeight),
    (Score.min (.fin ((now - r.receivedAt) * 1000) / r.latencyBudgetMs) (.fin 1),
      weights.ageWeight)]

/-- No factor is a NaN, no infinity meets a zero, and the infinite products are of one sign. -/
structure Comparable (weights : DeadlineAwareConfig PyFloat) (now : Rat)
    (r : InferenceRequest PyFloat) : Prop where
  factors : ∀ p ∈ scoreFactors weights now r, p.1 ≠ .nan ∧ p.2 ≠ .nan ∧
    ¬ (p.1 = .fin 0 ∧ p.2.IsInf) ∧ ¬ (p.1.IsInf ∧ p.2 = .fin 0)
  signs : ¬ ((∃ p ∈ scoreFactors weights now r, p.1 * p.2 = .posInf) ∧
    ∃ p ∈ scoreFactors weights now r, p.1 * p.2 = .negInf)

instance (weights : DeadlineAwareConfig PyFloat) (now : Rat) (r : InferenceRequest PyFloat) :
    Decidable (Comparable weights now r) :=
  decidable_of_iff (_ ∧ _) ⟨fun h => Comparable.mk h.1 h.2, fun h => ⟨h.factors, h.signs⟩⟩

/-- The products, in the order in which they are added up. -/
def scoreTerms (weights : DeadlineAwareConfig PyFloat) (now : Rat)
    (r : InferenceRequest PyFloat) : List PyFloat :=
  .fin (max 0 (-r.timeUntilNext) / (1 / 10)) * weights.cadenceWeight ::
  r.urgency * weights.urgencyWeight ::
  ((stepsFactors weights r.stepsRemaining).map fun p => p.1 * p.2) ++
  [.fin (10 - min (r.priority : Rat) 10) * weights.priorityWeight / .fin 10,
    Score.min (.fin ((now - r.receivedAt) * 1000) / r.latencyBudgetMs) (.fin 1) * weights.ageWeight]

theorem stepsTerm_eq (weights : DeadlineAwareConfig PyFloat) (s : PyFloat) (steps : Option Nat) :
    stepsTerm weights s steps =
      ((stepsFactors weights steps).map fun p => p.1 * p.2).foldl (· + ·) s := by
  cases steps with
  | none => rfl
  | some steps =>
      have hone : weights.stepsWeight * .fin 1 = weights.stepsWeight := PyFloat.mul_one _
      simp only [stepsTerm, stepsFactors]
      split_ifs
      · simp [hone]
      · rfl
      · rfl
      · rfl

theorem weightedScore_eq (weights : DeadlineAwareConfig PyFloat) (now : Rat)
    {r : InferenceRequest PyFloat} (hbudget : ¬ Score.isZero r.latencyBudgetMs = true) :
    weightedScore weights now r = .ok ((scoreTerms weights now r).foldl (· + ·) (.fin 0)) := by
  unfold weightedScore signalScore scoreTerms
  dsimp only
  rw [if_neg hbudget, stepsTerm_eq]
  simp only [List.cons_append, List.foldl_cons, List.foldl_append]
  rfl

/-- A value that is not finite is one of the terms where it is one of the products. -/
theorem mem_scoreTerms (weights : DeadlineAwareConfig PyFloat) (now : Rat)
    (r : InferenceRequest PyFloat) {v : PyFloat} (hv : ∀ q, v ≠ .fin q) :
    v ∈ scoreTerms weights now r ↔ ∃ p ∈ scoreFactors weights now r, p.1 * p.2 = v := by
  have hten : ∀ a : PyFloat, v = a / .fin 10 ↔ a = v := by
    intro a
    rw [eq_comm, PyFloat.div_eq_iff (by decide) hv]
  simp only [scoreTerms, scoreFactors, List.cons_append, List.mem_cons, List.mem_append,
    List.mem_map, List.not_mem_nil, or_false, hten, @eq_comm _ v, or_and_right, exists_or,
    exists_eq_left]

/-- The scores that are numbers are those of the comparable requests. -/
theorem score_ne_nan_iff (weights : DeadlineAwareConfig PyFloat) (now : Rat)
    (r : InferenceRequest PyFloat) :
    (scoreTerms weights now r).foldl (· + ·) (.fin 0) ≠ .nan ↔ Comparable weights now r := by
  have hmem := fun {v : PyFloat} (hv : ∀ q, v ≠ .fin q) => mem_scoreTerms weights now r hv
  simp only [PyFloat.foldl_add_ne_nan, PyFloat.Summable, List.mem_cons, reduceCtorEq, false_or,
    hmem (v := .nan) (by simp), hmem (v := .posInf) (by simp), hmem (v := .negInf) (by simp)]
  constructor
  · rintro ⟨hnan, hsigns⟩
    refine ⟨fun p hp => ?_, hsigns⟩
    have hproduct := mt PyFloat.mul_eq_nan.mpr fun heq => hnan ⟨p, hp, heq⟩
    simpa only [not_or] using hproduct
  · rintro ⟨hfactors, hsigns⟩
    refine ⟨?_, hsigns⟩
    rintro ⟨p, hp, heq⟩
    rcases hfactors p hp with ⟨h₁, h₂, h₃, h₄⟩
    rcases PyFloat.mul_eq_nan.mp heq with h | h | h | h
    · exact h₁ h
    · exact h₂ h
    · exact h₃ h
    · exact h₄ h

theorem weightedScore_ne_nan {weights : DeadlineAwareConfig PyFloat} {now : Rat}
    {r : InferenceRequest PyFloat} {score : PyFloat} (h : Comparable weights now r)
    (hscore : weightedScore weights now r = .ok score) : score ≠ .nan := by
  by_cases hbudget : Score.isZero r.latencyBudgetMs = true
  · -- no score is computed
    simp [weightedScore, hbudget] at hscore
  · rw [weightedScore_eq weights now hbudget] at hscore
    cases hscore
    exact (score_ne_nan_iff weights now r).mpr h

end Factors

/-! ## The order of numeric requests -/

namespace InferenceRequest

/-- Where a request with a numeric score stands: the higher score first, then the counter. -/
def place (r : InferenceRequest PyFloat) : Lex ((WithBot (WithTop Rat))ᵒᵈ × Nat) :=
  toLex (OrderDual.toDual r.score.rank, r.counter)

/-- An order of all requests. -/
def placedBefore (a b : InferenceRequest PyFloat) : Bool := decide (a.place < b.place)

instance : IsStrictWeakOrder (InferenceRequest PyFloat) (fun a b => placedBefore a b = true) where
  irrefl a := by simp [placedBefore]
  trans a b c hab hbc := by
    simp only [placedBefore, decide_eq_true_eq] at *
    exact hab.trans hbc
  incomp_trans a b c hab hbc := by
    simp only [placedBefore, decide_eq_true_eq, not_lt] at *
    exact ⟨hbc.1.trans hab.1, hab.2.trans hbc.2⟩

/-- The score is a number. -/
def Numeric (r : InferenceRequest PyFloat) : Prop := r.score ≠ .nan

theorem place_lt_iff {a b : InferenceRequest PyFloat} (ha : a.Numeric) (hb : b.Numeric) :
    a.place < b.place ↔
      b.score < a.score ∨ (a.score == b.score) = true ∧ a.counter < b.counter := by
  have hbeq : (a.score == b.score) = true ↔ a.score.rank = b.score.rank :=
    PyFloat.beq_iff_rank ha hb
  rw [PyFloat.lt_iff_rank hb ha, hbeq]
  simp [place, Prod.Lex.toLex_lt_toLex]

/-- On numeric scores, `__lt__` is this order. -/
theorem agree_placedBefore : Agree Numeric lt placedBefore := by
  intro a b ha hb
  have hbeq : (a.score == b.score) = true ↔ a.score.rank = b.score.rank :=
    PyFloat.beq_iff_rank ha hb
  unfold lt placedBefore
  by_cases heq : (a.score == b.score) = true
  · have hirr : ¬ b.score < a.score := by
      rw [PyFloat.lt_iff_rank hb ha, hbeq.mp heq]
      exact lt_irrefl _
    simp [place_lt_iff ha hb, heq, hirr, bne]
  · simp [place_lt_iff ha hb, heq, bne]

end InferenceRequest

namespace AnyScheduler

/-! ## Which score is computed -/

section Scoring

variable {ν : Type} [Score ν] {s : AnyScheduler ν}

/-- The policy in use, and the weights of the built-in score. -/
def scoring : AnyScheduler ν → Option String × DeadlineAwareConfig ν
  | .deadlineAware s => (s.policy, s.config.deadlineAware)
  | .modelDeadline s => (s.policy, s.config.modelDeadline)
  | .tieredDeadline s => (s.policy, s.config.deadlineAware)
  | s => (none, s.config.deadlineAware)

theorem computeScore_eq (hheap : s.discipline = .heap) (m : Moment ν) (r : InferenceRequest ν) :
    s.computeScore m r = scoreWith s.scoring.1 s.scoring.2 m r := by
  cases s with
  | deadlineAware s => rfl
  | modelDeadline s => rfl
  | tieredDeadline s => rfl
  | _ => cases hheap

theorem dropOldest_scoring (hheap : s.discipline = .heap) :
    s.dropOldest.2.scoring = s.scoring := by
  cases s with
  | deadlineAware s => rfl
  | modelDeadline s =>
      rcases ModelDeadlineScheduler.dropOldest_frame s with ⟨hconfig, hpolicy⟩
      simp [dropOldest, scoring, hconfig, hpolicy]
  | tieredDeadline s =>
      simp only [dropOldest, Prod.map, TieredDeadlineScheduler.dropFromLowestTier]
      split <;> rfl
  | _ => cases hheap

theorem resubmit_scoring (m : Moment ν) (r : InferenceRequest ν) (hheap : s.discipline = .heap) :
    (Scheduler.resubmit m r s).state.scoring = s.scoring := by
  cases s with
  | deadlineAware s =>
      show scoring (.deadlineAware (s.resubmit m r).state) = _
      unfold DeadlineAwareScheduler.resubmit
      split <;> rfl
  | modelDeadline s =>
      rcases ModelDeadlineScheduler.resubmit_frame m r s with ⟨hconfig, hpolicy⟩
      show ((s.resubmit m r).state.policy, (s.resubmit m r).state.config.modelDeadline) = _
      rw [hconfig, hpolicy]
      rfl
  | tieredDeadline s =>
      show scoring (.tieredDeadline (s.resubmit m r).state) = _
      unfold TieredDeadlineScheduler.resubmit
      dsimp only
      split <;> rfl
  | _ => cases hheap

theorem nextBatchForTier_scoring (tier : Nat) (s : TieredDeadlineScheduler ν) :
    scoring (.tieredDeadline (s.nextBatchForTier tier).2) = scoring (.tieredDeadline s) := by
  unfold TieredDeadlineScheduler.nextBatchForTier
  split <;> rfl

theorem nextBatch_scoring (now : Rat) (hheap : s.discipline = .heap) :
    (Scheduler.nextBatch now s).2.scoring = s.scoring := by
  cases s with
  | deadlineAware s =>
      show scoring (.deadlineAware s.nextBatch.2) = _
      rcases s.nextBatch_cases with ⟨-, heq⟩ | ⟨_, _, -, heq⟩
      · rw [heq]
      · rw [heq]
        rfl
  | modelDeadline s =>
      show scoring (.modelDeadline s.nextBatch.2) = _
      rcases s.nextBatch_spec with ⟨-, heq⟩ | ⟨modelId, -, heq⟩
      · rw [heq]
      · rcases ModelDeadlineScheduler.nextBatchForModel_frame modelId s with ⟨hconfig, hpolicy⟩
        simp [heq, scoring, hconfig, hpolicy]
  | tieredDeadline s =>
      show scoring (.tieredDeadline s.nextBatch.2) = _
      unfold TieredDeadlineScheduler.nextBatch
      -- the tiers are asked one after the other
      generalize List.range s.numTiers = tiers
      induction tiers generalizing s with
      | nil => rfl
      | cons tier tiers ih =>
          simp only [firstBatch]
          split
          · rw [ih _ rfl]
            exact nextBatchForTier_scoring tier s
          · exact nextBatchForTier_scoring tier s
  | _ => cases hheap

/-- Every turn but `use_policy` leaves it alone. -/
theorem turn_scoring {c : Turn ν} (hheap : s.discipline = .heap)
    (hc : ∀ registered policyName, c ≠ .later (.usePolicy registered policyName)) :
    (s.turn c).2.scoring = s.scoring := by
  cases c with
  | nextBatchForTier tier =>
      cases s with
      | tieredDeadline s => exact nextBatchForTier_scoring tier s
      | _ => rfl
  | later c =>
      cases c with
      | usePolicy registered policyName => exact absurd rfl (hc registered policyName)
      | nextBatchForModel modelId =>
          cases s with
          | modelDeadline s =>
              rcases ModelDeadlineScheduler.nextBatchForModel_frame modelId s with ⟨hconfig, hpolicy⟩
              simp [turn, serve, nextBatchForModel, scoring, hconfig, hpolicy]
          | _ => rfl
      | call c =>
          cases c with
          | nextBatch now => exact nextBatch_scoring now hheap
          | tick clock => cases s <;> rfl
          | onClientConnected clientId =>
              cases s with
              | roundRobin s => cases hheap
              | _ => rfl
          | onClientDisconnected clientId => cases s <;> first | rfl | cases hheap
          | resubmit m r => exact resubmit_scoring m r hheap
          | submit m r =>
              simp only [turn, serve, accountedCall]
              rcases submit_cases m r s with ⟨-, ho⟩ | ⟨-, -, ho⟩ | ⟨-, -, ho⟩
              · rw [ho]
                exact resubmit_scoring m r hheap
              · rw [ho]
              · rw [ho]
                have hheap' : s.dropOldest.2.discipline = .heap := by cases s <;> exact hheap
                exact (resubmit_scoring m r hheap').trans (dropOldest_scoring hheap)

end Scoring

/-! ## Numeric queues -/

/-- All scores are numbers, no two requests share a counter, and the heaps are heaps. -/
structure AllNumeric (s : AnyScheduler PyFloat) : Prop extends Kept s where
  heaps : s.discipline = .heap
  numeric : ∀ key, ∀ x ∈ s.held key, x.Numeric
  unique : ∀ key key', ∀ x ∈ s.held key, ∀ y ∈ s.held key', x.counter = y.counter → x = y
  isHeap : ∀ key, IsHeap InferenceRequest.placedBefore (s.held key)

/-- A call that puts in at most one request, with a numeric score. -/
theorem Acts.allNumeric {new : InferenceRequest PyFloat → Prop} {s s' : AnyScheduler PyFloat}
    {out : List (InferenceRequest PyFloat)} (h : Acts new s s' out) (hs : s.AllNumeric)
    (hnumeric : ∀ x, new x → x.Numeric) (hone : ∀ x y, new x → new y → x = y) :
    s'.AllNumeric := by
  -- what is queued afterwards was queued before, or is the new request
  have hmem : ∀ key, ∀ x ∈ s'.held key, x ∈ s.held key ∨ new x := by
    intro key x hx
    rcases (h.works key).mem (List.mem_append_right _ hx) with hold | ⟨hnew, -⟩
    · exact .inl hold
    · exact .inr hnew
  have hfresh : ∀ key, ∀ x ∈ s.held key, ∀ y, new y → x.counter ≠ y.counter := by
    intro key x hx y hy
    have hbelow := (hs.numbered hs.heaps key).fresh x hx
    have habove := (h.stamped hs.heaps y hy).1
    omega
  refine ⟨h.kept hs.toKept, h.discipline.trans hs.heaps, ?_, ?_, ?_⟩
  · intro key x hx
    rcases hmem key x hx with hold | hnew
    · exact hs.numeric key x hold
    · exact hnumeric x hnew
  · intro key key' x hx y hy hcounter
    rcases hmem key x hx with hx | hx <;> rcases hmem key' y hy with hy | hy
    · exact hs.unique key key' x hx y hy hcounter
    · exact absurd hcounter (hfresh key x hx y hy)
    · exact absurd hcounter.symm (hfresh key' y hy x hx)
    · exact hone x y hx hy
  · intro key
    have hworks := h.works key
    rw [hs.heaps] at hworks
    have hplaced := hworks.congr InferenceRequest.agree_placedBefore (hs.numeric key)
      fun x hx => hnumeric x hx.1
    exact hplaced.isHeap (hs.isHeap key)

/-- The built-in score of every request that the turn queues is a number. -/
def Turn.Scores (weights : DeadlineAwareConfig PyFloat) : Turn PyFloat → Prop
  | .later (.usePolicy _ _) => False
  | c => ∀ e ∈ c.enqueued, Comparable weights e.1.now e.2

instance (weights : DeadlineAwareConfig PyFloat) : ∀ c, Decidable (Turn.Scores weights c)
  | .later (.usePolicy _ _) => isFalse id
  | .later (.call c) =>
      inferInstanceAs (Decidable (∀ e ∈ (Turn.later (.call c)).enqueued,
        Comparable weights e.1.now e.2))
  | .later (.nextBatchForModel modelId) =>
      inferInstanceAs (Decidable (∀ e ∈ (Turn.later (.nextBatchForModel modelId)).enqueued,
        Comparable weights e.1.now e.2))
  | .nextBatchForTier tier =>
      inferInstanceAs (Decidable (∀ e ∈ (Turn.nextBatchForTier tier).enqueued,
        Comparable weights e.1.now e.2))

theorem Turn.enqueued_unique {ν : Type} {c : Turn ν} {e e' : Moment ν × InferenceRequest ν}
    (he : e ∈ c.enqueued) (he' : e' ∈ c.enqueued) : e = e' := by
  unfold enqueued at he he'
  split at he
  · rw [List.mem_singleton.mp he, List.mem_singleton.mp he']
  · rw [List.mem_singleton.mp he, List.mem_singleton.mp he']
  · cases he

theorem AllNumeric.turn {s : AnyScheduler PyFloat} (hs : s.AllNumeric) (hinv : s.Inv)
    (hpolicy : s.scoring.1 = none) {c : Turn PyFloat} (hc : c.Scores s.scoring.2) :
    (s.turn c).2.AllNumeric ∧ (s.turn c).2.scoring = s.scoring := by
  have hno : ∀ registered policyName, c ≠ .later (.usePolicy registered policyName) := by
    rintro registered policyName rfl
    exact hc
  have hcomparable : ∀ e ∈ c.enqueued, Comparable s.scoring.2 e.1.now e.2 := by
    unfold Turn.Scores at hc
    split at hc
    · exact absurd hc id
    · exact hc
  refine ⟨?_, turn_scoring hs.heaps hno⟩
  rcases turn_acts_from c hinv hs.own with ⟨s₁, new, hfrom, hdrop, hact, hnew⟩
  have hs₁ := hdrop.allNumeric hs (fun _ hx => absurd hx id) fun _ _ hx => absurd hx id
  have hscoring : s₁.scoring = s.scoring := by
    rcases hfrom with rfl | rfl
    · rfl
    · exact dropOldest_scoring hs.heaps
  -- the score of a new request is the sum of its terms
  have hstamp : ∀ x, new x → ∃ e ∈ c.enqueued, ∃ score,
      weightedScore s.scoring.2 e.1.now e.2 = .ok score ∧ x = e.2.stamp score s₁.ticket := by
    intro x hx
    rcases hnew x hx with ⟨e, he, henqueues⟩
    unfold Enqueues at henqueues
    rw [hs₁.heaps] at henqueues
    rcases henqueues with ⟨score, hscore, hstamped⟩
    rw [computeScore_eq hs₁.heaps, hscoring, hpolicy] at hscore
    exact ⟨e, he, score, hscore, hstamped⟩
  apply hact.allNumeric hs₁
  · intro x hx
    rcases hstamp x hx with ⟨e, he, score, hscore, rfl⟩
    exact weightedScore_ne_nan (hcomparable e he) hscore
  · intro x y hx hy
    rcases hstamp x hx with ⟨e, he, score, hscore, rfl⟩
    rcases hstamp y hy with ⟨e', he', score', hscore', rfl⟩
    have hsame := Turn.enqueued_unique he he'
    subst hsame
    rw [hscore] at hscore'
    cases hscore'
    rfl

/-! ## Soundness -/

/-- `__lt__` is a strict total order on the queued requests, and of two numeric ones in a heap the
one with the higher score, or at equal scores the smaller counter, goes out first. -/
structure OrderSound (s : AnyScheduler PyFloat) : Prop where
  irrefl : ∀ x ∈ s.stored, x.lt x = false
  trans : ∀ x ∈ s.stored, ∀ y ∈ s.stored, ∀ z ∈ s.stored,
    x.lt y = true → y.lt z = true → x.lt z = true
  total : ∀ x ∈ s.stored, ∀ y ∈ s.stored, x ≠ y → x.lt y = true ∨ y.lt x = true
  first : ∀ c x, x ∈ (s.turn c).1 → ∀ y ∈ (s.turn c).2.held (s.queueKey x),
    y ∈ s.stored → x.Numeric → y.Numeric →
      y.score < x.score ∨ (x.score == y.score) = true ∧ x.counter < y.counter

namespace AllNumeric

variable {s : AnyScheduler PyFloat}

theorem lt_iff (hs : s.AllNumeric) {x y : InferenceRequest PyFloat} (hx : x ∈ s.stored)
    (hy : y ∈ s.stored) : x.lt y = true ↔ x.place < y.place := by
  rcases mem_stored.mp hx with ⟨key, hx⟩
  rcases mem_stored.mp hy with ⟨key', hy⟩
  have hagree := InferenceRequest.agree_placedBefore x y (hs.numeric key x hx)
    (hs.numeric key' y hy)
  rw [← hagree, InferenceRequest.placedBefore, decide_eq_true_eq]

theorem place_inj (hs : s.AllNumeric) {x y : InferenceRequest PyFloat} (hx : x ∈ s.stored)
    (hy : y ∈ s.stored) (h : x.place = y.place) : x = y := by
  rcases mem_stored.mp hx with ⟨key, hx⟩
  rcases mem_stored.mp hy with ⟨key', hy⟩
  have hcounter : x.counter = y.counter := congrArg (fun p => (ofLex p).2) h
  exact hs.unique key key' x hx y hy hcounter

end AllNumeric

/-- What a call on a heap gives out stands before what stays. -/
theorem Acts.first {new : InferenceRequest PyFloat → Prop} {s s' : AnyScheduler PyFloat}
    {out : List (InferenceRequest PyFloat)} (h : Acts new s s' out) (hs : s.AllNumeric)
    (hnumeric : ∀ x, new x → x.Numeric) {x : InferenceRequest PyFloat} (hx : x ∈ out) :
    ∀ y ∈ s'.held (s.queueKey x), x.place < y.place := by
  intro y hy
  have hworks := (h.works (s.queueKey x)).congr InferenceRequest.agree_placedBefore
    (hs.numeric (s.queueKey x)) fun x hx => hnumeric x hx.1
  have hmem : x ∈ out.filter fun x' => s.queueKey x' = s.queueKey x :=
    List.mem_filter.mpr ⟨hx, by simp⟩
  generalize out.filter (fun x' => s.queueKey x' = s.queueKey x) = gone at hworks hmem
  generalize hheld : s'.held (s.queueKey x) = rest at hworks hy
  rw [hs.heaps] at hworks
  have hnumbered := (hs.numbered hs.heaps (s.queueKey x)).distinct
  have hplaced := hs.isHeap (s.queueKey x)
  generalize s.held (s.queueKey x) = queue at hworks hnumbered hplaced
  cases hworks with
  | pop hpop =>
      rcases List.mem_singleton.mp hmem with rfl
      have hperm := heappop_perm hpop
      have hle := heappop_first hplaced hpop y (hperm.mem_iff.mpr (List.mem_cons_of_mem _ hy))
      simp only [InferenceRequest.placedBefore, decide_eq_false_iff_not, not_lt] at hle
      -- they do not stand in one place, as their counters differ
      refine lt_of_le_of_ne hle fun heq => ?_
      have hcounter : x.counter = y.counter := congrArg (fun p => (ofLex p).2) heq
      have hnodup := (hperm.map InferenceRequest.counter).nodup_iff.mp hnumbered
      rw [List.map_cons, List.nodup_cons, hcounter] at hnodup
      exact hnodup.1 (List.mem_map_of_mem hy)
  | _ => cases hmem

/-- What holds of the queues between the turns, under these weights. -/
structure Scored (weights : DeadlineAwareConfig PyFloat) (s : AnyScheduler PyFloat) : Prop extends
    AllNumeric s where
  inv : s.Inv
  scoring : s.scoring = (none, weights)

theorem Scored.turn {weights : DeadlineAwareConfig PyFloat} {s : AnyScheduler PyFloat}
    (hs : s.Scored weights) {c : Turn PyFloat} (hc : c.Scores weights) :
    (s.turn c).2.Scored weights := by
  have hpolicy : s.scoring.1 = none := congrArg Prod.fst hs.scoring
  have hweights : s.scoring.2 = weights := congrArg Prod.snd hs.scoring
  rcases hs.toAllNumeric.turn hs.inv hpolicy (c := c) (by rwa [hweights]) with ⟨hnumeric, hsame⟩
  exact ⟨hnumeric, turn_inv c hs.inv, hsame.trans hs.scoring⟩

theorem turn_enqueued {ν : Type} [Score ν] {s : AnyScheduler ν} {c : Turn ν}
    {x : InferenceRequest ν} (hx : x ∈ (s.turn c).1) : c.enqueued = [] := by
  unfold Turn.enqueued
  split
  · cases hx
  · cases hx
  · rfl

theorem Scored.orderSound {weights : DeadlineAwareConfig PyFloat} {s : AnyScheduler PyFloat}
    (hs : s.Scored weights) : s.OrderSound where
  irrefl x hx := by
    have hlt := hs.lt_iff hx hx
    simpa using hlt
  trans x hx y hy z hz hxy hyz := by
    rw [hs.lt_iff hx hy] at hxy
    rw [hs.lt_iff hy hz] at hyz
    rw [hs.lt_iff hx hz]
    exact hxy.trans hyz
  total x hx y hy hne := by
    rw [hs.lt_iff hx hy, hs.lt_iff hy hx]
    exact lt_or_gt_of_ne fun heq => hne (hs.place_inj hx hy heq)
  first c x hx y hy _ hx' hy' := by
    rcases turn_acts c hs.inv hs.own with ⟨s₁, new, hdrop, hact, hnew⟩
    have hs₁ := hdrop.allNumeric hs.toAllNumeric (fun _ hx => absurd hx id)
      fun _ _ hx => absurd hx id
    rw [← InferenceRequest.place_lt_iff hx' hy']
    refine hact.first hs₁ (fun z hz => ?_) hx y (by rwa [hdrop.queueKey])
    -- a turn that gives out requests queues none
    rcases hnew z hz with ⟨e, he, -⟩
    rw [turn_enqueued hx] at he
    cases he

/-- As long as no policy is used and the score of every request that is queued is a number,
`__lt__` is sound in every state. -/
theorem order_sound_throughout (config : SchedulingConfig PyFloat) {s : AnyScheduler PyFloat}
    (hcreate : createScheduler config = .ok s) (hheap : s.discipline = .heap)
    (cs : List (Turn PyFloat)) (hcs : ∀ c ∈ cs, c.Scores s.scoring.2) :
    Throughout (fun s c => (s.turn c).2) OrderSound s cs := by
  have hpolicy : s.scoring = (none, s.scoring.2) := by
    rcases createScheduler_cases hcreate with
      ⟨-, rfl⟩ | ⟨-, rfl⟩ | ⟨-, rfl⟩ | ⟨-, rfl⟩ | ⟨-, rfl⟩ | ⟨-, rfl⟩ <;> rfl
  have hempty := createScheduler_held hcreate
  have hs : s.Scored s.scoring.2 := by
    refine ⟨⟨createScheduler_kept hcreate, hheap, ?_, ?_, ?_⟩, (Reachable.create hcreate).inv,
      hpolicy⟩
    · simp [hempty]
    · simp [hempty]
    · intro key
      rw [hempty key]
      exact isHeap_nil
  generalize s.scoring.2 = weights at hcs hs
  refine throughout_of_inv (q := fun _ c => c.Scores weights) (Scored weights)
    (fun s c hs hc => hs.turn hc) (fun s hs => hs.orderSound) hs ?_
  clear hs hempty hpolicy hheap hcreate
  induction cs generalizing s with
  | nil => trivial
  | cons c cs ih => exact ⟨hcs c (by simp), ih fun c hc => hcs c (List.mem_cons_of_mem _ hc)⟩

/-! ## Observations with an urgency -/

/-- The four bytes of some `float` values. -/
def singles : PyFloat → Bytes
  | .nan => [0, 0, 192, 127]
  | .posInf => [0, 0, 128, 127]
  | .negInf => [0, 0, 128, 255]
  | .fin q => if q = 1 then [0, 0, 128, 63] else if q = 2 then [0, 0, 0, 64] else [0, 0, 0, 0]

def urgentEnvelope (urgency : PyFloat) : Bytes :=
  Wire.client 1 "robot-01" ++ (Wire.tag 3 5 ++ singles urgency) ++ Wire.stringField 5 "policy" ++
    Wire.varintField 8 1

def urgentMessages (urgencies : List PyFloat) : Protobuf PyFloat where
  parseObservation envelope :=
    match urgencies.find? fun urgency => urgentEnvelope urgency = envelope with
    | some urgency =>
        .ok {
          client := some "robot-01"
          timestampNs := 0
          urgency := urgency
          tensors := []
          modelId := "policy"
          stepsRemaining := none
          metadata := Dict.empty
          priority := 1 }
    | none => .error "Error parsing message"
  serializeResponse := Wire.modelResponse
  keyError := "bad argument type for built-in operation"

def urgentDecoded (urgency : PyFloat) : DecodedObservation PyFloat where
  clientId := "robot-01"
  modelId := "policy"
  timestampNs := 0
  urgency := urgency
  priority := 1
  stepsRemaining := none
  slots := []
  envelope := urgentEnvelope urgency
  payload := []
  receivedAt := 0
  stalenessMs := 0

/-- With the default values. -/
def urgentConfig : InferentialConfig PyFloat where
  scheduling := {
    strategy := "deadline_aware"
    batchOptimized := plainConfig.scheduling.batchOptimized
    priorityTiered := plainConfig.scheduling.priorityTiered
    predictivePreDispatch := plainConfig.scheduling.predictivePreDispatch
    maxQueueSize_ge := plainConfig.scheduling.maxQueueSize_ge
    requestTtlMs_gt := plainConfig.scheduling.requestTtlMs_gt
    maxConcurrentDispatch_ge := plainConfig.scheduling.maxConcurrentDispatch_ge }
  models := plainConfig.models
  clients := {}
  responseTracking := plainConfig.responseTracking
  metrics := plainConfig.metrics

/-- The requests of these observations are submitted one after the other. -/
def submitUrgent (urgencies : List PyFloat) : List (Turn PyFloat) :=
  urgencies.zipIdx.map fun observed =>
    .later (.call (.submit ⟨0, fun _ _ => .ok (.fin 0)⟩
      (Server.buildRequest urgentConfig
        { identity := [1], envelope := urgentEnvelope observed.1, payload := [], receivedAt := 0 }
        (urgentDecoded observed.1) 0 observed.2)))

/-- The infinite urgency is a number. -/
theorem order_sound_throughout_infinite :
    Throughout (fun s c => (s.turn c).2) OrderSound
      (.deadlineAware (.init urgentConfig.scheduling))
      (submitUrgent [.fin 1, .posInf, .fin 0, .fin 2]) :=
  order_sound_throughout urgentConfig.scheduling rfl rfl _ (by decide +kernel)

/-- After an urgency that is a NaN, the request with score 34 goes out before the one with
score 59. -/
theorem nan_urgency_unsound :
    let urgencies : List PyFloat := [.fin 1, .nan, .fin 0, .fin 2]
    (∀ urgency ∈ urgencies, decode (urgentMessages urgencies) 0 (urgentEnvelope urgency) [] 0 =
      .ok (urgentDecoded urgency)) ∧
    .fin 0 < urgentConfig.getClientBudget "robot-01" ∧
    createScheduler urgentConfig.scheduling =
      .ok (.deadlineAware (.init urgentConfig.scheduling)) ∧
    ¬ Throughout (fun s c => (s.turn c).2) OrderSound
      (.deadlineAware (.init urgentConfig.scheduling)) (submitUrgent urgencies) := by
  intro urgencies
  refine ⟨?_, by decide +kernel, rfl, ?_⟩
  · intro urgency hmem
    simp only [urgencies, List.mem_cons, List.not_mem_nil, or_false] at hmem
    rcases hmem with rfl | rfl | rfl | rfl <;> rfl
  · rintro ⟨-, -, -, -, hsound⟩
    let s : AnyScheduler PyFloat :=
      (submitUrgent urgencies).foldl (fun s c => (s.turn c).2)
        (.deadlineAware (.init urgentConfig.scheduling))
    let next : Turn PyFloat := .later (.call (.nextBatch 0))
    have hpassed : ∃ x ∈ (s.turn next).1, ∃ y ∈ (s.turn next).2.held (s.queueKey x),
        y ∈ s.stored ∧ x.score ≠ .nan ∧ y.score ≠ .nan ∧
        ¬ (y.score < x.score ∨ (x.score == y.score) = true ∧ x.counter < y.counter) := by
      decide +kernel
    rcases hpassed with ⟨x, hx, y, hy, hstored, hx', hy', hnot⟩
    exact hnot (hsound.first next x hx y hy hstored hx' hy')

end AnyScheduler
end Inferential
