import Inferential.Scheduler.Atomicity
import Inferential.Scheduler.ScoreOrder
import Mathlib.Tactic.Linarith
import Mathlib.Tactic.Positivity

/-!
# Budgets — the divisor of the age term

The budget of a request comes from the entry of its client, which the schema does not constrain, or
from the defaults, which it does.  A budget of zero makes every score raise, a negative one turns
the age term against the requests that wait, and budgets and weights may be infinite or a NaN.
-/

namespace Inferential

open PyStd

namespace AnyScheduler

section Division

variable {ν : Type} [Score ν] {config : SchedulingConfig ν} {s : AnyScheduler ν}

/-- A scheduler of the configuration that scores by itself. -/
structure ScoresBuiltIn (config : SchedulingConfig ν) (s : AnyScheduler ν) : Prop where
  config_eq : s.config = config
  heap : s.discipline = .heap
  noPolicy : s.scoring.1 = none

theorem fails_builtIn_iff (hs : s.ScoresBuiltIn config) (m : Moment ν) (r : InferenceRequest ν)
    (e : PyError) :
    s.Fails m r e ↔ Score.isZero r.latencyBudgetMs = true ∧ e = .zeroDivisionError := by
  rcases hs with ⟨-, hheap, hpolicy⟩
  cases s with
  | deadlineAware s => simp only [Fails, ScoringFails, show s.policy = none from hpolicy]
  | modelDeadline s => simp only [Fails, ScoringFails, show s.policy = none from hpolicy]
  | tieredDeadline s => simp only [Fails, ScoringFails, show s.policy = none from hpolicy]
  | batchOptimized s => cases hheap
  | priorityTiered s => cases hheap
  | roundRobin s => cases hheap

/-- A submission divides by zero only for a budget of zero. -/
theorem submit_ne_zeroDivision (hs : s.ScoresBuiltIn config) (m : Moment ν)
    {r : InferenceRequest ν} (hbudget : ¬ Score.isZero r.latencyBudgetMs = true) :
    (Scheduler.submit m r s).raised ≠ some .zeroDivisionError := by
  by_cases hrefuse : s.config.overflowPolicy = .rejectNewest ∧ s.Full
  · have ho : Scheduler.submit m r s =
        { state := s, raised := some (.queueFullError r.clientId) } :=
      AccountedScheduler.submit_reject m r hrefuse.2 hrefuse.1
    simp [ho]
  · rw [Ne, submit_raised_eq_iff m r hrefuse, fails_builtIn_iff hs]
    exact fun h => hbudget h.1

/-- A new scheduler has room, so it comes to score the request. -/
theorem submit_init_zeroDivision (config : SchedulingConfig ν) (m : Moment ν)
    {r : InferenceRequest ν} (hbudget : Score.isZero r.latencyBudgetMs = true) :
    (Scheduler.submit m r (.deadlineAware (.init config) : AnyScheduler ν)).raised =
      some .zeroDivisionError := by
  have hroom : ¬ (AnyScheduler.deadlineAware (.init config)).Full := by
    have hcapacity := config.maxQueueSize_ge
    have hlength : (AnyScheduler.deadlineAware (.init config)).queueLen = 0 := rfl
    have hmax : (AnyScheduler.deadlineAware (.init config)).config.maxQueueSize =
      config.maxQueueSize := rfl
    unfold Full
    omega
  apply (submit_raised_eq_iff m r (fun hrefuse => hroom hrefuse.2) .zeroDivisionError).mpr
  exact ⟨hbudget, rfl⟩

/-- The computed score is what the signals give and the age term. -/
theorem computeScore_builtIn (hs : s.ScoresBuiltIn config) (m : Moment ν)
    {r : InferenceRequest ν} (hbudget : ¬ Score.isZero r.latencyBudgetMs = true) :
    s.computeScore m r = .ok (signalScore s.scoring.2 r + ageTerm s.scoring.2 m.now r) := by
  rw [computeScore_eq hs.heap, hs.noPolicy, scoreWith, weightedScore, if_neg hbudget]

/-- The weights are those of one of the two sections of the configuration. -/
theorem scoring_weights (hs : s.ScoresBuiltIn config) :
    s.scoring.2 = config.deadlineAware ∨ s.scoring.2 = config.modelDeadline := by
  rcases hs with ⟨rfl, hheap, -⟩
  cases s with
  | deadlineAware s => exact .inl rfl
  | modelDeadline s => exact .inr rfl
  | tieredDeadline s => exact .inl rfl
  | batchOptimized s => cases hheap
  | priorityTiered s => cases hheap
  | roundRobin s => cases hheap

end Division

end AnyScheduler

/-! ## The age term -/

/-- Nothing divides by zero, and where the request has arrived and the weight is not negative, the
computed score is what the signals give and an age term between zero and the weight. -/
structure ScoresSafely (config : SchedulingConfig PyFloat) (m : Moment PyFloat)
    (r : InferenceRequest PyFloat) : Prop where
  division : ∀ s : AnyScheduler PyFloat, s.ScoresBuiltIn config →
    (Scheduler.submit m r s).raised ≠ some .zeroDivisionError
  age : ∀ s : AnyScheduler PyFloat, s.ScoresBuiltIn config → r.receivedAt ≤ m.now →
    .fin 0 ≤ s.scoring.2.ageWeight →
      s.computeScore m r = .ok (signalScore s.scoring.2 r + ageTerm s.scoring.2 m.now r) ∧
        .fin 0 ≤ ageTerm s.scoring.2 m.now r ∧
        ageTerm s.scoring.2 m.now r ≤ s.scoring.2.ageWeight

/-- Which budgets keep the age term between zero and the weight, at this age. -/
def BudgetFits (weight : PyFloat) (age : Rat) : PyFloat → Prop
  | .nan => False
  -- such a budget is never used up; zero times an infinite weight is a NaN
  | .posInf => weight ≠ .posInf
  | .negInf => weight ≠ .posInf
  | .fin budget =>
      0 < budget ∧ (weight = .posInf → 0 < age) ∨
        budget < 0 ∧ weight ≠ .posInf ∧ (weight = .fin 0 ∨ age = 0)

/-- The part of the weight that an age counts for. -/
def ageShare (budget : PyFloat) (age : Rat) : PyFloat :=
  Score.min (.fin (age * 1000) / budget) (.fin 1)

theorem ageShare_fin (budget age : Rat) :
    ageShare (.fin budget) age = .fin (min (age * 1000 / budget) 1) := by
  show (if (PyFloat.fin 1) < .fin (age * 1000 / budget) then PyFloat.fin 1
    else .fin (age * 1000 / budget)) = _
  have hlt : (PyFloat.fin 1 < .fin (age * 1000 / budget)) ↔ 1 < age * 1000 / budget := by
    show decide _ = true ↔ _
    rw [decide_eq_true_eq]
  split
  · next h => rw [min_eq_right (hlt.mp h).le]
  · next h => rw [min_eq_left (not_lt.mp (mt hlt.mpr h))]

/-- A share of the weight that is a number is in range where it is at least zero, or the weight is
zero; an infinite weight needs a share that is not zero. -/
theorem share_inRange_iff {share : Rat} (hle : share ≤ 1) {weight : PyFloat}
    (hweight : .fin 0 ≤ weight) :
    .fin 0 ≤ .fin share * weight ∧ .fin share * weight ≤ weight ↔
      (weight = .posInf → 0 < share) ∧ (0 ≤ share ∨ weight = .fin 0) := by
  rcases PyFloat.zero_le_iff.mp hweight with rfl | ⟨w, hw, rfl⟩
  · show .fin 0 ≤ PyFloat.infinity share ∧ PyFloat.infinity share ≤ _ ↔ _
    rcases lt_trichotomy share 0 with hneg | rfl | hpos
    · have hinf : PyFloat.infinity share = .negInf := by
        simp [PyFloat.infinity, hneg.ne, hneg.not_gt]
      rw [hinf]
      exact iff_of_false (by decide) fun h => absurd (h.1 rfl) hneg.not_gt
    · exact iff_of_false (by decide) fun h => absurd (h.1 rfl) (lt_irrefl 0)
    · have hinf : PyFloat.infinity share = .posInf := by
        simp [PyFloat.infinity, hpos.ne', hpos]
      rw [hinf]
      exact iff_of_true (by decide) ⟨fun _ => hpos, .inl hpos.le⟩
  · show PyFloat.fin 0 ≤ .fin (share * w) ∧ PyFloat.fin (share * w) ≤ .fin w ↔ _
    rw [PyFloat.fin_le_fin, PyFloat.fin_le_fin]
    have hmost : share * w ≤ w := mul_le_of_le_one_left hw hle
    simp only [hmost, and_true, reduceCtorEq, false_implies, true_and, PyFloat.fin.injEq]
    constructor
    · intro hnonneg
      by_contra hnot
      rcases not_or.mp hnot with ⟨hshare, hzero⟩
      have hneg := mul_neg_of_neg_of_pos (not_le.mp hshare) (lt_of_le_of_ne hw (Ne.symm hzero))
      exact absurd hnonneg (not_le.mpr hneg)
    · rintro (hshare | hzero)
      · exact mul_nonneg hshare hw
      · rw [hzero, mul_zero]

theorem ageShare_inRange_iff {budget weight : PyFloat} {age : Rat} (hbudget : budget ≠ .fin 0)
    (hage : 0 ≤ age) (hweight : .fin 0 ≤ weight) :
    .fin 0 ≤ ageShare budget age * weight ∧ ageShare budget age * weight ≤ weight ↔
      BudgetFits weight age budget := by
  -- an infinite budget makes every age a share of zero
  have hinfinite : .fin 0 ≤ .fin 0 * weight ∧ .fin 0 * weight ≤ weight ↔ weight ≠ .posInf := by
    rw [share_inRange_iff zero_le_one hweight]
    simp
  cases budget with
  | nan =>
      have hnan : ageShare .nan age * weight = .nan := PyFloat.mul_eq_nan.mpr (.inl rfl)
      rw [hnan]
      exact iff_of_false (fun h => absurd h.1 (by decide)) id
  | posInf => exact hinfinite
  | negInf => exact hinfinite
  | fin b =>
      have hnonzero : b ≠ 0 := fun h => hbudget (congrArg PyFloat.fin h)
      rw [ageShare_fin, share_inRange_iff (min_le_right _ _) hweight]
      rcases lt_or_gt_of_ne hnonzero with hneg | hpos
      · -- the share is the negative of an age, or zero
        have hshare : age * 1000 / b ≤ 0 := div_nonpos_of_nonneg_of_nonpos (by positivity) hneg.le
        have hzero : 0 ≤ age * 1000 / b ↔ age = 0 := by
          rw [le_iff_eq_or_lt, or_iff_left hshare.not_gt, eq_comm, div_eq_zero_iff]
          simp [hnonzero]
        rw [min_eq_left (hshare.trans zero_le_one)]
        simp [BudgetFits, hneg, hneg.not_gt, hshare.not_gt, hzero, or_comm]
      · have hshare : 0 ≤ min (age * 1000 / b) 1 := le_min (by positivity) zero_le_one
        have hpositive : 0 < min (age * 1000 / b) 1 ↔ 0 < age := by
          rw [lt_min_iff, div_pos_iff_of_pos_right hpos]
          simp
        simp [BudgetFits, hpos, hpos.not_gt, hshare, hpositive]

/-! ## The budget that decides -/

theorem scoresSafely_iff (config : SchedulingConfig PyFloat) (m : Moment PyFloat)
    (r : InferenceRequest PyFloat) :
    ScoresSafely config m r ↔
      r.latencyBudgetMs ≠ .fin 0 ∧ (r.receivedAt ≤ m.now →
        ∀ weights ∈ [config.deadlineAware, config.modelDeadline], .fin 0 ≤ weights.ageWeight →
          BudgetFits weights.ageWeight (m.now - r.receivedAt) r.latencyBudgetMs) := by
  have hisZero : Score.isZero r.latencyBudgetMs = true ↔ r.latencyBudgetMs = .fin 0 :=
    PyFloat.beq_fin
  by_cases hbudget : r.latencyBudgetMs = .fin 0
  · refine iff_of_false (fun hsafe => ?_) fun h => h.1 hbudget
    exact hsafe.division (.deadlineAware (.init config)) ⟨rfl, rfl, rfl⟩
      (AnyScheduler.submit_init_zeroDivision config m (hisZero.mpr hbudget))
  · have hnonzero := mt hisZero.mp hbudget
    have hterm : r.receivedAt ≤ m.now → ∀ weights : DeadlineAwareConfig PyFloat,
        .fin 0 ≤ weights.ageWeight →
          (.fin 0 ≤ ageTerm weights m.now r ∧ ageTerm weights m.now r ≤ weights.ageWeight ↔
            BudgetFits weights.ageWeight (m.now - r.receivedAt) r.latencyBudgetMs) :=
      fun hage weights hweight => ageShare_inRange_iff hbudget (sub_nonneg.mpr hage) hweight
    constructor
    · intro hsafe
      refine ⟨hbudget, fun hage weights hmem hweight => (hterm hage weights hweight).mp ?_⟩
      -- each section of the configuration has a scheduler that uses it
      simp only [List.mem_cons, List.not_mem_nil, or_false] at hmem
      rcases hmem with rfl | rfl
      · exact (hsafe.age (.deadlineAware (.init config)) ⟨rfl, rfl, rfl⟩ hage hweight).2
      · exact (hsafe.age (.modelDeadline (.init config)) ⟨rfl, rfl, rfl⟩ hage hweight).2
    · rintro ⟨-, hfits⟩
      refine ⟨fun s hs => AnyScheduler.submit_ne_zeroDivision hs m hnonzero, ?_⟩
      intro s hs hage hweight
      refine ⟨AnyScheduler.computeScore_builtIn hs m hnonzero, (hterm hage _ hweight).mpr ?_⟩
      refine hfits hage s.scoring.2 ?_ hweight
      rcases AnyScheduler.scoring_weights hs with h | h <;> simp [h]

/-- A request of the server is scored safely exactly when the budget of its client is not zero and,
if the request is scored after its arrival, fits the age weights that are not negative. -/
theorem scoring_safe_iff (config : InferentialConfig PyFloat) (msg : IncomingObservation)
    (decoded : DecodedObservation PyFloat) (timeUntilNext : Rat) (objId : Nat)
    (m : Moment PyFloat) :
    ScoresSafely config.scheduling m (Server.buildRequest config msg decoded timeUntilNext objId) ↔
      config.getClientBudget decoded.clientId ≠ .fin 0 ∧ (msg.receivedAt ≤ m.now →
        ∀ weights ∈ [config.scheduling.deadlineAware, config.scheduling.modelDeadline],
          .fin 0 ≤ weights.ageWeight → BudgetFits weights.ageWeight (m.now - msg.receivedAt)
            (config.getClientBudget decoded.clientId)) :=
  scoresSafely_iff config.scheduling m _

/-! ### A known client -/

/-- `robot-01` is known, with this budget. -/
def budgetedConfig (budget : PyFloat) : InferentialConfig PyFloat :=
  { AnyScheduler.urgentConfig with
    clients := { AnyScheduler.urgentConfig.clients with
      known := [⟨"robot-01", "policy", some budget⟩] } }

/-- An observation of `robot-01` that arrives at 0. -/
def budgetedRequest (budget : PyFloat) : InferenceRequest PyFloat :=
  Server.buildRequest (budgetedConfig budget)
    { identity := [1], envelope := AnyScheduler.urgentEnvelope (.fin 1), payload := [],
      receivedAt := 0 }
    (AnyScheduler.urgentDecoded (.fin 1)) 0 0

/-- The schema accepts a budget of zero, and then no scheduler scores the observation; under a
negative budget a request that has waited for a second has a negative age term, and under a NaN one
that is not a number. -/
theorem unbudgeted_not_safe :
    let m : Moment PyFloat := ⟨1, fun _ _ => .ok (.fin 0)⟩
    decode (AnyScheduler.urgentMessages [.fin 1]) 0 (AnyScheduler.urgentEnvelope (.fin 1)) [] 0 =
        .ok (AnyScheduler.urgentDecoded (.fin 1)) ∧
      (∀ s ∈ ([.deadlineAware (.init (budgetedConfig (.fin 0)).scheduling),
          .modelDeadline (.init (budgetedConfig (.fin 0)).scheduling),
          .tieredDeadline (.init (budgetedConfig (.fin 0)).scheduling)] :
            List (AnyScheduler PyFloat)),
        (Scheduler.submit m (budgetedRequest (.fin 0)) s).raised = some .zeroDivisionError) ∧
      ¬ ScoresSafely (budgetedConfig (.fin 0)).scheduling m (budgetedRequest (.fin 0)) ∧
      ageTerm (budgetedConfig (.fin (-1))).scheduling.modelDeadline 1 (budgetedRequest (.fin (-1))) =
        .fin (-15000) ∧
      ageTerm (budgetedConfig .nan).scheduling.modelDeadline 1 (budgetedRequest .nan) = .nan ∧
      ∀ budget ∈ [PyFloat.fin (-1), .nan],
        ¬ ScoresSafely (budgetedConfig budget).scheduling m (budgetedRequest budget) := by
  intro m
  have hterm : ∀ budget ∈ [PyFloat.fin (-1), .nan],
      ¬ .fin 0 ≤ ageTerm (budgetedConfig budget).scheduling.modelDeadline 1
        (budgetedRequest budget) := by decide +kernel
  refine ⟨rfl, by decide +kernel, fun hsafe => ?_, by decide +kernel, by decide +kernel, ?_⟩
  · exact hsafe.division (.deadlineAware (.init (budgetedConfig (.fin 0)).scheduling))
      ⟨rfl, rfl, rfl⟩ (by decide +kernel)
  · intro budget hbudget hsafe
    have hrange := hsafe.age (.modelDeadline (.init (budgetedConfig budget).scheduling))
      ⟨rfl, rfl, rfl⟩ (show (0 : Rat) ≤ 1 by decide) (show PyFloat.fin 0 ≤ .fin 15 by decide +kernel)
    exact hterm budget hbudget hrange.2.1

end Inferential
