import Inferential.Scheduler.ScoreOrder
import Mathlib.Order.WithBot
import Mathlib.Tactic.Linarith

/-!
# Pressure — the more pressing request goes first

The built-in score only grows when one of the urgency signals does.  Of two requests that are
scored at the same clock reading the more pressing one has the higher score, and with the smaller
counter it leaves their heap first.
-/

namespace Inferential

open PyStd PyStd.Heapq Machine

/-! ## The terms of the score -/

/-- `None` counts as infinitely many steps. -/
def stepsLeft : Option Nat → WithTop Nat
  | none => ⊤
  | some steps => steps

/-- In every signal, `a` is at least as urgent as `b`. -/
structure AtLeastAsPressing (now : Rat) (a b : InferenceRequest Rat) : Prop where
  timeUntilNext : a.timeUntilNext ≤ b.timeUntilNext
  urgency : b.urgency ≤ a.urgency
  stepsRemaining : stepsLeft a.stepsRemaining ≤ stepsLeft b.stepsRemaining
  priority : a.priority ≤ b.priority
  age : now - b.receivedAt ≤ now - a.receivedAt
  latencyBudgetMs : a.latencyBudgetMs ≤ b.latencyBudgetMs
  arrived : b.receivedAt ≤ now

/-- No weight is negative. -/
structure NonNegative (weights : DeadlineAwareConfig Rat) : Prop where
  cadenceWeight : 0 ≤ weights.cadenceWeight
  urgencyWeight : 0 ≤ weights.urgencyWeight
  stepsWeight : 0 ≤ weights.stepsWeight
  priorityWeight : 0 ≤ weights.priorityWeight
  ageWeight : 0 ≤ weights.ageWeight

/-- The part of its weight that `steps_remaining` adds to the score. -/
def stepsShare : Option Nat → Rat
  | none => 0
  | some steps =>
      if steps = 0 then 1
      else if steps ≤ 2 then 7 / 10
      else if steps ≤ 4 then 4 / 10
      else 0

theorem stepsTerm_eq_add (weights : DeadlineAwareConfig Rat) (s : Rat) (steps : Option Nat) :
    stepsTerm weights s steps = s + weights.stepsWeight * stepsShare steps := by
  cases steps with
  | none => simp [stepsTerm, stepsShare]
  | some steps =>
      simp only [stepsTerm, stepsShare]
      split_ifs <;> simp

theorem stepsShare_nonneg (steps : Option Nat) : 0 ≤ stepsShare steps := by
  cases steps with
  | none => simp [stepsShare]
  | some steps =>
      simp only [stepsShare]
      split_ifs <;> norm_num

/-- Every threshold of the ladder gives at least as much as the next one. -/
theorem stepsShare_anti {a b : Option Nat} (h : stepsLeft a ≤ stepsLeft b) :
    stepsShare b ≤ stepsShare a := by
  cases b with
  | none => exact stepsShare_nonneg a
  | some n =>
      cases a with
      | none => simp [stepsLeft] at h
      | some m =>
          have hle : m ≤ n := by simpa [stepsLeft] using h
          simp only [stepsShare]
          split_ifs <;> first | omega | norm_num

/-- The age in units of the budget, at most one. -/
theorem ageShare_mono {now : Rat} {a b : InferenceRequest Rat} (h : AtLeastAsPressing now a b)
    (hbudget : 0 < a.latencyBudgetMs) :
    Score.min ((now - b.receivedAt) * 1000 / b.latencyBudgetMs) 1 ≤
      Score.min ((now - a.receivedAt) * 1000 / a.latencyBudgetMs) 1 := by
  have harrived := h.arrived
  have hage := h.age
  have hlarger : (now - b.receivedAt) * 1000 ≤ (now - a.receivedAt) * 1000 := by linarith
  have hnonneg : 0 ≤ (now - a.receivedAt) * 1000 := by linarith
  rw [Score.min_rat, Score.min_rat]
  exact min_le_min_right 1 (div_le_div₀ hnonneg hlarger hbudget h.latencyBudgetMs)

theorem cadenceShare_mono {now : Rat} {a b : InferenceRequest Rat}
    (h : AtLeastAsPressing now a b) :
    max 0 (-b.timeUntilNext) / (1 / 10) ≤ max 0 (-a.timeUntilNext) / (1 / 10) := by
  have hoverdue : max 0 (-b.timeUntilNext) ≤ max 0 (-a.timeUntilNext) :=
    max_le_max_left 0 (neg_le_neg h.timeUntilNext)
  exact div_le_div_of_nonneg_right hoverdue (by norm_num)

theorem priorityShare_mono {now : Rat} {a b : InferenceRequest Rat}
    (h : AtLeastAsPressing now a b) :
    10 - min (b.priority : Rat) 10 ≤ 10 - min (a.priority : Rat) 10 := by
  have hpriority : (a.priority : Rat) ≤ b.priority := Nat.cast_le.mpr h.priority
  exact sub_le_sub_left (min_le_min_right 10 hpriority) 10

theorem signalScore_mono {weights : DeadlineAwareConfig Rat} (hweights : NonNegative weights)
    {now : Rat} {a b : InferenceRequest Rat} (h : AtLeastAsPressing now a b) :
    signalScore weights b ≤ signalScore weights a := by
  have hcadence := mul_le_mul_of_nonneg_right (cadenceShare_mono h) hweights.cadenceWeight
  have hurgency := mul_le_mul_of_nonneg_right h.urgency hweights.urgencyWeight
  have hsteps := mul_le_mul_of_nonneg_left (stepsShare_anti h.stepsRemaining) hweights.stepsWeight
  have hpriority := div_le_div_of_nonneg_right
    (mul_le_mul_of_nonneg_right (priorityShare_mono h) hweights.priorityWeight)
    (show (0 : Rat) ≤ 10 by norm_num)
  simp only [signalScore, stepsTerm_eq_add, Rat.cast_id]
  exact add_le_add (add_le_add (add_le_add (add_le_add_right hcadence 0) hurgency) hsteps) hpriority

theorem ageTerm_mono {weights : DeadlineAwareConfig Rat} (hweights : NonNegative weights)
    {now : Rat} {a b : InferenceRequest Rat} (h : AtLeastAsPressing now a b)
    (hbudget : 0 < a.latencyBudgetMs) : ageTerm weights now b ≤ ageTerm weights now a :=
  mul_le_mul_of_nonneg_right (ageShare_mono h hbudget) hweights.ageWeight

/-- The score of the more pressing request is at least as high. -/
theorem weightedScore_mono {weights : DeadlineAwareConfig Rat} (hweights : NonNegative weights)
    {now : Rat} {a b : InferenceRequest Rat} (h : AtLeastAsPressing now a b)
    (hbudget : 0 < a.latencyBudgetMs) :
    ∃ scoreA scoreB, weightedScore weights now a = .ok scoreA ∧
      weightedScore weights now b = .ok scoreB ∧ scoreB ≤ scoreA := by
  have hbudget' : 0 < b.latencyBudgetMs := hbudget.trans_le h.latencyBudgetMs
  have hscored : ∀ r : InferenceRequest Rat, 0 < r.latencyBudgetMs →
      weightedScore weights now r = .ok (signalScore weights r + ageTerm weights now r) :=
    fun r hr => if_neg (by simpa using hr.ne')
  exact ⟨_, _, hscored a hbudget, hscored b hbudget',
    add_le_add (signalScore_mono hweights h) (ageTerm_mono hweights h hbudget)⟩

namespace AnyScheduler

variable {ν : Type} [Score ν] {s : AnyScheduler ν}

/-! ## What is queued under a score -/

/-- The request `r` as it is queued under the score that it has at `now`. -/
def StampedAt (s : AnyScheduler ν) (now : Rat) (r x : InferenceRequest ν) : Prop :=
  ∃ score, weightedScore s.scoring.2 now r = .ok score ∧ x = r.stamp score x.counter

/-- Where no policy is used, every request that a turn queues has the built-in score. -/
theorem turn_stampedAt (hinv : s.Inv) (hown : s.Own) (hheap : s.discipline = .heap)
    (hpolicy : s.scoring.1 = none) {c : Turn ν} {key : QueueKey} {x : InferenceRequest ν}
    (hx : x ∈ (s.turn c).2.held key) (hnew : x ∉ s.held key) :
    ∃ e ∈ c.enqueued, s.StampedAt e.1.now e.2 x := by
  rcases turn_acts_from c hinv hown with ⟨s₁, new, hfrom, hdrop, hact, henqueues⟩
  have hscoring : s₁.scoring = s.scoring := by
    rcases hfrom with rfl | rfl
    · rfl
    · exact dropOldest_scoring hheap
  have hheap₁ := hdrop.discipline.trans hheap
  rcases (hact.works key).mem (List.mem_append_right _ hx) with hold | ⟨hnew', -⟩
  · -- it was in the queue that the eviction left
    rcases (hdrop.works key).mem (List.mem_append_right _ hold) with hold | ⟨hfalse, -⟩
    · exact absurd hold hnew
    · exact absurd hfalse id
  · rcases henqueues x hnew' with ⟨e, he, henqueue⟩
    unfold Enqueues at henqueue
    rw [hheap₁] at henqueue
    rcases henqueue with ⟨score, hscore, rfl⟩
    rw [computeScore_eq hheap₁, hscoring, hpolicy] at hscore
    exact ⟨e, he, score, hscore, rfl⟩

/-! ## What leaves first -/

/-- A turn that gives out requests gives out the first ones of a queue. -/
theorem turn_givesFirst (hown : s.Own) {c : Turn ν} {y : InferenceRequest ν}
    (hy : y ∈ (s.turn c).1) : GivesFirst s (s.turn c).2 (s.turn c).1 := by
  cases c with
  | nextBatchForTier tier =>
      cases s with
      | tieredDeadline s => exact tieredDeadline_nextBatchForTier tier hown
      | _ => cases hy
  | later c =>
      cases c with
      | nextBatchForModel modelId => exact nextBatchForModel_gives modelId hown
      | usePolicy registered policyName =>
          simp only [turn, serve] at hy
          split at hy <;> cases hy
      | call c =>
          cases c with
          | nextBatch now => exact nextBatch_gives now hown
          | _ => cases hy

theorem turn_ordered (c : Turn ν) (hinv : s.Inv) (hs : s.Ordered) :
    (s.turn c).2.Ordered ∧ (s.turn c).2.discipline = s.discipline ∧
      ∀ r, (s.turn c).2.queueKey r = s.queueKey r := by
  rcases turn_acts c hinv hs.own with ⟨s₁, new, hdrop, hact, -⟩
  exact ⟨hact.ordered (hdrop.ordered hs), hact.discipline.trans hdrop.discipline,
    fun r => (hact.queueKey r).trans (hdrop.queueKey r)⟩

section Order

variable [LawfulBEq ν] [IsStrictTotalOrder ν (· < ·)]

/-- When a heap gives out a request, it holds none that is before it. -/
theorem Ordered.not_held_of_lt (hs : s.Ordered) (hheap : s.discipline = .heap) {c : Turn ν}
    {x y : InferenceRequest ν} (hy : y ∈ (s.turn c).1) (hlt : x.lt y = true) :
    x ∉ s.held (s.queueKey y) := by
  intro hx
  have hgives := (turn_givesFirst hs.own hy).gives (s.queueKey y)
  have hmem : y ∈ (s.turn c).1.filter fun z => s.queueKey z = s.queueKey y :=
    List.mem_filter.mpr ⟨hy, by simp⟩
  have hqueue := hs.heap hheap (s.queueKey y)
  rw [hheap] at hgives
  generalize (s.turn c).1.filter (fun z => s.queueKey z = s.queueKey y) = out at hgives hmem
  generalize s.held (s.queueKey y) = queue at hgives hqueue hx
  generalize (s.turn c).2.held (s.queueKey y) = rest at hgives
  cases hgives with
  | keep => cases hmem
  | pop hpop =>
      rcases List.mem_singleton.mp hmem with rfl
      have hfirst := heappop_first hqueue hpop x hx
      rw [hlt] at hfirst
      cases hfirst

/-- As long as `x` is in the queue, a request that it is before stays there. -/
theorem Ordered.gives_after (hs : s.Ordered) (hinv : s.Inv) (hheap : s.discipline = .heap)
    {x y : InferenceRequest ν} (hlt : x.lt y = true) (cs : List (Turn ν)) (c : Turn ν)
    (hy : y ∈ ((gives turn s cs).2.turn c).1) : x ∉ (gives turn s cs).2.held (s.queueKey y) := by
  have hkept : (gives turn s cs).2.Ordered ∧ (gives turn s cs).2.Inv ∧
      (gives turn s cs).2.discipline = .heap ∧
      ∀ r, (gives turn s cs).2.queueKey r = s.queueKey r := by
    refine gives_inv (fun s' : AnyScheduler ν => s'.Ordered ∧ s'.Inv ∧ s'.discipline = .heap ∧
      ∀ r, s'.queueKey r = s.queueKey r) ?_ ⟨hs, hinv, hheap, fun _ => rfl⟩ cs
    rintro s' c' ⟨hs', hinv', hheap', hkeys⟩
    rcases turn_ordered c' hinv' hs' with ⟨hturn, hsame, hkept⟩
    exact ⟨hturn, turn_inv c' hinv', hsame.trans hheap', fun r => (hkept r).trans (hkeys r)⟩
  rcases hkept with ⟨hs', -, hheap', hkeys⟩
  rw [← hkeys y]
  exact hs'.not_held_of_lt hheap' hy hlt

end Order

/-- The score of the more pressing request is at least as high, in each of the schedulers that
compute it, and a less pressing one that was queued under the same clock reading, with a larger
counter, never leaves while the other is in the queue. -/
theorem more_pressing_first (config : SchedulingConfig Rat) {s : AnyScheduler Rat}
    (hs : Reachable config s) (hheap : s.discipline = .heap) (hweights : NonNegative s.scoring.2)
    {now : Rat} {a b : InferenceRequest Rat} (h : AtLeastAsPressing now a b)
    (hbudget : 0 < a.latencyBudgetMs) :
    (s.scoring.1 = none → ∀ m m' : Moment Rat, m.now = now → m'.now = now →
      ∃ scoreA scoreB, s.computeScore m a = .ok scoreA ∧ s.computeScore m' b = .ok scoreB ∧
        scoreB ≤ scoreA) ∧
    (s.scoring.1 = none → ∀ c key, ∀ x ∈ (s.turn c).2.held key, x ∉ s.held key →
      ∃ e ∈ c.enqueued, s.StampedAt e.1.now e.2 x) ∧
    ∀ x y, s.StampedAt now a x → s.StampedAt now b y → x.counter < y.counter →
      ∀ cs c, y ∈ ((gives turn s cs).2.turn c).1 →
        x ∉ (gives turn s cs).2.held (s.queueKey y) := by
  rcases weightedScore_mono hweights h hbudget with ⟨scoreA, scoreB, ha, hb, hle⟩
  refine ⟨?_, ?_, ?_⟩
  · intro hpolicy m m' hm hm'
    refine ⟨scoreA, scoreB, ?_, ?_, hle⟩
    · rw [computeScore_eq hheap, hpolicy, scoreWith, hm]
      exact ha
    · rw [computeScore_eq hheap, hpolicy, scoreWith, hm']
      exact hb
  · intro hpolicy c key x hx hnew
    exact turn_stampedAt hs.inv hs.kept.own hheap hpolicy hx hnew
  · rintro x y ⟨score, hscore, hx⟩ ⟨score', hscore', hy⟩ hcounter cs c hout
    rw [ha] at hscore
    rw [hb] at hscore'
    cases hscore
    cases hscore'
    have hlt : x.lt y = true := by
      rw [InferenceRequest.lt_iff, hx, hy]
      rcases hle.lt_or_eq with hlower | hequal
      · exact .inl hlower
      · exact .inr ⟨hequal.symm, hcounter⟩
    exact (hs.ordered fun _ => totalScores).gives_after hs.inv hheap hlt cs c hout

/-- Two steps left, the lowest priority and the whole budget used up. -/
def pressing : InferenceRequest Rat :=
  { plainRequest "a" "policy" 0 0 with stepsRemaining := some 2, priority := 10 }

/-- Past these boundaries, and half the budget used up. -/
def unhurried : InferenceRequest Rat :=
  { plainRequest "b" "policy" (1 / 40) 1 with stepsRemaining := some 3, priority := 11 }

theorem more_pressing_first_boundaries :
    let s := afterCalls [.call (.submit (momentAt (1 / 20)) pressing),
      .call (.submit (momentAt (1 / 20)) unhurried)]
    s.stored = [pressing.stamp (51 / 2) 0, unhurried.stamp (27 / 2) 1] ∧
      ∀ cs c, unhurried.stamp (27 / 2) 1 ∈ ((gives turn s cs).2.turn c).1 →
        pressing.stamp (51 / 2) 0 ∉ (gives turn s cs).2.held (.model "policy") := by
  intro s
  have hweights : NonNegative s.scoring.2 := by constructor <;> decide +kernel
  have hpressing : AtLeastAsPressing (1 / 20) pressing unhurried := by
    constructor <;> decide +kernel
  have hfirst := more_pressing_first threeSlots (afterCalls_reachable _) rfl hweights hpressing
    (by decide +kernel)
  refine ⟨by decide +kernel, ?_⟩
  exact hfirst.2.2 _ _ ⟨51 / 2, by decide +kernel, rfl⟩ ⟨27 / 2, by decide +kernel, rfl⟩ Nat.one_pos

end AnyScheduler
end Inferential
