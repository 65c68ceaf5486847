import Inferential.Scheduler.DeadlineAware
import Inferential.Scheduler.SortedLists
import Mathlib.Tactic.Linarith
import Mathlib.Tactic.Ring

/-!
# QueueAge — the age term while a request waits

The heaps are keyed by the score that a request had when it was queued, so the age that it gains
while it waits does not move it.  This module compares the stored score with the score at a later
time: the request that is dequeued has the best score at that time exactly when, since it was
queued, no other request has waited so many more of its budgets that the age weight makes up for the
lead in stored score.
-/

namespace Inferential

open PyStd PyStd.Heapq

/-! ## The age term -/

/-- Of the score only the age term depends on the clock. -/
theorem weightedScore_later {weights : DeadlineAwareConfig Rat} {now score : Rat}
    {r : InferenceRequest Rat} (h : weightedScore weights now r = .ok score) (t : Rat) :
    weightedScore weights t r = .ok (score + (ageTerm weights t r - ageTerm weights now r)) := by
  unfold weightedScore at h ⊢
  split at h
  -- with a budget of zero no score exists at any time
  · cases h
  · next hbudget =>
      rw [if_neg hbudget, ← Except.ok.inj h]
      ring_nf

/-- Until `t` a request ages only as long as it has not waited for its whole budget. -/
def agesUntil (t : Rat) (r : InferenceRequest Rat) : Rat :=
  min t (r.receivedAt + r.latencyBudgetMs / 1000)

/-- The time from `queued` to `t` in which the request ages, in budgets. -/
def waitedBudgets (queued t : Rat) (r : InferenceRequest Rat) : Rat :=
  (agesUntil t r - agesUntil queued r) * 1000 / r.latencyBudgetMs

theorem ageTerm_eq {weights : DeadlineAwareConfig Rat} {r : InferenceRequest Rat}
    (hbudget : 0 < r.latencyBudgetMs) (t : Rat) :
    ageTerm weights t r =
      weights.ageWeight * ((agesUntil t r - r.receivedAt) * 1000 / r.latencyBudgetMs) := by
  have hmin : min ((t - r.receivedAt) * 1000 / r.latencyBudgetMs) 1 =
      (agesUntil t r - r.receivedAt) * 1000 / r.latencyBudgetMs := by
    -- the age reaches the budget when the time reaches the deadline
    have hdeadline : (t - r.receivedAt) * 1000 / r.latencyBudgetMs ≤ 1 ↔
        t ≤ r.receivedAt + r.latencyBudgetMs / 1000 := by
      rw [div_le_one₀ hbudget]
      constructor <;> intro h <;> linarith
    unfold agesUntil
    rcases le_total t (r.receivedAt + r.latencyBudgetMs / 1000) with hle | hle
    · rw [min_eq_left hle, min_eq_left (hdeadline.mpr hle)]
    · have hone : 1 ≤ (t - r.receivedAt) * 1000 / r.latencyBudgetMs := by
        rw [one_le_div₀ hbudget]
        linarith
      rw [min_eq_right hle, min_eq_right hone, add_sub_cancel_left, div_mul_cancel₀ _ (by norm_num),
        div_self hbudget.ne']
  rw [mul_comm, ← hmin, ← Score.min_rat]
  rfl

/-- Since it was queued, the request has gained its share of the age weight for each budget. -/
theorem ageTerm_sub {weights : DeadlineAwareConfig Rat} {r : InferenceRequest Rat}
    (hbudget : 0 < r.latencyBudgetMs) (queued t : Rat) :
    ageTerm weights t r - ageTerm weights queued r =
      weights.ageWeight * waitedBudgets queued t r := by
  rw [ageTerm_eq hbudget, ageTerm_eq hbudget, waitedBudgets]
  ring

/-! ## Runs with the clock readings at which requests were queued -/

/-- A scheduler, and when the request with each insertion counter was queued. -/
structure Timed (σ : Type) where
  state : σ
  queuedAt : List Rat := []

namespace Timed

variable {σ : Type}

/-- A request that a call accepts is queued at the moment of the call. -/
def enqueue (run : Timed σ) (m : Moment Rat) (o : Submitted σ Rat) : Timed σ where
  state := o.state
  queuedAt := if o.raised.isNone then run.queuedAt ++ [m.now] else run.queuedAt

def timeOf (run : Timed σ) (r : InferenceRequest Rat) : Rat := run.queuedAt.getD r.counter 0

end Timed

/-- The stored scores are those of the moments of queueing. -/
structure Frozen (weights : DeadlineAwareConfig Rat) (queuedAt : List Rat) (counter : Nat)
    (queue : List (InferenceRequest Rat)) : Prop where
  counter_eq : counter = queuedAt.length
  fresh : ∀ r ∈ queue, r.counter < counter
  unique : ∀ r ∈ queue, ∀ r' ∈ queue, r.counter = r'.counter → r = r'
  score : ∀ r ∈ queue, weightedScore weights (queuedAt.getD r.counter 0) r = .ok r.score

namespace Frozen

variable {weights : DeadlineAwareConfig Rat} {queuedAt : List Rat} {counter : Nat}
  {queue queue' : List (InferenceRequest Rat)}

theorem nil (weights : DeadlineAwareConfig Rat) : Frozen weights [] 0 [] where
  counter_eq := rfl
  fresh := by simp
  unique := by simp
  score := by simp

theorem subset (h : Frozen weights queuedAt counter queue) (hsub : ∀ r ∈ queue', r ∈ queue) :
    Frozen weights queuedAt counter queue' where
  counter_eq := h.counter_eq
  fresh r hr := h.fresh r (hsub r hr)
  unique r hr r' hr' := h.unique r (hsub r hr) r' (hsub r' hr')
  score r hr := h.score r (hsub r hr)

/-- The new request takes the next counter, and the clock reading goes to the same place. -/
theorem add (h : Frozen weights queuedAt counter queue) {now score : Rat}
    {request : InferenceRequest Rat} (hscore : weightedScore weights now request = .ok score)
    (hsub : ∀ r ∈ queue', r = request.stamp score counter ∨ r ∈ queue) :
    Frozen weights (queuedAt ++ [now]) (counter + 1) queue' where
  counter_eq := by simp [h.counter_eq]
  fresh r hr := by
    rcases hsub r hr with rfl | hold
    · simp
    · have := h.fresh r hold
      omega
  unique r hr r' hr' hcounter := by
    have hbelow : ∀ x ∈ queue, x.counter ≠ counter := fun x hx => Nat.ne_of_lt (h.fresh x hx)
    rcases hsub r hr with rfl | hold <;> rcases hsub r' hr' with rfl | hold'
    · rfl
    · exact absurd hcounter.symm (hbelow r' hold')
    · exact absurd hcounter (hbelow r hold)
    · exact h.unique r hold r' hold' hcounter
  score r hr := by
    rcases hsub r hr with rfl | hold
    · have hnow : (queuedAt ++ [now]).getD counter 0 = now := by simp [h.counter_eq]
      rw [InferenceRequest.stamp_counter, hnow]
      exact hscore
    -- an older request keeps its counter, hence its place in the list of clock readings
    · have hlt : r.counter < queuedAt.length := h.counter_eq ▸ h.fresh r hold
      have hkeep : (queuedAt ++ [now]).getD r.counter 0 = queuedAt.getD r.counter 0 := by
        simp [List.getElem?_append_left hlt]
      rw [hkeep]
      exact h.score r hold

end Frozen

/-! ## What is compared -/

/-- The dequeued requests have the greatest score at time `t`. -/
def BestAt (weights : DeadlineAwareConfig Rat) (t : Rat)
    (queue batch : List (InferenceRequest Rat)) : Prop :=
  ∀ d ∈ batch, ∀ r ∈ queue, ∃ x y, weightedScore weights t r = .ok x ∧
    weightedScore weights t d = .ok y ∧ x ≤ y

/-- The dequeued requests have the greatest stored score. -/
def BestStored (queue batch : List (InferenceRequest Rat)) : Prop :=
  ∀ d ∈ batch, ∀ r ∈ queue, r.score ≤ d.score

/-- The first of the queue by stored score and insertion order has a lead in stored score that makes
up for what the others have waited more than it, in budgets, since they were queued. -/
def LeadCovers (weights : DeadlineAwareConfig Rat) (queuedAt : InferenceRequest Rat → Rat) (t : Rat)
    (queue : List (InferenceRequest Rat)) : Prop :=
  ∀ first ∈ queue, (∀ r ∈ queue, r.lt first = false) → ∀ r ∈ queue,
    weights.ageWeight *
        (waitedBudgets (queuedAt r) t r - waitedBudgets (queuedAt first) t first) ≤
      first.score - r.score

namespace Frozen

variable {weights : DeadlineAwareConfig Rat} {queuedAt : List Rat} {counter : Nat}
  {queue : List (InferenceRequest Rat)}

/-- Only one request has none before it. -/
theorem first_unique (h : Frozen weights queuedAt counter queue) {d d' : InferenceRequest Rat}
    (hd : d ∈ queue) (hfirst : ∀ r ∈ queue, r.lt d = false) (hd' : d' ∈ queue)
    (hfirst' : ∀ r ∈ queue, r.lt d' = false) : d' = d := by
  apply h.unique d' hd' d hd
  by_contra hne
  rcases InferenceRequest.lt_or_lt_of_counter_ne hne with hlt | hlt
  · simp [hfirst d' hd'] at hlt
  · simp [hfirst' d hd] at hlt

/-- The score at `t` is the stored one with what was gained since queueing. -/
theorem score_at (h : Frozen weights queuedAt counter queue) {r : InferenceRequest Rat}
    (hr : r ∈ queue) (hbudget : 0 < r.latencyBudgetMs) (t : Rat) :
    weightedScore weights t r = .ok (r.score +
      weights.ageWeight * waitedBudgets (queuedAt.getD r.counter 0) t r) := by
  rw [weightedScore_later (h.score r hr) t, ageTerm_sub hbudget]

theorem bestAt_iff (h : Frozen weights queuedAt counter queue) {d : InferenceRequest Rat}
    (hd : d ∈ queue) (hfirst : ∀ r ∈ queue, r.lt d = false)
    (hbudgets : ∀ r ∈ queue, 0 < r.latencyBudgetMs) (t : Rat) :
    BestAt weights t queue [d] ↔
      LeadCovers weights (fun r => queuedAt.getD r.counter 0) t queue := by
  have hscore := fun r hr => h.score_at (r := r) hr (hbudgets r hr) t
  constructor
  · intro hbest first hmem hfirst' r hr
    have hsame : first = d := h.first_unique hd hfirst hmem hfirst'
    subst hsame
    rcases hbest first (by simp) r hr with ⟨x, y, hx, hy, hle⟩
    rw [hscore r hr, Except.ok.injEq] at hx
    rw [hscore first hmem, Except.ok.injEq] at hy
    linarith
  · intro hlead d' hd' r hr
    rw [List.mem_singleton.mp hd']
    have hcovers := hlead d hd hfirst r hr
    exact ⟨_, _, hscore r hr, hscore d hd, by linarith⟩

/-- Nothing is said about an empty queue. -/
theorem bestAt_nil (weights : DeadlineAwareConfig Rat) (queuedAt : InferenceRequest Rat → Rat)
    (t : Rat) : BestAt weights t [] [] ↔ LeadCovers weights queuedAt t [] := by
  simp [BestAt, LeadCovers]

end Frozen

theorem bestStored_heappop {queue rest : List (InferenceRequest Rat)} {d : InferenceRequest Rat}
    (hheap : IsHeap InferenceRequest.lt queue)
    (hpop : heappop InferenceRequest.lt queue = some (d, rest)) : BestStored queue [d] := by
  intro d' hd' r hr
  rw [List.mem_singleton.mp hd']
  have hfirst : r.lt d = false := heappop_first hheap hpop r hr
  by_contra hlt
  have : r.lt d = true := InferenceRequest.lt_iff.mpr (Or.inl (not_le.mp hlt))
  simp [hfirst] at this

/-! ## One heap -/

namespace DeadlineAwareScheduler

def timedCall (run : Timed (DeadlineAwareScheduler Rat)) :
    SchedulerCall Rat → Timed (DeadlineAwareScheduler Rat)
  | .submit m r => run.enqueue m (run.state.submit m r)
  | .resubmit m r => run.enqueue m (run.state.resubmit m r)
  | .nextBatch _ => { run with state := run.state.nextBatch.2 }
  | .tick clock => { run with state := (run.state.tick clock).2 }
  | .onClientConnected clientId =>
      { run with state := Scheduler.onClientConnected clientId run.state }
  | .onClientDisconnected clientId =>
      { run with state := Scheduler.onClientDisconnected clientId run.state }

def timedRun (run : Timed (DeadlineAwareScheduler Rat)) :
    List (SchedulerCall Rat) → Timed (DeadlineAwareScheduler Rat)
  | [] => run
  | c :: cs => timedRun (timedCall run c) cs

/-- The queue is a heap of requests with the scores of their moments of queueing. -/
structure Keyed (config : SchedulingConfig Rat) (run : Timed (DeadlineAwareScheduler Rat)) :
    Prop where
  config_eq : run.state.config = config
  policy_eq : run.state.policy = none
  heap : IsHeap InferenceRequest.lt run.state.queue
  frozen : Frozen config.deadlineAware run.queuedAt run.state.counter run.state.queue

variable {config : SchedulingConfig Rat} {run : Timed (DeadlineAwareScheduler Rat)}

theorem init_keyed (config : SchedulingConfig Rat) : Keyed config ⟨init config, []⟩ where
  config_eq := rfl
  policy_eq := rfl
  heap := isHeap_nil
  frozen := Frozen.nil _

/-- Taking requests out, as long as the rest is a heap. -/
theorem Keyed.shrink (h : Keyed config run) {queue : List (InferenceRequest Rat)}
    (hheap : IsHeap InferenceRequest.lt queue) (hsub : ∀ r ∈ queue, r ∈ run.state.queue) :
    Keyed config { run with state := { run.state with queue := queue } } where
  config_eq := h.config_eq
  policy_eq := h.policy_eq
  heap := hheap
  frozen := h.frozen.subset hsub

theorem Keyed.resubmit (h : Keyed config run) (m : Moment Rat) (r : InferenceRequest Rat) :
    Keyed config (run.enqueue m (run.state.resubmit m r)) := by
  unfold DeadlineAwareScheduler.resubmit
  cases hscore : run.state.computeScore m r with
  | error e => exact h
  | ok score =>
      have hweighted : weightedScore config.deadlineAware m.now r = .ok score := by
        simpa [computeScore, scoreWith, h.policy_eq, h.config_eq] using hscore
      refine ⟨h.config_eq, h.policy_eq, heappush_isHeap h.heap _, ?_⟩
      refine h.frozen.add hweighted ?_
      intro r' hr'
      exact List.mem_cons.mp ((heappush_perm _ _ _).mem_iff.mp hr')

theorem Keyed.submit (h : Keyed config run) (m : Moment Rat) (r : InferenceRequest Rat) :
    Keyed config (run.enqueue m (run.state.submit m r)) := by
  unfold DeadlineAwareScheduler.submit
  split
  · cases run.state.config.overflowPolicy with
    | dropOldest =>
        -- the eviction only takes out, and the heap is rebuilt
        have hdrop : Keyed config { run with state := run.state.dropOldest } := by
          refine h.shrink (heapify_isHeap _) ?_
          intro r' hr'
          exact List.mem_of_mem_eraseIdx ((heapify_perm _ _).mem_iff.mp hr')
        exact hdrop.resubmit m r
    | rejectNewest => exact h
  · exact h.resubmit m r

theorem timedCall_keyed (h : Keyed config run) (c : SchedulerCall Rat) :
    Keyed config (timedCall run c) := by
  cases c with
  | submit m r => exact h.submit m r
  | resubmit m r => exact h.resubmit m r
  | nextBatch now =>
      unfold timedCall
      rcases nextBatch_cases run.state with ⟨-, heq⟩ | ⟨d, rest, hpop, heq⟩
      · rw [heq]
        exact h
      · rw [heq]
        refine h.shrink (heappop_isHeap h.heap hpop) ?_
        exact fun r hr => (heappop_perm hpop).mem_iff.mpr (List.mem_cons_of_mem d hr)
  | tick clock =>
      have hsub : ∀ r ∈ (run.state.tick clock).2.queue, r ∈ run.state.queue := fun r hr =>
        List.mem_of_mem_filter ((tick_queue clock run.state).mem_iff.mp hr)
      refine h.shrink ?_ hsub
      split
      · next hnone =>
          -- nothing expired, so the queue is the old one
          have hlength := List.length_filter_le
            (fun r => !isExpired (clock r) run.state.config.requestTtlMs r) run.state.queue
          have hall := List.filter_sublist.eq_of_length (Nat.le_antisymm hlength (by omega))
          rw [hall]
          exact h.heap
      · exact heapify_isHeap _
  | onClientConnected clientId => exact h
  | onClientDisconnected clientId => exact h

theorem timedRun_keyed (h : Keyed config run) (cs : List (SchedulerCall Rat)) :
    Keyed config (timedRun run cs) := by
  induction cs generalizing run with
  | nil => exact h
  | cons c cs ih => exact ih (timedCall_keyed h c)

theorem Keyed.dequeues (h : Keyed config run) (t : Rat)
    (hbudgets : ∀ r ∈ run.state.queue, 0 < r.latencyBudgetMs) :
    BestStored run.state.queue run.state.nextBatch.1 ∧
      (BestAt config.deadlineAware t run.state.queue run.state.nextBatch.1 ↔
        LeadCovers config.deadlineAware run.timeOf t run.state.queue) := by
  rcases nextBatch_cases run.state with ⟨hnil, heq⟩ | ⟨d, rest, hpop, heq⟩
  · rw [heq, hnil]
    exact ⟨by simp [BestStored], Frozen.bestAt_nil _ _ t⟩
  · have hd : d ∈ run.state.queue := (heappop_perm hpop).mem_iff.mpr List.mem_cons_self
    rw [heq]
    exact ⟨bestStored_heappop h.heap hpop,
      h.frozen.bestAt_iff hd (heappop_first h.heap hpop) hbudgets t⟩

end DeadlineAwareScheduler

/-! ## One heap per model -/

namespace ModelDeadlineScheduler

def timedCall (run : Timed (ModelDeadlineScheduler Rat)) (c : Call Rat) :
    Timed (ModelDeadlineScheduler Rat) :=
  match c with
  | .submit m r => run.enqueue m (run.state.submit m r)
  | .resubmit m r => run.enqueue m (run.state.resubmit m r)
  | c => { run with state := (run.state.call c).2 }

def timedRun (run : Timed (ModelDeadlineScheduler Rat)) :
    List (Call Rat) → Timed (ModelDeadlineScheduler Rat)
  | [] => run
  | c :: cs => timedRun (timedCall run c) cs

structure Keyed (config : SchedulingConfig Rat) (run : Timed (ModelDeadlineScheduler Rat)) :
    Prop where
  config_eq : run.state.config = config
  policy_eq : run.state.policy = none
  sound : Sound run.state
  frozen : Frozen config.modelDeadline run.queuedAt run.state.counter run.state.stored

variable {config : SchedulingConfig Rat} {run : Timed (ModelDeadlineScheduler Rat)}

theorem init_keyed (config : SchedulingConfig Rat) : Keyed config ⟨init config, []⟩ where
  config_eq := rfl
  policy_eq := rfl
  sound := init_sound config none
  frozen := Frozen.nil _

theorem timedCall_state (run : Timed (ModelDeadlineScheduler Rat)) (c : Call Rat) :
    (timedCall run c).state = (run.state.call c).2 := by
  cases c <;> rfl

/-- A request that is accepted is queued with the score of that moment. -/
theorem frozen_resubmit {s : ModelDeadlineScheduler Rat} {queuedAt : List Rat}
    (hconfig : s.config = config) (hpolicy : s.policy = none)
    (h : Frozen config.modelDeadline queuedAt s.counter s.stored) (m : Moment Rat)
    (r : InferenceRequest Rat) :
    let after := Timed.enqueue ⟨s, queuedAt⟩ m (s.resubmit m r)
    Frozen config.modelDeadline after.queuedAt after.state.counter after.state.stored := by
  unfold ModelDeadlineScheduler.resubmit
  cases hpush : s.push m r with
  | error e => exact h
  | ok s' =>
      obtain ⟨score, hscore, -, -, hcounter, -, hperm, -⟩ := push_spec hpush
      have hweighted : weightedScore config.modelDeadline m.now r = .ok score := by
        simpa [computeScore, scoreWith, hpolicy, hconfig] using hscore
      simp only [Timed.enqueue, hcounter]
      exact h.add hweighted fun r' hr' => List.mem_cons.mp (hperm.mem_iff.mp hr')

theorem Keyed.frozen_submit (h : Keyed config run) (m : Moment Rat) (r : InferenceRequest Rat) :
    let after := run.enqueue m (run.state.submit m r)
    Frozen config.modelDeadline after.queuedAt after.state.counter after.state.stored := by
  unfold ModelDeadlineScheduler.submit
  split
  · cases run.state.config.overflowPolicy with
    | dropOldest =>
        obtain ⟨hconfig, hpolicy⟩ := dropOldest_frame run.state
        -- an eviction uses up no counter
        have hcounter : run.state.dropOldest.2.counter = run.state.counter := by
          unfold dropOldest
          split <;> rfl
        have hdrop : Frozen config.modelDeadline run.queuedAt run.state.dropOldest.2.counter
            run.state.dropOldest.2.stored := by
          rw [hcounter]
          exact h.frozen.subset fun _ => dropOldest_subset
        exact frozen_resubmit (hconfig.trans h.config_eq) (hpolicy.trans h.policy_eq) hdrop m r
    | rejectNewest => exact h.frozen
  · exact frozen_resubmit h.config_eq h.policy_eq h.frozen m r

theorem Keyed.frozen_next (h : Keyed config run) (modelId : String) :
    Frozen config.modelDeadline run.queuedAt (run.state.nextBatchForModel modelId).2.counter
      (run.state.nextBatchForModel modelId).2.stored := by
  have hperm := nextBatchForModel_stored modelId run.state
  have hcounter : (run.state.nextBatchForModel modelId).2.counter = run.state.counter := by
    rcases nextBatchForModel_spec modelId run.state with ⟨-, heq⟩ | ⟨_, _, -, heq⟩ <;> rw [heq]
  rw [hcounter]
  exact h.frozen.subset fun r hr => hperm.mem_iff.mpr (List.mem_append_right _ hr)

theorem Keyed.frozen_sweep (h : Keyed config run) (keep : InferenceRequest Rat → Bool) :
    Frozen config.modelDeadline run.queuedAt (run.state.sweep keep).2.counter
      (run.state.sweep keep).2.stored :=
  h.frozen.subset fun _ hr => List.mem_of_mem_filter ((sweep_stored keep run.state).mem_iff.mp hr)

theorem timedCall_keyed (h : Keyed config run) (c : Call Rat) : Keyed config (timedCall run c) := by
  obtain ⟨hconfig, hpolicy⟩ := call_frame run.state c
  have hsound := (call_refines h.sound c).1
  refine ⟨?_, ?_, ?_, ?_⟩
  · rw [timedCall_state, hconfig, h.config_eq]
  · rw [timedCall_state, hpolicy, h.policy_eq]
  · rw [timedCall_state]
    exact hsound
  · -- only `submit` and `resubmit` write scores; the other calls take requests out
    cases c with
    | submit m r => exact h.frozen_submit m r
    | resubmit m r => exact frozen_resubmit h.config_eq h.policy_eq h.frozen m r
    | nextBatchForModel modelId => exact h.frozen_next modelId
    | nextBatch =>
        rcases nextBatch_spec run.state with ⟨-, heq⟩ | ⟨modelId, -, heq⟩
        · simpa [timedCall, call, heq] using h.frozen
        · simpa [timedCall, call, heq] using h.frozen_next modelId
    | tick clock => exact h.frozen_sweep _
    | onClientDisconnected clientId => exact h.frozen_sweep _

theorem timedRun_keyed (h : Keyed config run) (cs : List (Call Rat)) :
    Keyed config (timedRun run cs) := by
  induction cs generalizing run with
  | nil => exact h
  | cons c cs ih => exact ih (timedCall_keyed h c)

theorem Keyed.dequeues (h : Keyed config run) (modelId : String) (t : Rat)
    (hbudgets : ∀ r ∈ run.state.heapOf modelId, 0 < r.latencyBudgetMs) :
    let queue := run.state.heapOf modelId
    let batch := (run.state.nextBatchForModel modelId).1
    BestStored queue batch ∧
      (BestAt config.modelDeadline t queue batch ↔
        LeadCovers config.modelDeadline run.timeOf t queue) := by
  intro queue batch
  have hfrozen : Frozen config.modelDeadline run.queuedAt run.state.counter queue :=
    h.frozen.subset fun r hr => mem_stored.mpr ⟨modelId, hr⟩
  rcases nextBatchForModel_spec modelId run.state with ⟨hnil, heq⟩ | ⟨d, rest, hpop, heq⟩
  · have hbatch : batch = [] := by simp [batch, heq]
    have hqueue : queue = [] := hnil
    rw [hbatch, hqueue]
    exact ⟨by simp [BestStored], Frozen.bestAt_nil _ _ t⟩
  · have hbatch : batch = [d] := by simp [batch, heq]
    have hd : d ∈ queue := (heappop_perm hpop).mem_iff.mpr List.mem_cons_self
    rw [hbatch]
    exact ⟨bestStored_heappop (h.sound.heap modelId) hpop,
      hfrozen.bestAt_iff hd (heappop_first (h.sound.heap modelId) hpop) hbudgets t⟩

end ModelDeadlineScheduler

/-! ## When waiting counts -/

/-- In every reachable state both schedulers dequeue the best stored score; where the budgets are
positive, that request is the best at time `t` exactly when its lead covers what the others have
gained by waiting. -/
theorem age_counts_within_lead (config : SchedulingConfig Rat) (t : Rat) :
    (∀ cs : List (SchedulerCall Rat),
      let run := DeadlineAwareScheduler.timedRun ⟨DeadlineAwareScheduler.init config, []⟩ cs;
      let queue := run.state.queue;
      let batch := run.state.nextBatch.1;
      (∀ r ∈ queue, 0 < r.latencyBudgetMs) →
        BestStored queue batch ∧
          (BestAt config.deadlineAware t queue batch ↔
            LeadCovers config.deadlineAware run.timeOf t queue)) ∧
    (∀ (cs : List (ModelDeadlineScheduler.Call Rat)) (modelId : String),
      let run := ModelDeadlineScheduler.timedRun ⟨ModelDeadlineScheduler.init config, []⟩ cs;
      let queue := run.state.heapOf modelId;
      let batch := (run.state.nextBatchForModel modelId).1;
      (∀ r ∈ queue, 0 < r.latencyBudgetMs) →
        BestStored queue batch ∧
          (BestAt config.modelDeadline t queue batch ↔
            LeadCovers config.modelDeadline run.timeOf t queue)) := by
  constructor
  · intro cs run queue batch hbudgets
    exact (DeadlineAwareScheduler.timedRun_keyed
      (DeadlineAwareScheduler.init_keyed config) cs).dequeues t hbudgets
  · intro cs modelId run queue batch hbudgets
    exact (ModelDeadlineScheduler.timedRun_keyed
      (ModelDeadlineScheduler.init_keyed config) cs).dequeues modelId t hbudgets

/-- Two requests that arrive together gain the same, and the one with the better priority leads. -/
theorem age_counts_together :
    let at_ (now : Rat) : Moment Rat := { now := now, policy := fun _ _ => .ok 0 }
    let first := { plainRequest "b" "policy" 0 1 with priority := 0 }
    let run := DeadlineAwareScheduler.timedRun ⟨DeadlineAwareScheduler.init plainConfig.scheduling, []⟩
      [.submit (at_ 0) (plainRequest "a" "policy" 0 0), .submit (at_ 0) first]
    run.state.nextBatch.1 = [first.stamp 10 1] ∧
      BestAt .default (1 / 100) run.state.queue run.state.nextBatch.1 := by
  intro at_ first run
  have hqueue : run.state.queue =
      [first.stamp 10 1, (plainRequest "a" "policy" 0 0).stamp 9 0] := by decide +kernel
  have hcounts := (age_counts_within_lead plainConfig.scheduling (1 / 100)).1
    [.submit (at_ 0) (plainRequest "a" "policy" 0 0), .submit (at_ 0) first] (by decide +kernel)
  have hcovers : ∀ d ∈ run.state.queue, ∀ r ∈ run.state.queue,
      15 * (waitedBudgets (run.timeOf r) (1 / 100) r - waitedBudgets (run.timeOf d) (1 / 100) d) ≤
        d.score - r.score ∨ r.lt d = true := by decide +kernel
  refine ⟨by decide +kernel, hcounts.2.mpr fun d hd hfirst r hr => ?_⟩
  rcases hcovers d hd r hr with hle | hlt
  · exact hle
  · simp [hfirst r hr] at hlt

/-- A request that has waited for a second, twenty times its budget, is passed over for one that
arrived 20 ms ago with a slightly better priority. -/
theorem waiting_request_passed_over :
    let at_ (now : Rat) : Moment Rat := { now := now, policy := fun _ _ => .ok 0 }
    let waiting := plainRequest "a" "policy" 0 0
    let fresh := { plainRequest "b" "policy" 1 1 with priority := 0 }
    let run := DeadlineAwareScheduler.timedRun ⟨DeadlineAwareScheduler.init plainConfig.scheduling, []⟩
      [.submit (at_ 0) waiting, .submit (at_ 1) fresh]
    ¬ BestAt .default (102 / 100) run.state.queue run.state.nextBatch.1 := by
  intro at_ waiting fresh run hbest
  have hbatch : fresh.stamp 10 1 ∈ run.state.nextBatch.1 := by decide +kernel
  have hqueue : waiting.stamp 9 0 ∈ run.state.queue := by decide +kernel
  obtain ⟨x, y, hx, hy, hle⟩ := hbest _ hbatch _ hqueue
  have hwaiting : weightedScore .default (102 / 100) (waiting.stamp 9 0) = .ok 24 := by
    decide +kernel
  have hfresh : weightedScore .default (102 / 100) (fresh.stamp 10 1) = .ok 16 := by
    decide +kernel
  rw [hwaiting, Except.ok.injEq] at hx
  rw [hfresh, Except.ok.injEq] at hy
  linarith

end Inferential
