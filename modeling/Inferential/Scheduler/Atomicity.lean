import Inferential.Scheduler.Strategies

/-!
# Atomicity — a submission that raises

`submit` makes room before it scores the new request.  So a score that raises finds a full queue one
request short, and this is the only way in which a submission is half done.
-/

namespace Inferential

variable {ν : Type} [Score ν]

namespace AnyScheduler

/-! ## Reachable schedulers -/

/-- What any sequence of calls makes of a new scheduler of the configuration.  The calls are free: a
request may be resubmitted that was never taken, which the server does not do. -/
inductive Reachable (config : SchedulingConfig ν) : AnyScheduler ν → Prop
  | create {s : AnyScheduler ν} (h : createScheduler config = .ok s) : Reachable config s
  | usePolicy {s s' : AnyScheduler ν} (registered : String → Bool) (policyName : String)
      (hs : Reachable config s) (h : s.usePolicy registered policyName = .ok s') :
      Reachable config s'
  | call {s : AnyScheduler ν} (l : Ledger ν) (c : SchedulerCall ν) (hs : Reachable config s) :
      Reachable config (accountedCall s l c).1
  | nextBatchForModel {s : AnyScheduler ν} (modelId : String) (hs : Reachable config s) :
      Reachable config (s.nextBatchForModel modelId).2
  | nextBatchForTier {s : TieredDeadlineScheduler ν} (tier : Nat)
      (hs : Reachable config (.tieredDeadline s)) :
      Reachable config (.tieredDeadline (s.nextBatchForTier tier).2)

theorem Reachable.inv {config : SchedulingConfig ν} {s : AnyScheduler ν}
    (h : Reachable config s) : s.Inv := by
  induction h with
  | create h => exact (createScheduler_fresh h).1
  | usePolicy registered policyName _ h ih => exact (usePolicy_spec h ih).1
  | @call s l c _ ih =>
      have hinv : AccountedScheduler.Inv s := ih
      exact (accountedCall_kept hinv l c).1
  | nextBatchForModel modelId _ ih => exact (nextBatchForModel_spec modelId ih).1
  | nextBatchForTier tier _ ih => exact (nextBatchForTier_kept tier ih).1

theorem Reachable.config_eq {config : SchedulingConfig ν} {s : AnyScheduler ν}
    (h : Reachable config s) : s.config = config := by
  induction h with
  | create h => exact createScheduler_config h
  | usePolicy registered policyName _ h ih => exact (usePolicy_config h).trans ih
  | @call s l c hs ih =>
      have hinv : AccountedScheduler.Inv s := hs.inv
      exact (accountedCall_kept hinv l c).2.trans ih
  | @nextBatchForModel s modelId _ ih => exact (nextBatchForModel_config modelId s).trans ih
  | nextBatchForTier tier hs ih => exact (nextBatchForTier_kept tier hs.inv).2.1.trans ih

/-- A full queue holds a request. -/
theorem Full.stored_ne_nil {s : AnyScheduler ν} (hfull : s.Full) (hinv : s.Inv) :
    s.stored ≠ [] := by
  have hinv' : AccountedScheduler.Inv s := hinv
  have hexact : TotalExact s.queueLen s.stored := AccountedScheduler.queueLen_eq hinv'
  exact hexact.ne_nil s.config.maxQueueSize_ge hfull

/-! ## When scoring raises -/

end AnyScheduler

/-- What the scoring of a request raises: the exception of the policy in use, or without a policy
the division by a budget of zero. -/
def ScoringFails (policy : Option String) (m : Moment ν) (r : InferenceRequest ν) (e : PyError) :
    Prop :=
  match policy with
  | some name => m.policy name r = .error e
  | none => Score.isZero r.latencyBudgetMs = true ∧ e = .zeroDivisionError

theorem weightedScore_error_iff {weights : DeadlineAwareConfig ν} {now : Rat}
    {r : InferenceRequest ν} {e : PyError} :
    weightedScore weights now r = .error e ↔
      Score.isZero r.latencyBudgetMs = true ∧ e = .zeroDivisionError := by
  unfold weightedScore
  split
  · next hzero => simp [hzero, eq_comm]
  · next hbudget => simp [hbudget]

theorem scoreWith_error_iff {policy : Option String} (weights : DeadlineAwareConfig ν)
    {m : Moment ν} {r : InferenceRequest ν} {e : PyError} :
    scoreWith policy weights m r = .error e ↔ ScoringFails policy m r e := by
  cases policy with
  | none => exact weightedScore_error_iff
  | some name => exact Iff.rfl

namespace AnyScheduler

/-- The policy in use, and none where requests are not scored. -/
def Fails (m : Moment ν) (r : InferenceRequest ν) (e : PyError) : AnyScheduler ν → Prop
  | .deadlineAware s => ScoringFails s.policy m r e
  | .modelDeadline s => ScoringFails s.policy m r e
  | .tieredDeadline s => ScoringFails s.policy m r e
  -- the other three do not score
  | .batchOptimized _ => False
  | .priorityTiered _ => False
  | .roundRobin _ => False

/-- `resubmit` raises what scoring raises. -/
theorem resubmit_raised_eq_iff (m : Moment ν) (r : InferenceRequest ν) (s : AnyScheduler ν)
    (e : PyError) : (Scheduler.resubmit m r s).raised = some e ↔ s.Fails m r e := by
  cases s with
  | deadlineAware s =>
      show (DeadlineAwareScheduler.resubmit m r s).raised = some e ↔ ScoringFails s.policy m r e
      rw [← scoreWith_error_iff s.config.deadlineAware]
      unfold DeadlineAwareScheduler.resubmit DeadlineAwareScheduler.computeScore
      cases scoreWith s.policy s.config.deadlineAware m r <;> simp
  | modelDeadline s =>
      show (ModelDeadlineScheduler.resubmit m r s).raised = some e ↔ ScoringFails s.policy m r e
      rw [← scoreWith_error_iff s.config.modelDeadline]
      unfold ModelDeadlineScheduler.resubmit ModelDeadlineScheduler.push
        ModelDeadlineScheduler.computeScore
      cases scoreWith s.policy s.config.modelDeadline m r <;> simp
  | tieredDeadline s =>
      show (TieredDeadlineScheduler.resubmit m r s).raised = some e ↔ ScoringFails s.policy m r e
      rw [← scoreWith_error_iff s.config.deadlineAware]
      unfold TieredDeadlineScheduler.resubmit TieredDeadlineScheduler.computeScore
      cases scoreWith s.policy s.config.deadlineAware m r <;> simp
  | batchOptimized s => exact iff_of_false (fun h => by cases h) id
  | priorityTiered s => exact iff_of_false (fun h => by cases h) id
  | roundRobin s => exact iff_of_false (fun h => by cases h) id

/-- The eviction of each scheduler, with the request it takes out. -/
def dropOldest : AnyScheduler ν → Option (InferenceRequest ν) × AnyScheduler ν
  | .batchOptimized s => s.dropOldest.map id .batchOptimized
  | .deadlineAware s => (s.queue[oldestIdx s.queue]?, .deadlineAware s.dropOldest)
  | .modelDeadline s => s.dropOldest.map id .modelDeadline
  | .priorityTiered s => s.dropOldest.map id .priorityTiered
  | .roundRobin s => s.dropOldest.map id .roundRobin
  | .tieredDeadline s => s.dropFromLowestTier.map id .tieredDeadline

/-- A full queue loses a request first. -/
theorem submit_full (m : Moment ν) (r : InferenceRequest ν) {s : AnyScheduler ν} (hfull : s.Full)
    (hpolicy : s.config.overflowPolicy = .dropOldest) :
    Scheduler.submit m r s =
      { Scheduler.resubmit m r s.dropOldest.2 with dropped := s.dropOldest.1 } := by
  cases s
  case deadlineAware s =>
    have hfull' : s.config.maxQueueSize ≤ s.queue.length := Int.ofNat_le.mp hfull
    have hpolicy' : s.config.overflowPolicy = .dropOldest := hpolicy
    simp only [Scheduler.submit, submit, DeadlineAwareScheduler.submit, if_pos hfull', hpolicy']
    rfl
  -- the other five compare their running totals
  all_goals
    next s =>
      have hfull' : (s.config.maxQueueSize : Int) ≤ s.total := hfull
      have hpolicy' : s.config.overflowPolicy = .dropOldest := hpolicy
      simp only [Scheduler.submit, submit, BatchOptimizedScheduler.submit,
        ModelDeadlineScheduler.submit, PriorityTieredScheduler.submit, RoundRobinScheduler.submit,
        TieredDeadlineScheduler.submit, if_pos hfull', hpolicy']
      rfl

/-- A submission is a `resubmit`, on the scheduler itself or on what the eviction leaves of it, or
it is refused. -/
theorem submit_cases (m : Moment ν) (r : InferenceRequest ν) (s : AnyScheduler ν) :
    (¬ s.Full ∧ Scheduler.submit m r s = Scheduler.resubmit m r s) ∨
    (s.Full ∧ s.config.overflowPolicy = .rejectNewest ∧
      Scheduler.submit m r s = { state := s, raised := some (.queueFullError r.clientId) }) ∨
    (s.Full ∧ s.config.overflowPolicy = .dropOldest ∧
      Scheduler.submit m r s =
        { Scheduler.resubmit m r s.dropOldest.2 with dropped := s.dropOldest.1 }) := by
  by_cases hfull : s.Full
  · cases hpolicy : s.config.overflowPolicy with
    | rejectNewest =>
        exact Or.inr (Or.inl ⟨hfull, rfl, AccountedScheduler.submit_reject m r hfull hpolicy⟩)
    | dropOldest => exact Or.inr (Or.inr ⟨hfull, rfl, submit_full m r hfull hpolicy⟩)
  · exact Or.inl ⟨hfull, AccountedScheduler.submit_room m r (not_le.mp hfull)⟩

/-- The eviction leaves the policy alone. -/
theorem fails_dropOldest (m : Moment ν) (r : InferenceRequest ν) (s : AnyScheduler ν)
    (e : PyError) : s.dropOldest.2.Fails m r e ↔ s.Fails m r e := by
  cases s with
  | deadlineAware s => exact Iff.rfl
  | modelDeadline s =>
      have hpolicy := (ModelDeadlineScheduler.dropOldest_frame s).2
      simp only [dropOldest, Prod.map, Fails, hpolicy]
  | tieredDeadline s =>
      have hpolicy : s.dropFromLowestTier.2.policy = s.policy := by
        unfold TieredDeadlineScheduler.dropFromLowestTier
        split <;> rfl
      simp only [dropOldest, Prod.map, Fails, hpolicy]
  | batchOptimized s => exact Iff.rfl
  | priorityTiered s => exact Iff.rfl
  | roundRobin s => exact Iff.rfl

/-! ## Half-done submissions -/

/-- The call changes nothing when it raises, and refuses a request as too much exactly when the
queue is full and the newest is to be rejected. -/
structure Atomic (s : AnyScheduler ν) (o : Submitted (AnyScheduler ν) ν) : Prop where
  unchanged : o.raised ≠ none → o.state = s
  queueFull : (∃ clientId, o.raised = some (.queueFullError clientId)) ↔
    s.config.overflowPolicy = .rejectNewest ∧ s.Full

/-- The eviction from a full queue takes a request out. -/
theorem dropOldest_ne {s : AnyScheduler ν} (hinv : s.Inv) (hfull : s.Full)
    (hpolicy : s.config.overflowPolicy = .dropOldest) (m : Moment ν) (r : InferenceRequest ν)
    (hraised : (Scheduler.submit m r s).raised ≠ none) : (Scheduler.submit m r s).state ≠ s := by
  have hinv' : AccountedScheduler.Inv s := hinv
  rcases AccountedScheduler.submit_evict m r hinv' hfull hpolicy with
    ⟨oldest, s₁, hinv₁, -, hperm, heq⟩
  rw [heq] at hraised ⊢
  have hrefused := (AccountedScheduler.resubmit_spec m r hinv₁).2.2.refused hraised
  -- what is left has one request less
  intro hsame
  have hs₁ : s₁ = s := hrefused.symm.trans hsame
  have hlength := hperm.length_eq
  rw [hs₁, List.length_cons] at hlength
  omega

/-- What `submit` raises, unless it refuses the request. -/
theorem submit_raised_eq_iff (m : Moment ν) (r : InferenceRequest ν) {s : AnyScheduler ν}
    (hnot : ¬ (s.config.overflowPolicy = .rejectNewest ∧ s.Full)) (e : PyError) :
    (Scheduler.submit m r s).raised = some e ↔ s.Fails m r e := by
  rcases submit_cases m r s with ⟨-, ho⟩ | ⟨hfull, hpolicy, -⟩ | ⟨-, -, ho⟩
  · rw [ho]
    exact resubmit_raised_eq_iff m r s e
  · exact absurd ⟨hpolicy, hfull⟩ hnot
  · rw [ho, ← fails_dropOldest]
    exact resubmit_raised_eq_iff m r s.dropOldest.2 e

/-- A scheduler with room is left as it was by a submission that raises. -/
theorem submit_room_unchanged (m : Moment ν) (r : InferenceRequest ν) {s : AnyScheduler ν}
    (hinv : s.Inv) (hroom : ¬ s.Full) (hraised : (Scheduler.submit m r s).raised ≠ none) :
    (Scheduler.submit m r s).state = s := by
  have hinv' : AccountedScheduler.Inv s := hinv
  have ho : Scheduler.submit m r s = Scheduler.resubmit m r s :=
    AccountedScheduler.submit_room m r (not_le.mp hroom)
  rw [ho] at hraised ⊢
  exact (AccountedScheduler.resubmit_spec m r hinv').2.2.refused hraised

theorem atomic_iff {s : AnyScheduler ν} (hinv : s.Inv) (m : Moment ν) (r : InferenceRequest ν) :
    s.Atomic (Scheduler.submit m r s) ↔
      ∀ e, s.Fails m r e →
        s.config.overflowPolicy = .rejectNewest ∧ s.Full ∨
          ¬ s.Full ∧ ∀ clientId, e ≠ .queueFullError clientId := by
  by_cases hrefuse : s.config.overflowPolicy = .rejectNewest ∧ s.Full
  · -- the request is refused before it is scored
    have ho : Scheduler.submit m r s =
        { state := s, raised := some (.queueFullError r.clientId) } :=
      AccountedScheduler.submit_reject m r hrefuse.2 hrefuse.1
    apply iff_of_true
    · rw [ho]
      exact ⟨fun _ => rfl, iff_of_true ⟨r.clientId, rfl⟩ hrefuse⟩
    · exact fun e _ => .inl hrefuse
  · have hraised := submit_raised_eq_iff m r hrefuse
    constructor
    · intro hatomic e hfails
      have hsome := (hraised e).mpr hfails
      have hne : (Scheduler.submit m r s).raised ≠ none := by simp [hsome]
      refine .inr ⟨fun hfull => ?_, ?_⟩
      · have hdrop : s.config.overflowPolicy = .dropOldest := by
          cases hpolicy : s.config.overflowPolicy with
          | dropOldest => rfl
          | rejectNewest => exact absurd ⟨hpolicy, hfull⟩ hrefuse
        exact dropOldest_ne hinv hfull hdrop m r hne (hatomic.unchanged hne)
      · rintro clientId rfl
        exact hrefuse (hatomic.queueFull.mp ⟨clientId, hsome⟩)
    · intro hcondition
      constructor
      · intro hne
        rcases Option.ne_none_iff_exists'.mp hne with ⟨e, he⟩
        rcases hcondition e ((hraised e).mp he) with hrefuse' | ⟨hroom, -⟩
        · exact absurd hrefuse' hrefuse
        · exact submit_room_unchanged m r hinv hroom hne
      · refine iff_of_false ?_ hrefuse
        rintro ⟨clientId, he⟩
        rcases hcondition _ ((hraised _).mp he) with hrefuse' | ⟨-, hother⟩
        · exact hrefuse hrefuse'
        · exact hother clientId rfl

/-- In every reachable state, a submission is atomic exactly when its request can be scored, or is
refused before it is scored, or fails to be scored while there is room, with another exception than
the one for a full queue. -/
theorem submit_atomic_iff (config : SchedulingConfig ν) (s : AnyScheduler ν)
    (hs : Reachable config s) (m : Moment ν) (r : InferenceRequest ν) :
    s.Atomic (Scheduler.submit m r s) ↔
      ∀ e, s.Fails m r e →
        s.config.overflowPolicy = .rejectNewest ∧ s.Full ∨
          ¬ s.Full ∧ ∀ clientId, e ≠ .queueFullError clientId :=
  atomic_iff hs.inv m r

/-! ### A queue of one -/

def oneSlot : SchedulingConfig Rat :=
  { plainConfig.scheduling with
    strategy := "deadline_aware"
    maxQueueSize := 1
    maxQueueSize_ge := Nat.one_pos }

def momentAt (now : Rat) : Moment Rat := { now := now, policy := fun _ _ => .ok 0 }

/-- The one place is taken. -/
def occupied : AnyScheduler Rat :=
  (Scheduler.submit (momentAt 0) (plainRequest "a" "policy" 0 0)
    (.deadlineAware (.init oneSlot) : AnyScheduler Rat)).state

theorem occupied_reachable : Reachable oneSlot occupied := by
  have hs : Reachable oneSlot (.deadlineAware (.init oneSlot)) := .create rfl
  exact .call {} (.submit (momentAt 0) (plainRequest "a" "policy" 0 0)) hs

/-- A request whose budget is not zero takes the place in one go. -/
theorem submit_atomic_occupied :
    occupied.Full ∧
      occupied.Atomic (Scheduler.submit (momentAt 1) (plainRequest "b" "policy" 1 1) occupied) := by
  have hfull : ((1 : Nat) : Int) ≤ occupied.queueLen := by decide +kernel
  refine ⟨hfull, ?_⟩
  refine (submit_atomic_iff oneSlot occupied occupied_reachable _ _).mpr ?_
  rintro e ⟨hbudget, -⟩
  exact absurd hbudget (by decide +kernel)

def unbudgeted : InferenceRequest Rat := { plainRequest "b" "policy" 1 1 with latencyBudgetMs := 0 }

/-- A request with a budget of zero is not queued, and the place is empty then. -/
theorem unbudgeted_half_done :
    Reachable oneSlot occupied ∧ occupied.stored.length = 1 ∧
      (Scheduler.submit (momentAt 1) unbudgeted occupied).raised = some .zeroDivisionError ∧
      (Scheduler.submit (momentAt 1) unbudgeted occupied).state.stored = [] ∧
      ¬ occupied.Atomic (Scheduler.submit (momentAt 1) unbudgeted occupied) := by
  have hlength : occupied.stored.length = 1 := by decide +kernel
  have hraised : (Scheduler.submit (momentAt 1) unbudgeted occupied).raised =
      some .zeroDivisionError := by decide +kernel
  have hstored : (Scheduler.submit (momentAt 1) unbudgeted occupied).state.stored = [] := by
    decide +kernel
  refine ⟨occupied_reachable, hlength, hraised, hstored, fun hatomic => ?_⟩
  have hsame := hatomic.unchanged (by simp [hraised])
  rw [hsame] at hstored
  simp [hstored] at hlength

end AnyScheduler
end Inferential
