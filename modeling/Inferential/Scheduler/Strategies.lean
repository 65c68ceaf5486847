import Inferential.Scheduler.BatchOptimized
import Inferential.Scheduler.DeadlineAware
import Inferential.Scheduler.ModelDeadline
import Inferential.Scheduler.PriorityTiered
import Inferential.Scheduler.RoundRobin

/-!
# Strategies — the registered schedulers

`AnyScheduler` is a scheduler of one of the six registered strategies, as the server holds it.  It
obeys the laws of `AccountedScheduler`, because each of the six does.
-/

namespace Inferential

variable {ν : Type} [Score ν]

inductive AnyScheduler (ν : Type) [Score ν]
  | batchOptimized (s : BatchOptimizedScheduler ν)
  | deadlineAware (s : DeadlineAwareScheduler ν)
  | modelDeadline (s : ModelDeadlineScheduler ν)
  | priorityTiered (s : PriorityTieredScheduler ν)
  | roundRobin (s : RoundRobinScheduler ν)
  | tieredDeadline (s : TieredDeadlineScheduler ν)

/-- `create_scheduler` -/
def createScheduler (config : SchedulingConfig ν) : Except PyError (AnyScheduler ν) :=
  if config.strategy = "batch_optimized" then .ok (.batchOptimized (.init config))
  else if config.strategy = "deadline_aware" then .ok (.deadlineAware (.init config))
  else if config.strategy = "model_deadline" then .ok (.modelDeadline (.init config))
  else if config.strategy = "priority_tiered" then .ok (.priorityTiered (.init config))
  else if config.strategy = "round_robin" then .ok (.roundRobin (.init config))
  else if config.strategy = "tiered_deadline" then .ok (.tieredDeadline (.init config))
  else .error (.valueError (s!"Unknown scheduler strategy '{config.strategy}'. Available: " ++
    "['batch_optimized', 'deadline_aware', 'model_deadline', 'priority_tiered', " ++
    "'round_robin', 'tiered_deadline']"))

def Submitted.map {σ τ : Type} (f : σ → τ) (o : Submitted σ ν) : Submitted τ ν where
  state := f o.state
  raised := o.raised
  dropped := o.dropped

namespace AnyScheduler

/-- `use_policy`, where the scheduler has one. -/
def usePolicy (registered : String → Bool) (policyName : String) (s : AnyScheduler ν) :
    Except PyError (AnyScheduler ν) :=
  match s with
  | .deadlineAware s => (s.usePolicy registered policyName).map .deadlineAware
  | .modelDeadline s => (s.usePolicy registered policyName).map .modelDeadline
  | .tieredDeadline s => (s.usePolicy registered policyName).map .tieredDeadline
  | s => .ok s

/-- `isinstance(scheduler, ModelAwareScheduler)` -/
def isModelAware : AnyScheduler ν → Bool
  | .modelDeadline _ => true
  | _ => false

/-- Any other scheduler has no such method. -/
def nextBatchForModel (modelId : String) : AnyScheduler ν → List (InferenceRequest ν) × AnyScheduler ν
  | .modelDeadline s => (s.nextBatchForModel modelId).map id .modelDeadline
  | s => ([], s)

def queueLenForModel (modelId : String) : AnyScheduler ν → Nat
  | .modelDeadline s => s.queueLenForModel modelId
  | _ => 0

def submit (m : Moment ν) (request : InferenceRequest ν) :
    AnyScheduler ν → Submitted (AnyScheduler ν) ν
  | .batchOptimized s => (Scheduler.submit m request s).map .batchOptimized
  | .deadlineAware s => (Scheduler.submit m request s).map .deadlineAware
  | .modelDeadline s => (Scheduler.submit m request s).map .modelDeadline
  | .priorityTiered s => (Scheduler.submit m request s).map .priorityTiered
  | .roundRobin s => (Scheduler.submit m request s).map .roundRobin
  | .tieredDeadline s => (Scheduler.submit m request s).map .tieredDeadline

def resubmit (m : Moment ν) (request : InferenceRequest ν) :
    AnyScheduler ν → Submitted (AnyScheduler ν) ν
  | .batchOptimized s => (Scheduler.resubmit m request s).map .batchOptimized
  | .deadlineAware s => (Scheduler.resubmit m request s).map .deadlineAware
  | .modelDeadline s => (Scheduler.resubmit m request s).map .modelDeadline
  | .priorityTiered s => (Scheduler.resubmit m request s).map .priorityTiered
  | .roundRobin s => (Scheduler.resubmit m request s).map .roundRobin
  | .tieredDeadline s => (Scheduler.resubmit m request s).map .tieredDeadline

def nextBatch (now : Rat) : AnyScheduler ν → List (InferenceRequest ν) × AnyScheduler ν
  | .batchOptimized s => (Scheduler.nextBatch now s).map id .batchOptimized
  | .deadlineAware s => (Scheduler.nextBatch now s).map id .deadlineAware
  | .modelDeadline s => (Scheduler.nextBatch now s).map id .modelDeadline
  | .priorityTiered s => (Scheduler.nextBatch now s).map id .priorityTiered
  | .roundRobin s => (Scheduler.nextBatch now s).map id .roundRobin
  | .tieredDeadline s => (Scheduler.nextBatch now s).map id .tieredDeadline

def tick (clock : InferenceRequest ν → Rat) : AnyScheduler ν → Nat × AnyScheduler ν
  | .batchOptimized s => (Scheduler.tick clock s).map id .batchOptimized
  | .deadlineAware s => (Scheduler.tick clock s).map id .deadlineAware
  | .modelDeadline s => (Scheduler.tick clock s).map id .modelDeadline
  | .priorityTiered s => (Scheduler.tick clock s).map id .priorityTiered
  | .roundRobin s => (Scheduler.tick clock s).map id .roundRobin
  | .tieredDeadline s => (Scheduler.tick clock s).map id .tieredDeadline

def onClientConnected (clientId : String) : AnyScheduler ν → AnyScheduler ν
  | .batchOptimized s => .batchOptimized (Scheduler.onClientConnected clientId s)
  | .deadlineAware s => .deadlineAware (Scheduler.onClientConnected clientId s)
  | .modelDeadline s => .modelDeadline (Scheduler.onClientConnected clientId s)
  | .priorityTiered s => .priorityTiered (Scheduler.onClientConnected clientId s)
  | .roundRobin s => .roundRobin (Scheduler.onClientConnected clientId s)
  | .tieredDeadline s => .tieredDeadline (Scheduler.onClientConnected clientId s)

def onClientDisconnected (clientId : String) : AnyScheduler ν → AnyScheduler ν
  | .batchOptimized s => .batchOptimized (Scheduler.onClientDisconnected clientId s)
  | .deadlineAware s => .deadlineAware (Scheduler.onClientDisconnected clientId s)
  | .modelDeadline s => .modelDeadline (Scheduler.onClientDisconnected clientId s)
  | .priorityTiered s => .priorityTiered (Scheduler.onClientDisconnected clientId s)
  | .roundRobin s => .roundRobin (Scheduler.onClientDisconnected clientId s)
  | .tieredDeadline s => .tieredDeadline (Scheduler.onClientDisconnected clientId s)

def queueLen : AnyScheduler ν → Int
  | .batchOptimized s => Scheduler.queueLen s
  | .deadlineAware s => Scheduler.queueLen s
  | .modelDeadline s => Scheduler.queueLen s
  | .priorityTiered s => Scheduler.queueLen s
  | .roundRobin s => Scheduler.queueLen s
  | .tieredDeadline s => Scheduler.queueLen s

instance : Scheduler (AnyScheduler ν) ν where
  submit := submit
  resubmit := resubmit
  nextBatch := nextBatch
  tick := tick
  onClientConnected := onClientConnected
  onClientDisconnected := onClientDisconnected
  queueLen := queueLen

def config : AnyScheduler ν → SchedulingConfig ν
  | .batchOptimized s => s.config
  | .deadlineAware s => s.config
  | .modelDeadline s => s.config
  | .priorityTiered s => s.config
  | .roundRobin s => s.config
  | .tieredDeadline s => s.config

/-- All queued requests. -/
def stored : AnyScheduler ν → List (InferenceRequest ν)
  | .batchOptimized s => s.stored
  | .deadlineAware s => s.queue
  | .modelDeadline s => s.stored
  | .priorityTiered s => s.stored
  | .roundRobin s => s.stored
  | .tieredDeadline s => s.stored

def leaves : AnyScheduler ν → String → InferenceRequest ν → Bool
  | .deadlineAware _, _, _ => false
  | _, clientId, r => r.clientId = clientId

def Inv : AnyScheduler ν → Prop
  | .batchOptimized s => AccountedScheduler.Inv s
  | .deadlineAware s => AccountedScheduler.Inv s
  | .modelDeadline s => AccountedScheduler.Inv s
  | .priorityTiered s => AccountedScheduler.Inv s
  | .roundRobin s => AccountedScheduler.Inv s
  | .tieredDeadline s => AccountedScheduler.Inv s

end AnyScheduler

/-- The requeueing law carries over to a scheduler that wraps another one. -/
theorem Requeues.map {σ τ : Type} {f : σ → τ} {storedσ : σ → List (InferenceRequest ν)}
    {storedτ : τ → List (InferenceRequest ν)} (hstored : ∀ s, storedτ (f s) = storedσ s)
    {r : InferenceRequest ν} {s : σ} {o : Submitted σ ν} (h : Requeues storedσ r s o) :
    Requeues storedτ r (f s) (o.map f) where
  dropped := h.dropped
  accepted hraised := by
    obtain ⟨queued, hunstamped, hperm⟩ := h.accepted hraised
    refine ⟨queued, hunstamped, ?_⟩
    simpa [Submitted.map, hstored] using hperm
  refused hraised := congrArg f (h.refused hraised)

/-- The eviction law carries over in the same way. -/
theorem AnyScheduler.submit_evict {σ : Type} [AccountedScheduler σ ν] {f : σ → AnyScheduler ν}
    (hinvf : ∀ s, AccountedScheduler.Inv s → (f s).Inv)
    (hconfigf : ∀ s, (f s).config = AccountedScheduler.config s)
    (hstoredf : ∀ s, (f s).stored = AccountedScheduler.stored s)
    (hsubmitf : ∀ m r s, (f s).submit m r = (Scheduler.submit m r s).map f)
    (hresubmitf : ∀ m r s, (f s).resubmit m r = (Scheduler.resubmit m r s).map f)
    (m : Moment ν) (r : InferenceRequest ν) {s : σ} (hinv : AccountedScheduler.Inv s)
    (hfull : ((AccountedScheduler.config s).maxQueueSize : Int) ≤ Scheduler.queueLen s)
    (hpolicy : (AccountedScheduler.config s).overflowPolicy = .dropOldest) :
    ∃ oldest s₁, AnyScheduler.Inv s₁ ∧ s₁.config = (f s).config ∧
      (f s).stored.Perm (oldest :: s₁.stored) ∧
      (f s).submit m r = { s₁.resubmit m r with dropped := some oldest } := by
  obtain ⟨oldest, s₁, hinv₁, hconfig, hperm, heq⟩ :=
    AccountedScheduler.submit_evict m r hinv hfull hpolicy
  refine ⟨oldest, f s₁, hinvf s₁ hinv₁, ?_, ?_, ?_⟩
  · simpa [hconfigf] using hconfig
  · simpa [hstoredf] using hperm
  · rw [hsubmitf, heq, hresubmitf]
    rfl

/-- So does the law of `resubmit`. -/
theorem AnyScheduler.resubmit_spec {σ : Type} [AccountedScheduler σ ν] {f : σ → AnyScheduler ν}
    (hinvf : ∀ s, AccountedScheduler.Inv s → (f s).Inv)
    (hconfigf : ∀ s, (f s).config = AccountedScheduler.config s)
    (hstoredf : ∀ s, (f s).stored = AccountedScheduler.stored s)
    (hresubmitf : ∀ m r s, (f s).resubmit m r = (Scheduler.resubmit m r s).map f)
    (m : Moment ν) (r : InferenceRequest ν) {s : σ} (hinv : AccountedScheduler.Inv s) :
    ((f s).resubmit m r).state.Inv ∧ ((f s).resubmit m r).state.config = (f s).config ∧
      Requeues AnyScheduler.stored r (f s) ((f s).resubmit m r) := by
  obtain ⟨hinv', hconfig, hrequeues⟩ := AccountedScheduler.resubmit_spec m r hinv
  rw [hresubmitf]
  refine ⟨hinvf _ hinv', ?_, hrequeues.map hstoredf⟩
  simpa [Submitted.map, hconfigf] using hconfig

instance : AccountedScheduler (AnyScheduler ν) ν where
  config := AnyScheduler.config
  stored := AnyScheduler.stored
  leaves := AnyScheduler.leaves
  Inv := AnyScheduler.Inv
  queueLen_eq {s} hinv := by
    cases s <;> exact AccountedScheduler.queueLen_eq hinv
  submit_room m r s hroom := by
    cases s <;> exact congrArg (Submitted.map _) (AccountedScheduler.submit_room m r hroom)
  submit_reject m r s hfull hpolicy := by
    cases s <;>
      exact congrArg (Submitted.map _) (AccountedScheduler.submit_reject m r hfull hpolicy)
  submit_evict m r s hinv hfull hpolicy := by
    cases s <;>
      exact AnyScheduler.submit_evict (fun _ h => h) (fun _ => rfl) (fun _ => rfl)
        (fun _ _ _ => rfl) (fun _ _ _ => rfl) m r hinv hfull hpolicy
  resubmit_spec m r s hinv := by
    cases s <;>
      exact AnyScheduler.resubmit_spec (fun _ h => h) (fun _ => rfl) (fun _ => rfl)
        (fun _ _ _ => rfl) m r hinv
  nextBatch_spec now s hinv := by
    cases s <;> exact AccountedScheduler.nextBatch_spec now hinv
  tick_spec clock s hinv := by
    cases s <;> exact AccountedScheduler.tick_spec clock hinv
  connected_spec clientId s hinv := by
    cases s <;> exact AccountedScheduler.connected_spec clientId hinv
  disconnected_spec clientId s hinv := by
    cases s <;> exact AccountedScheduler.disconnected_spec clientId hinv

/-! ## What the server uses -/

namespace AnyScheduler

/-- `_compute_score`, for the schedulers that have one, raises. -/
def ScoreRaises (m : Moment ν) (r : InferenceRequest ν) : AnyScheduler ν → Prop
  | .deadlineAware s => ∃ e, s.computeScore m r = .error e
  | .modelDeadline s => ∃ e, s.computeScore m r = .error e
  | .tieredDeadline s => ∃ e, s.computeScore m r = .error e
  | _ => False

/-- `resubmit` raises what scoring raises, and nothing else. -/
theorem resubmit_raised_iff (m : Moment ν) (r : InferenceRequest ν) (s : AnyScheduler ν) :
    (Scheduler.resubmit m r s).raised ≠ none ↔ s.ScoreRaises m r := by
  cases s with
  | batchOptimized s => exact ⟨fun h => h rfl, False.elim⟩
  | deadlineAware s =>
      show (DeadlineAwareScheduler.resubmit m r s).raised ≠ none ↔ _
      unfold DeadlineAwareScheduler.resubmit ScoreRaises
      cases hscore : s.computeScore m r <;> simp [hscore]
  | modelDeadline s =>
      show (ModelDeadlineScheduler.resubmit m r s).raised ≠ none ↔ _
      unfold ModelDeadlineScheduler.resubmit ModelDeadlineScheduler.push ScoreRaises
      cases hscore : s.computeScore m r <;> simp [hscore]
  | priorityTiered s => exact ⟨fun h => h rfl, False.elim⟩
  | roundRobin s => exact ⟨fun h => h rfl, False.elim⟩
  | tieredDeadline s =>
      show (TieredDeadlineScheduler.resubmit m r s).raised ≠ none ↔ _
      unfold TieredDeadlineScheduler.resubmit ScoreRaises
      cases hscore : s.computeScore m r <;> simp [hscore]

theorem scoreRaises_connected (m : Moment ν) (r : InferenceRequest ν) (clientId : String)
    (s : AnyScheduler ν) :
    (Scheduler.onClientConnected clientId s).ScoreRaises m r ↔ s.ScoreRaises m r := by
  cases s <;> rfl

/-- `queue_len() >= max_queue_size` -/
def Full (s : AnyScheduler ν) : Prop := (s.config.maxQueueSize : Int) ≤ s.queueLen

theorem full_connected (clientId : String) {s : AnyScheduler ν} (hinv : s.Inv) :
    (Scheduler.onClientConnected clientId s).config = s.config ∧
      ((Scheduler.onClientConnected clientId s).Full ↔ s.Full) := by
  have hinv₀ : AccountedScheduler.Inv s := hinv
  obtain ⟨hinv', hconfig, hperm⟩ := AccountedScheduler.connected_spec clientId hinv₀
  -- a client that connects brings no requests
  have hlen : (Scheduler.onClientConnected clientId s).queueLen = s.queueLen := by
    have hafter := AccountedScheduler.queueLen_eq hinv'
    have hbefore := AccountedScheduler.queueLen_eq hinv₀
    rw [hperm.length_eq] at hafter
    exact hafter.trans hbefore.symm
  refine ⟨hconfig, ?_⟩
  have hconfig' : (Scheduler.onClientConnected clientId s).config = s.config := hconfig
  unfold Full
  rw [hconfig', hlen]

/-- A request is only dropped from a full queue under `drop_oldest`; beyond that and the refusal of
a full queue, `submit` raises what scoring raises. -/
theorem submit_losses (m : Moment ν) (r : InferenceRequest ν) {s : AnyScheduler ν} (hinv : s.Inv) :
    let o := Scheduler.submit m r s
    (o.dropped ≠ none → s.Full ∧ s.config.overflowPolicy = .dropOldest) ∧
      (o.raised ≠ none → o.raised = some (.queueFullError r.clientId) ∨
        s.Full ∧ s.config.overflowPolicy = .dropOldest ∨ ¬ s.Full ∧ s.ScoreRaises m r) := by
  intro o
  by_cases hfull : s.Full
  · cases hpolicy : s.config.overflowPolicy with
    | dropOldest => exact ⟨fun _ => ⟨hfull, rfl⟩, fun _ => Or.inr (Or.inl ⟨hfull, rfl⟩)⟩
    | rejectNewest =>
        have ho : o = { state := s, raised := some (.queueFullError r.clientId) } :=
          AccountedScheduler.submit_reject m r hfull hpolicy
        rw [ho]
        exact ⟨fun h => absurd rfl h, fun _ => Or.inl rfl⟩
  -- there is room, so `submit` does what `resubmit` does
  · have ho : o = Scheduler.resubmit m r s :=
      AccountedScheduler.submit_room m r (not_le.mp hfull)
    have hinv' : AccountedScheduler.Inv s := hinv
    obtain ⟨-, -, hrequeues⟩ := AccountedScheduler.resubmit_spec m r hinv'
    rw [ho]
    refine ⟨fun h => absurd hrequeues.dropped h, fun h => Or.inr (Or.inr ⟨hfull, ?_⟩)⟩
    exact (resubmit_raised_iff m r s).mp h

/-! ### Swapping, and model awareness -/

/-- Each registered name makes a scheduler of its own strategy. -/
theorem createScheduler_cases {config : SchedulingConfig ν} {s : AnyScheduler ν}
    (h : createScheduler config = .ok s) :
    (config.strategy = "batch_optimized" ∧ s = .batchOptimized (.init config)) ∨
    (config.strategy = "deadline_aware" ∧ s = .deadlineAware (.init config)) ∨
    (config.strategy = "model_deadline" ∧ s = .modelDeadline (.init config)) ∨
    (config.strategy = "priority_tiered" ∧ s = .priorityTiered (.init config)) ∨
    (config.strategy = "round_robin" ∧ s = .roundRobin (.init config)) ∨
    (config.strategy = "tiered_deadline" ∧ s = .tieredDeadline (.init config)) := by
  unfold createScheduler at h
  split_ifs at h with h₁ h₂ h₃ h₄ h₅ h₆
  · exact Or.inl ⟨h₁, (Except.ok.inj h).symm⟩
  · exact Or.inr (Or.inl ⟨h₂, (Except.ok.inj h).symm⟩)
  · exact Or.inr (Or.inr (Or.inl ⟨h₃, (Except.ok.inj h).symm⟩))
  · exact Or.inr (Or.inr (Or.inr (Or.inl ⟨h₄, (Except.ok.inj h).symm⟩)))
  · exact Or.inr (Or.inr (Or.inr (Or.inr (Or.inl ⟨h₅, (Except.ok.inj h).symm⟩))))
  · exact Or.inr (Or.inr (Or.inr (Or.inr (Or.inr ⟨h₆, (Except.ok.inj h).symm⟩))))

theorem createScheduler_fresh {config : SchedulingConfig ν} {s : AnyScheduler ν}
    (h : createScheduler config = .ok s) : s.Inv ∧ s.stored = [] := by
  rcases createScheduler_cases h with
    ⟨-, rfl⟩ | ⟨-, rfl⟩ | ⟨-, rfl⟩ | ⟨-, rfl⟩ | ⟨-, rfl⟩ | ⟨-, rfl⟩
  · exact ⟨BatchOptimizedScheduler.init_inv config, rfl⟩
  · exact ⟨trivial, rfl⟩
  · exact ⟨ModelDeadlineScheduler.init_inv config none, rfl⟩
  · exact ⟨PriorityTieredScheduler.init_inv config, PriorityTieredScheduler.init_stored config⟩
  · exact ⟨RoundRobinScheduler.init_inv config, rfl⟩
  · exact ⟨TieredDeadlineScheduler.init_inv config none, TieredDeadlineScheduler.init_stored config⟩

theorem createScheduler_config {config : SchedulingConfig ν} {s : AnyScheduler ν}
    (h : createScheduler config = .ok s) : s.config = config := by
  rcases createScheduler_cases h with
    ⟨-, rfl⟩ | ⟨-, rfl⟩ | ⟨-, rfl⟩ | ⟨-, rfl⟩ | ⟨-, rfl⟩ | ⟨-, rfl⟩ <;> rfl

/-- One strategy is model-aware. -/
theorem createScheduler_aware {config : SchedulingConfig ν} {s : AnyScheduler ν}
    (h : createScheduler config = .ok s) :
    s.isModelAware = true ↔ config.strategy = "model_deadline" := by
  rcases createScheduler_cases h with
    ⟨hname, rfl⟩ | ⟨hname, rfl⟩ | ⟨hname, rfl⟩ | ⟨hname, rfl⟩ | ⟨hname, rfl⟩ | ⟨hname, rfl⟩ <;>
    simp [isModelAware, hname]

/-- A policy is put into a scheduler that scores, and ignored by the others. -/
theorem usePolicy_cases {registered : String → Bool} {policyName : String} {s s' : AnyScheduler ν}
    (h : s.usePolicy registered policyName = .ok s') :
    (∃ t : DeadlineAwareScheduler ν, s = .deadlineAware t ∧
      s' = .deadlineAware { t with policy := some policyName }) ∨
    (∃ t : ModelDeadlineScheduler ν, s = .modelDeadline t ∧
      s' = .modelDeadline { t with policy := some policyName }) ∨
    (∃ t : TieredDeadlineScheduler ν, s = .tieredDeadline t ∧
      s' = .tieredDeadline { t with policy := some policyName }) ∨
    s' = s := by
  cases s with
  | deadlineAware t =>
      simp only [usePolicy, DeadlineAwareScheduler.usePolicy] at h
      split at h
      · cases h
        exact Or.inl ⟨t, rfl, rfl⟩
      · cases h
  | modelDeadline t =>
      simp only [usePolicy, ModelDeadlineScheduler.usePolicy] at h
      split at h
      · cases h
        exact Or.inr (Or.inl ⟨t, rfl, rfl⟩)
      · cases h
  | tieredDeadline t =>
      simp only [usePolicy, TieredDeadlineScheduler.usePolicy] at h
      split at h
      · cases h
        exact Or.inr (Or.inr (Or.inl ⟨t, rfl, rfl⟩))
      · cases h
  | _ => exact Or.inr (Or.inr (Or.inr (Except.ok.inj h).symm))

/-- A policy changes neither the requests nor the kind of the scheduler. -/
theorem usePolicy_spec {registered : String → Bool} {policyName : String} {s s' : AnyScheduler ν}
    (h : s.usePolicy registered policyName = .ok s') (hinv : s.Inv) :
    s'.Inv ∧ s'.stored = s.stored ∧ s'.isModelAware = s.isModelAware := by
  rcases usePolicy_cases h with ⟨t, rfl, rfl⟩ | ⟨t, rfl, rfl⟩ | ⟨t, rfl, rfl⟩ | rfl
  · exact ⟨trivial, rfl, rfl⟩
  · exact ⟨⟨hinv.1, hinv.2, hinv.3, hinv.4, hinv.5⟩, rfl, rfl⟩
  · exact ⟨hinv, rfl, rfl⟩
  · exact ⟨hinv, rfl, rfl⟩

theorem usePolicy_config {registered : String → Bool} {policyName : String} {s s' : AnyScheduler ν}
    (h : s.usePolicy registered policyName = .ok s') : s'.config = s.config := by
  rcases usePolicy_cases h with ⟨t, rfl, rfl⟩ | ⟨t, rfl, rfl⟩ | ⟨t, rfl, rfl⟩ | rfl <;> rfl

@[simp] theorem isModelAware_submit (m : Moment ν) (r : InferenceRequest ν) (s : AnyScheduler ν) :
    (Scheduler.submit m r s).state.isModelAware = s.isModelAware := by cases s <;> rfl

@[simp] theorem isModelAware_resubmit (m : Moment ν) (r : InferenceRequest ν)
    (s : AnyScheduler ν) :
    (Scheduler.resubmit m r s).state.isModelAware = s.isModelAware := by cases s <;> rfl

@[simp] theorem isModelAware_nextBatch (now : Rat) (s : AnyScheduler ν) :
    (Scheduler.nextBatch now s).2.isModelAware = s.isModelAware := by cases s <;> rfl

@[simp] theorem isModelAware_nextBatchForModel (modelId : String) (s : AnyScheduler ν) :
    (s.nextBatchForModel modelId).2.isModelAware = s.isModelAware := by cases s <;> rfl

@[simp] theorem isModelAware_tick (clock : InferenceRequest ν → Rat) (s : AnyScheduler ν) :
    (Scheduler.tick clock s).2.isModelAware = s.isModelAware := by cases s <;> rfl

@[simp] theorem isModelAware_connected (clientId : String) (s : AnyScheduler ν) :
    (Scheduler.onClientConnected clientId s).isModelAware = s.isModelAware := by cases s <;> rfl

@[simp] theorem isModelAware_disconnected (clientId : String) (s : AnyScheduler ν) :
    (Scheduler.onClientDisconnected clientId s).isModelAware = s.isModelAware := by
  cases s <;> rfl

/-- A model-aware scheduler gives out at most one request at a time, of the model asked for. -/
theorem nextBatchForModel_spec (modelId : String) {s : AnyScheduler ν} (hinv : s.Inv) :
    (s.nextBatchForModel modelId).2.Inv ∧
      s.stored.Perm ((s.nextBatchForModel modelId).1 ++ (s.nextBatchForModel modelId).2.stored) ∧
      (s.nextBatchForModel modelId).1.length ≤ 1 ∧
      ∀ r ∈ (s.nextBatchForModel modelId).1, r.modelId = modelId := by
  cases s with
  | modelDeadline s =>
      refine ⟨ModelDeadlineScheduler.nextBatchForModel_inv modelId hinv,
        ModelDeadlineScheduler.nextBatchForModel_stored modelId s, ?_⟩
      have hown : ModelDeadlineScheduler.Inv s := hinv
      rcases ModelDeadlineScheduler.nextBatchForModel_spec modelId s with
        ⟨-, heq⟩ | ⟨item, heap, hpop, heq⟩
      · simp [nextBatchForModel, heq]
      · have hmem : item ∈ s.heapOf modelId :=
          (PyStd.Heapq.heappop_perm hpop).mem_iff.mpr List.mem_cons_self
        simp [nextBatchForModel, heq, hown.own modelId item hmem]
  -- the other five have no such method
  | _ => exact ⟨hinv, List.Perm.refl _, Nat.zero_le _, by simp [nextBatchForModel]⟩

theorem nextBatchForModel_config (modelId : String) (s : AnyScheduler ν) :
    (s.nextBatchForModel modelId).2.config = s.config := by
  cases s with
  | modelDeadline s => exact (ModelDeadlineScheduler.nextBatchForModel_frame modelId s).1
  | _ => rfl

/-- The request that a tier gives up leaves the scheduler. -/
theorem nextBatchForTier_kept (tier : Nat) {s : TieredDeadlineScheduler ν}
    (hinv : (tieredDeadline s).Inv) :
    (tieredDeadline (s.nextBatchForTier tier).2).Inv ∧
      (s.nextBatchForTier tier).2.config = s.config ∧
      s.stored.Perm ((s.nextBatchForTier tier).1 ++ (s.nextBatchForTier tier).2.stored) := by
  have hexact : TotalExact s.total s.stored := hinv
  rcases s.nextBatchForTier_spec tier with ⟨-, heq⟩ | ⟨item, s', heq, hconfig, htotal, hperm⟩
  · rw [heq]
    exact ⟨hinv, rfl, List.Perm.refl _⟩
  · have hexact' : TotalExact s'.total s'.stored := htotal ▸ hexact.remove hperm
    rw [heq]
    exact ⟨hexact', hconfig, hperm⟩

end AnyScheduler

/-! ## No loss and no duplication -/

/-- An empty batch means that nothing is stored. -/
def Drains {σ : Type} [AccountedScheduler σ ν] (s : σ) : Prop :=
  ∀ now : Rat, (Scheduler.nextBatch now s).1 = [] ↔ stored s = []

/-- Along every run of each scheduler the enqueued requests are the stored ones together with
those returned, evicted, expired and removed; and batches are empty only when nothing is stored, or
are fronts of one model's queue in the order of enqueueing. -/
theorem schedulers_account (config : SchedulingConfig ν) (policy : Option String)
    (cs : List (SchedulerCall ν)) :
    (let run := accountedRun (RoundRobinScheduler.init config) {} cs;
      Balanced run.1 run.2 ∧ Drains run.1) ∧
    (let run := accountedRun (PriorityTieredScheduler.init config) {} cs;
      Balanced run.1 run.2 ∧ Drains run.1) ∧
    (let run := accountedRun { TieredDeadlineScheduler.init config with policy := policy } {} cs;
      Balanced run.1 run.2 ∧ Drains run.1) ∧
    (let run := accountedRun { DeadlineAwareScheduler.init config with policy := policy } {} cs;
      Balanced run.1 run.2 ∧ Drains run.1) ∧
    (let run := accountedRun (BatchOptimizedScheduler.init config) {} cs;
      Balanced run.1 run.2 ∧ run.1.Fifo run.2 ∧
      ∀ now, (run.1.nextBatch now).1 = [] ∨
        ∃ modelId, (run.1.nextBatch now).1 <+: run.1.queueOf modelId ∧
          1 ≤ (run.1.nextBatch now).1.length ∧
          (run.1.nextBatch now).1.length ≤ config.batchOptimized.maxBatchSize) := by
  refine ⟨?_, ?_, ?_, ?_, ?_⟩
  · obtain ⟨hinv, -, hbalance⟩ := accountedRun_fresh (RoundRobinScheduler.init config)
      (RoundRobinScheduler.init_inv config) rfl cs
    exact ⟨hbalance, fun _ => RoundRobinScheduler.nextBatch_eq_nil hinv⟩
  · obtain ⟨hinv, -, hbalance⟩ := accountedRun_fresh (PriorityTieredScheduler.init config)
      (PriorityTieredScheduler.init_inv config) (PriorityTieredScheduler.init_stored config) cs
    exact ⟨hbalance, fun _ => PriorityTieredScheduler.nextBatch_eq_nil hinv⟩
  · obtain ⟨-, -, hbalance⟩ := accountedRun_fresh
      { TieredDeadlineScheduler.init config with policy := policy }
      (TieredDeadlineScheduler.init_inv config policy)
      (TieredDeadlineScheduler.init_stored config) cs
    exact ⟨hbalance, fun _ => TieredDeadlineScheduler.nextBatch_eq_nil _⟩
  · obtain ⟨-, -, hbalance⟩ := accountedRun_fresh
      { DeadlineAwareScheduler.init config with policy := policy } trivial rfl cs
    exact ⟨hbalance, fun _ => DeadlineAwareScheduler.nextBatch_eq_nil _⟩
  · obtain ⟨-, hconfig, hbalance⟩ := accountedRun_fresh (BatchOptimizedScheduler.init config)
      (BatchOptimizedScheduler.init_inv config) rfl cs
    have hfifo : (BatchOptimizedScheduler.init config).Fifo {} := fun _ => List.Sublist.refl _
    refine ⟨hbalance, BatchOptimizedScheduler.accountedRun_fifo hfifo cs, fun now => ?_⟩
    have hmax : (accountedRun (BatchOptimizedScheduler.init config) {} cs).1.maxBatch =
        config.batchOptimized.maxBatchSize :=
      congrArg (fun c : SchedulingConfig ν => c.batchOptimized.maxBatchSize) hconfig
    rw [← hmax]
    exact BatchOptimizedScheduler.nextBatch_front now _

end Inferential
