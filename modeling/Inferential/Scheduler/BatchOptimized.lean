import Inferential.Scheduler.Accounting

/-!
# BatchOptimized — batches of requests for one model

One FIFO queue per model.  A queue is flushed when it holds a full batch, or when the timer that
its first request started has run out.
-/

namespace Inferential

open PyStd

variable {ν : Type} [Score ν]

structure BatchOptimizedScheduler (ν : Type) [Score ν] where
  config : SchedulingConfig ν
  byModel : Dict String (List (InferenceRequest ν)) := Dict.empty
  firstArrival : Dict String Rat := Dict.empty
  total : Int := 0

namespace BatchOptimizedScheduler

/-! ## The operations -/

/-- `__init__` -/
def init (config : SchedulingConfig ν) : BatchOptimizedScheduler ν := { config := config }

def maxBatch (s : BatchOptimizedScheduler ν) : Nat := s.config.batchOptimized.maxBatchSize

def resubmit (now : Rat) (request : InferenceRequest ν) (s : BatchOptimizedScheduler ν) :
    Submitted (BatchOptimizedScheduler ν) ν :=
  let modelId := request.modelId
  { state := { s with
      firstArrival :=
        -- the timer of a queue is only started, never restarted
        if s.firstArrival.contains modelId then s.firstArrival else s.firstArrival.set modelId now
      byModel := s.byModel.set modelId (s.byModel.listAt modelId ++ [request])
      total := s.total + 1 } }

/-- `_drop_oldest`: only the fronts of the queues are compared. -/
def dropOldest (s : BatchOptimizedScheduler ν) :
    Option (InferenceRequest ν) × BatchOptimizedScheduler ν :=
  match oldestFront s.byModel with
  | none => (none, s)
  | some (oldestModel, dropped, rest) =>
      (some dropped, { s with
        byModel := s.byModel.set oldestModel rest
        firstArrival := if rest.isEmpty then s.firstArrival.erase oldestModel else s.firstArrival
        total := s.total - 1 })

def submit (now : Rat) (request : InferenceRequest ν) (s : BatchOptimizedScheduler ν) :
    Submitted (BatchOptimizedScheduler ν) ν :=
  if s.config.maxQueueSize ≤ s.total then
    match s.config.overflowPolicy with
    | .dropOldest =>
        -- the eviction happens before the new request is queued
        let (dropped, s') := s.dropOldest
        { s'.resubmit now request with dropped := dropped }
    | .rejectNewest => { state := s, raised := some (.queueFullError request.clientId) }
  else
    s.resubmit now request

/-- Whether `next_batch` flushes this queue: it is full, or it has waited long enough. -/
def ready (now : Rat) (s : BatchOptimizedScheduler ν)
    (item : String × List (InferenceRequest ν)) : Bool :=
  let batchFull := decide (s.maxBatch ≤ item.2.length)
  -- a queue without a timer has not waited at all
  let first := (s.firstArrival.get? item.1).getD now
  let waitExceeded := decide (s.config.batchOptimized.maxWaitMs ≤ (now - first) * 1000)
  !item.2.isEmpty && (batchFull || waitExceeded)

def nextBatch (now : Rat) (s : BatchOptimizedScheduler ν) :
    List (InferenceRequest ν) × BatchOptimizedScheduler ν :=
  match s.byModel.items.find? (s.ready now) with
  | none => ([], s)
  | some (modelId, queue) =>
      let batch := queue.take s.maxBatch
      let rest := queue.drop s.maxBatch
      (batch, { s with
        byModel := s.byModel.set modelId rest
        firstArrival :=
          -- what the batch leaves behind starts to wait again
          if rest.isEmpty then s.firstArrival.erase modelId else s.firstArrival.set modelId now
        total := s.total - batch.length })

/-- Every queue without the requests that are not kept, with the number of removed requests. -/
def sweep (keep : InferenceRequest ν → Bool) (s : BatchOptimizedScheduler ν) :
    Nat × BatchOptimizedScheduler ν :=
  let removed := (s.byModel.values.map fun queue => queue.length - (queue.filter keep).length).sum
  (removed, { s with
    byModel := s.byModel.mapValues fun queue => queue.filter keep
    total := s.total - removed })

/-- The timers of queues that are empty now are popped. -/
def tick (clock : InferenceRequest ν → Rat) (s : BatchOptimizedScheduler ν) :
    Nat × BatchOptimizedScheduler ν :=
  let (expired, s') := s.sweep fun r => !isExpired (clock r) s.config.requestTtlMs r
  (expired, { s' with
    firstArrival := s'.byModel.items.foldl
      (fun timers item => if item.2.isEmpty then timers.erase item.1 else timers) s'.firstArrival })

/-- The timers stay as they are. -/
def onClientDisconnected (clientId : String) (s : BatchOptimizedScheduler ν) :
    BatchOptimizedScheduler ν :=
  (s.sweep fun r => r.clientId ≠ clientId).2

instance : Scheduler (BatchOptimizedScheduler ν) ν where
  submit m := submit m.now
  resubmit m := resubmit m.now
  nextBatch := nextBatch
  tick := tick
  onClientConnected _ s := s
  onClientDisconnected := onClientDisconnected
  queueLen s := s.total

/-! ## Accounting -/

/-- All queued requests. -/
def stored (s : BatchOptimizedScheduler ν) : List (InferenceRequest ν) := s.byModel.flatten

/-- The queue of a model. -/
def queueOf (s : BatchOptimizedScheduler ν) (modelId : String) : List (InferenceRequest ν) :=
  s.byModel.listAt modelId

def Inv (s : BatchOptimizedScheduler ν) : Prop := TotalExact s.total s.stored

theorem init_inv (config : SchedulingConfig ν) : Inv (init config) := rfl

theorem resubmit_stored (now : Rat) (r : InferenceRequest ν) (s : BatchOptimizedScheduler ν) :
    (s.resubmit now r).state.stored.Perm (r :: s.stored) :=
  Dict.flatten_set_cons (List.perm_append_singleton r _)

theorem dropOldest_spec {s : BatchOptimizedScheduler ν} (hinv : Inv s) (hne : s.stored ≠ []) :
    ∃ oldest s', s.dropOldest = (some oldest, s') ∧ Inv s' ∧ s'.config = s.config ∧
      s.stored.Perm (oldest :: s'.stored) := by
  obtain ⟨modelId, front, rest, heq, hlist⟩ := oldestFront_spec hne
  have hperm : s.stored.Perm (front :: (s.byModel.set modelId rest).flatten) :=
    Dict.flatten_set_drop (by rw [hlist])
  refine ⟨front, s.dropOldest.2, ?_, ?_, ?_, ?_⟩
  · simp [dropOldest, heq]
  · simp only [dropOldest, heq]
    exact hinv.remove hperm
  · simp [dropOldest, heq]
  · simpa [dropOldest, heq, stored] using hperm

/-- A flush takes the front of one queue. -/
theorem nextBatch_cases (now : Rat) (s : BatchOptimizedScheduler ν) :
    s.nextBatch now = ([], s) ∨
    ∃ modelId, s.ready now (modelId, s.queueOf modelId) = true ∧
      (s.nextBatch now).1 = (s.queueOf modelId).take s.maxBatch ∧
      (s.nextBatch now).2.byModel = s.byModel.set modelId ((s.queueOf modelId).drop s.maxBatch) ∧
      (s.nextBatch now).2.config = s.config ∧
      (s.nextBatch now).2.total = s.total - ((s.nextBatch now).1.length : Int) := by
  unfold nextBatch
  cases hfind : s.byModel.items.find? (s.ready now) with
  | none => exact Or.inl rfl
  | some item =>
      obtain ⟨modelId, queue⟩ := item
      have hget : s.byModel.get? modelId = some queue :=
        Dict.get?_eq_some.mpr (List.mem_of_find?_eq_some hfind)
      have hqueue : s.queueOf modelId = queue := by simp [queueOf, Dict.listAt, hget]
      have hready : s.ready now (modelId, queue) = true := List.find?_some hfind
      refine Or.inr ⟨modelId, ?_, ?_, ?_, rfl, rfl⟩
      · rw [hqueue]
        exact hready
      · rw [hqueue]
      · rw [hqueue]

theorem nextBatch_stored (now : Rat) (s : BatchOptimizedScheduler ν) :
    s.stored.Perm ((s.nextBatch now).1 ++ (s.nextBatch now).2.stored) := by
  rcases s.nextBatch_cases now with heq | ⟨modelId, -, hbatch, hqueues, -, -⟩
  · simp [heq]
  · have hset := Dict.flatten_set_perm s.byModel modelId ((s.queueOf modelId).drop s.maxBatch)
    have hsplit : s.byModel.listAt modelId =
        (s.queueOf modelId).take s.maxBatch ++ (s.queueOf modelId).drop s.maxBatch :=
      (List.take_append_drop _ _).symm
    -- the queue is its batch and its rest; the rest is on both sides and cancels
    rw [hsplit, ← List.append_assoc] at hset
    simp only [stored, hbatch, hqueues]
    exact ((List.perm_append_right_iff _).mp hset).symm.trans List.perm_append_comm

theorem sweep_spec (keep : InferenceRequest ν → Bool) {s : BatchOptimizedScheduler ν}
    (hinv : Inv s) :
    Inv (s.sweep keep).2 ∧ (s.sweep keep).2.config = s.config ∧
      (s.sweep keep).2.stored.Perm (s.stored.filter keep) ∧
      (s.sweep keep).1 = (s.stored.filter fun r => !keep r).length := by
  have hperm : (s.sweep keep).2.stored.Perm (s.stored.filter keep) := by
    simp only [sweep, stored, Dict.flatten_mapValues_filter]
    exact List.Perm.refl _
  have hcount : (s.sweep keep).1 = (s.stored.filter fun r => !keep r).length :=
    Dict.sum_removed keep s.byModel
  exact ⟨hinv.sweep hperm hcount, rfl, hperm, hcount⟩

instance : AccountedScheduler (BatchOptimizedScheduler ν) ν where
  config := config
  stored := stored
  leaves _ clientId r := r.clientId = clientId
  Inv := Inv
  queueLen_eq hinv := hinv
  submit_room m r s hroom := if_neg (not_le.mpr hroom)
  submit_reject m r s hfull hpolicy := by
    have hfull' : (s.config.maxQueueSize : Int) ≤ s.total := hfull
    simp [Scheduler.submit, submit, hfull', hpolicy]
  submit_evict m r s hinv hfull hpolicy := by
    have hfull' : (s.config.maxQueueSize : Int) ≤ s.total := hfull
    have hne : s.stored ≠ [] := hinv.ne_nil s.config.maxQueueSize_ge hfull'
    obtain ⟨oldest, s', heq, hinv', hconfig, hperm⟩ := dropOldest_spec hinv hne
    refine ⟨oldest, s', hinv', hconfig, hperm, ?_⟩
    simp [Scheduler.submit, Scheduler.resubmit, submit, hfull', hpolicy, heq]
  resubmit_spec m r s hinv := by
    have hperm := s.resubmit_stored m.now r
    exact ⟨hinv.add hperm, rfl, rfl, fun _ => ⟨r, rfl, hperm⟩, fun hraised => absurd rfl hraised⟩
  nextBatch_spec now s hinv := by
    have hperm := s.nextBatch_stored now
    rcases s.nextBatch_cases now with heq | ⟨modelId, -, -, -, hconfig, htotal⟩
    · simpa [Scheduler.nextBatch, heq] using hinv
    · refine ⟨?_, hconfig, hperm⟩
      have hlength := hperm.length_eq
      have hinv' : s.total = (s.stored.length : Int) := hinv
      rw [List.length_append] at hlength
      simp only [Scheduler.nextBatch, Inv, TotalExact, htotal]
      omega
  tick_spec clock s hinv := by
    have hspec := sweep_spec (fun r => !isExpired (clock r) s.config.requestTtlMs r) hinv
    simpa [Scheduler.tick, tick, Inv, stored] using hspec
  connected_spec _ s hinv := ⟨hinv, rfl, List.Perm.refl _⟩
  disconnected_spec clientId s hinv := by
    obtain ⟨hinv', hconfig, hperm, -⟩ := sweep_spec (fun r => r.clientId ≠ clientId) hinv
    refine ⟨hinv', hconfig, ?_⟩
    simpa [Scheduler.onClientDisconnected, onClientDisconnected] using hperm

/-! ## Batches -/

/-- A batch is empty, or it is the front of one model's queue and not longer than allowed. -/
theorem nextBatch_front (now : Rat) (s : BatchOptimizedScheduler ν) :
    (s.nextBatch now).1 = [] ∨
    ∃ modelId, (s.nextBatch now).1 <+: s.queueOf modelId ∧
      1 ≤ (s.nextBatch now).1.length ∧ (s.nextBatch now).1.length ≤ s.maxBatch := by
  rcases s.nextBatch_cases now with heq | ⟨modelId, hready, hbatch, -⟩
  · exact Or.inl (by rw [heq])
  · refine Or.inr ⟨modelId, ?_, ?_, ?_⟩
    · rw [hbatch]
      exact List.take_prefix _ _
    · have hne : s.queueOf modelId ≠ [] := by
        intro hnil
        simp [ready, hnil] at hready
      have hlength : 0 < (s.queueOf modelId).length := List.length_pos_iff.mpr hne
      have hmax : 1 ≤ s.maxBatch := s.config.batchOptimized.maxBatchSize_ge
      rw [hbatch, List.length_take]
      omega
    · rw [hbatch]
      exact List.length_take_le _ _

/-- The queues hold the enqueued requests in the order in which they were enqueued. -/
def Fifo (s : BatchOptimizedScheduler ν) (l : Ledger ν) : Prop :=
  ∀ modelId, (s.queueOf modelId).Sublist (l.enqueued.filter fun r => r.modelId = modelId)

theorem resubmit_fifo (now : Rat) (r : InferenceRequest ν) {s : BatchOptimizedScheduler ν}
    {enqueued : List (InferenceRequest ν)}
    (h : ∀ modelId, (s.queueOf modelId).Sublist (enqueued.filter fun r => r.modelId = modelId))
    (modelId : String) :
    ((s.resubmit now r).state.queueOf modelId).Sublist
      ((enqueued ++ [r]).filter fun r => r.modelId = modelId) := by
  simp only [resubmit, queueOf, Dict.listAt_set, List.filter_append]
  split
  · next heq =>
      subst heq
      simpa [queueOf] using (h r.modelId).append_right [r]
  · exact (h modelId).trans (List.sublist_append_left _ _)

theorem dropOldest_queueOf (s : BatchOptimizedScheduler ν) (modelId : String) :
    (s.dropOldest.2.queueOf modelId).Sublist (s.queueOf modelId) := by
  unfold dropOldest
  cases hfront : oldestFront s.byModel with
  | none => exact List.Sublist.refl _
  | some found =>
      obtain ⟨oldestModel, dropped, rest⟩ := found
      have hlist := oldestFront_listAt hfront
      simp only [queueOf, Dict.listAt_set]
      split
      · next heq =>
          rw [heq, hlist]
          exact List.sublist_cons_self dropped rest
      · exact List.Sublist.refl _

theorem submit_fifo (now : Rat) (r : InferenceRequest ν) {s : BatchOptimizedScheduler ν}
    {l : Ledger ν} (h : Fifo s l) :
    Fifo (s.submit now r).state (l.enqueue r (s.submit now r)) := by
  intro modelId
  unfold submit
  split
  · cases hpolicy : s.config.overflowPolicy with
    | dropOldest =>
        exact resubmit_fifo now r (fun m => (s.dropOldest_queueOf m).trans (h m)) modelId
    | rejectNewest => exact h modelId
  · exact resubmit_fifo now r h modelId

/-- Every call keeps the order. -/
theorem accountedCall_fifo {s : BatchOptimizedScheduler ν} {l : Ledger ν} (h : Fifo s l)
    (c : SchedulerCall ν) : Fifo (accountedCall s l c).1 (accountedCall s l c).2 := by
  -- both loops over the queues filter them
  have hsweep : ∀ keep : InferenceRequest ν → Bool, Fifo (s.sweep keep).2 l := by
    intro keep modelId
    simp only [sweep, queueOf, Dict.listAt_mapValues (List.filter_nil (p := keep))]
    exact List.filter_sublist.trans (h modelId)
  cases c with
  | submit m r => exact submit_fifo m.now r h
  | resubmit m r => exact resubmit_fifo m.now r h
  | nextBatch now =>
      rcases s.nextBatch_cases now with heq | ⟨flushed, -, -, hqueues, -, -⟩
      · simpa [accountedCall, Scheduler.nextBatch, heq] using h
      · intro modelId
        simp only [accountedCall, Scheduler.nextBatch, queueOf, hqueues, Dict.listAt_set]
        split
        · next heq =>
            subst heq
            -- the batch is dropped from the front of the flushed queue
            exact (List.drop_sublist _ _).trans (h modelId)
        · exact h modelId
  | tick clock => exact hsweep _
  | onClientConnected clientId => exact h
  | onClientDisconnected clientId => exact hsweep _

theorem accountedRun_fifo {s : BatchOptimizedScheduler ν} {l : Ledger ν} (h : Fifo s l)
    (cs : List (SchedulerCall ν)) : Fifo (accountedRun s l cs).1 (accountedRun s l cs).2 := by
  induction cs generalizing s l with
  | nil => exact h
  | cons c cs ih => exact ih (accountedCall_fifo h c)

end BatchOptimizedScheduler
end Inferential
