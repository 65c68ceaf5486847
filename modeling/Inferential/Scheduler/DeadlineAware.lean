import Inferential.PyStd.Heapq
import Inferential.Scheduler.Accounting

/-!
# DeadlineAware — one heap for all requests

The scheduler that orders all requests by the score they had when they were queued, and its
accounting.
-/

namespace Inferential

open PyStd.Heapq

variable {ν : Type} [Score ν]

structure DeadlineAwareScheduler (ν : Type) [Score ν] where
  config : SchedulingConfig ν
  queue : List (InferenceRequest ν) := []
  counter : Nat := 0
  policy : Option String := none

namespace DeadlineAwareScheduler

/-! ## The operations -/

/-- `__init__` -/
def init (config : SchedulingConfig ν) : DeadlineAwareScheduler ν := { config := config }

def usePolicy (registered : String → Bool) (policyName : String) (s : DeadlineAwareScheduler ν) :
    Except PyError (DeadlineAwareScheduler ν) :=
  if registered policyName then
    .ok { s with policy := some policyName }
  else
    .error (.valueError s!"Unknown policy '{policyName}'")

def computeScore (s : DeadlineAwareScheduler ν) (m : Moment ν) (r : InferenceRequest ν) :
    Except PyError ν :=
  scoreWith s.policy s.config.deadlineAware m r

def resubmit (m : Moment ν) (request : InferenceRequest ν) (s : DeadlineAwareScheduler ν) :
    Submitted (DeadlineAwareScheduler ν) ν :=
  match s.computeScore m request with
  | .error e => { state := s, raised := some e }
  | .ok score =>
      { state := { s with
          counter := s.counter + 1
          queue := heappush InferenceRequest.lt s.queue (request.stamp score s.counter) } }

/-- The queue after an eviction.  `remove` takes out the first request that is equal to the oldest;
that is the oldest itself, since an equal one before it would have arrived as early. -/
def dropOldest (s : DeadlineAwareScheduler ν) : DeadlineAwareScheduler ν :=
  { s with queue := heapify InferenceRequest.lt (s.queue.eraseIdx (oldestIdx s.queue)) }

def submit (m : Moment ν) (request : InferenceRequest ν) (s : DeadlineAwareScheduler ν) :
    Submitted (DeadlineAwareScheduler ν) ν :=
  if s.config.maxQueueSize ≤ s.queue.length then
    match s.config.overflowPolicy with
    -- the eviction happens before the new request is scored
    | .dropOldest =>
        { s.dropOldest.resubmit m request with dropped := s.queue[oldestIdx s.queue]? }
    | .rejectNewest => { state := s, raised := some (.queueFullError request.clientId) }
  else
    s.resubmit m request

def nextBatch (s : DeadlineAwareScheduler ν) :
    List (InferenceRequest ν) × DeadlineAwareScheduler ν :=
  match heappop InferenceRequest.lt s.queue with
  | none => ([], s)
  | some (request, queue) => ([request], { s with queue := queue })

def tick (clock : InferenceRequest ν → Rat) (s : DeadlineAwareScheduler ν) :
    Nat × DeadlineAwareScheduler ν :=
  let kept := s.queue.filter fun r => !isExpired (clock r) s.config.requestTtlMs r
  let expired := s.queue.length - kept.length
  (expired, { s with queue := if expired = 0 then kept else heapify InferenceRequest.lt kept })

/-- The two callbacks about clients are inherited and do nothing. -/
instance : Scheduler (DeadlineAwareScheduler ν) ν where
  submit := submit
  resubmit := resubmit
  nextBatch _ := nextBatch
  tick := tick
  onClientConnected _ s := s
  onClientDisconnected _ s := s
  queueLen s := s.queue.length

/-! ## Accounting -/

theorem resubmit_requeues (m : Moment ν) (r : InferenceRequest ν) (s : DeadlineAwareScheduler ν) :
    (s.resubmit m r).state.config = s.config ∧ Requeues queue r s (s.resubmit m r) := by
  unfold resubmit
  cases hscore : s.computeScore m r with
  -- a score that raises leaves the queue as it was
  | error e => exact ⟨rfl, rfl, by simp, fun _ => rfl⟩
  | ok score =>
      refine ⟨rfl, rfl, fun _ => ?_, by simp⟩
      exact ⟨r.stamp score s.counter, InferenceRequest.unstamped_stamp r score s.counter,
        heappush_perm _ _ _⟩

theorem nextBatch_cases (s : DeadlineAwareScheduler ν) :
    (s.queue = [] ∧ s.nextBatch = ([], s)) ∨
    ∃ request queue, heappop InferenceRequest.lt s.queue = some (request, queue) ∧
      s.nextBatch = ([request], { s with queue := queue }) := by
  unfold nextBatch
  cases hpop : heappop InferenceRequest.lt s.queue with
  | none => exact Or.inl ⟨heappop_eq_none.mp hpop, rfl⟩
  | some popped => exact Or.inr ⟨popped.1, popped.2, rfl, rfl⟩

theorem tick_queue (clock : InferenceRequest ν → Rat) (s : DeadlineAwareScheduler ν) :
    (s.tick clock).2.queue.Perm
      (s.queue.filter fun r => !isExpired (clock r) s.config.requestTtlMs r) := by
  unfold tick
  dsimp only
  split
  · exact List.Perm.refl _
  · exact heapify_perm _ _

theorem tick_count (clock : InferenceRequest ν → Rat) (s : DeadlineAwareScheduler ν) :
    (s.tick clock).1 =
      (s.queue.filter fun r => isExpired (clock r) s.config.requestTtlMs r).length := by
  have hsplit := List.length_eq_length_filter_add (l := s.queue)
    (fun r => isExpired (clock r) s.config.requestTtlMs r)
  simp only [tick]
  omega

theorem queue_ne_nil {s : DeadlineAwareScheduler ν} (h : s.config.maxQueueSize ≤ s.queue.length) :
    s.queue ≠ [] := by
  intro hnil
  have hsize := s.config.maxQueueSize_ge
  simp [hnil] at h
  omega

instance : AccountedScheduler (DeadlineAwareScheduler ν) ν where
  config := config
  stored := queue
  leaves _ _ _ := false
  Inv _ := True
  queueLen_eq _ := rfl
  submit_room m r s hroom := by
    have hnot : ¬ s.config.maxQueueSize ≤ s.queue.length := by
      have : (s.queue.length : Int) < s.config.maxQueueSize := hroom
      omega
    exact if_neg hnot
  submit_reject m r s hfull hpolicy := by
    have hfull' : s.config.maxQueueSize ≤ s.queue.length := Int.ofNat_le.mp hfull
    simp [Scheduler.submit, submit, hfull', hpolicy]
  submit_evict m r s _ hfull hpolicy := by
    have hfull' : s.config.maxQueueSize ≤ s.queue.length := Int.ofNat_le.mp hfull
    have hidx := oldestIdx_lt (queue_ne_nil hfull')
    refine ⟨s.queue[oldestIdx s.queue], s.dropOldest, trivial, rfl, ?_, ?_⟩
    · calc
        s.queue.Perm (s.queue[oldestIdx s.queue] :: s.queue.eraseIdx (oldestIdx s.queue)) :=
          (List.getElem_cons_eraseIdx_perm hidx).symm
        List.Perm _ (s.queue[oldestIdx s.queue] :: s.dropOldest.queue) :=
          (heapify_perm _ _).symm.cons _
    · simp [Scheduler.submit, Scheduler.resubmit, submit, hfull', hpolicy, hidx]
  resubmit_spec m r s _ := ⟨trivial, resubmit_requeues m r s⟩
  nextBatch_spec now s _ := by
    rcases nextBatch_cases s with ⟨-, heq⟩ | ⟨request, queue, hpop, heq⟩
    · simp [Scheduler.nextBatch, heq]
    · simpa [Scheduler.nextBatch, heq] using heappop_perm hpop
  tick_spec clock s _ := ⟨trivial, rfl, tick_queue clock s, tick_count clock s⟩
  connected_spec _ s _ := ⟨trivial, rfl, List.Perm.refl _⟩
  disconnected_spec _ s _ := ⟨trivial, rfl, by simp [Scheduler.onClientDisconnected]⟩

/-- Only an empty queue gives an empty batch. -/
theorem nextBatch_eq_nil (s : DeadlineAwareScheduler ν) : s.nextBatch.1 = [] ↔ s.queue = [] := by
  rcases nextBatch_cases s with ⟨hnil, heq⟩ | ⟨request, queue, hpop, heq⟩
  · simp [heq, hnil]
  · have hne : s.queue ≠ [] := by
      intro hnil
      simp [heappop_eq_none.mpr hnil] at hpop
    simp [heq, hne]

end DeadlineAwareScheduler
end Inferential
