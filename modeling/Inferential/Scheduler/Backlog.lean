import Inferential.Scheduler.Atomicity

/-!
# Backlog — how long a queue gets when requests are retried

`resubmit` queues a request without looking at `max_queue_size`.  Whoever resubmits has taken the
request off the queue before, so the queued requests and those still outstanding are bounded
together.
-/

namespace Inferential

variable {ν : Type} [Score ν]

namespace AnyScheduler

/-! ## Runs that resubmit what they were given -/

/-- The schedulers that a run can come to hold, next to the requests that the run was given and has
neither resubmitted nor finished.  There are never more than `limit` of these. -/
inductive Retried (config : SchedulingConfig ν) (limit : Nat) :
    AnyScheduler ν → List (InferenceRequest ν) → Prop
  | create {s : AnyScheduler ν} (h : createScheduler config = .ok s) : Retried config limit s []
  | usePolicy {s s' : AnyScheduler ν} {out : List (InferenceRequest ν)}
      (registered : String → Bool) (policyName : String) (hs : Retried config limit s out)
      (h : s.usePolicy registered policyName = .ok s') : Retried config limit s' out
  | submit {s : AnyScheduler ν} {out : List (InferenceRequest ν)} (m : Moment ν)
      (r : InferenceRequest ν) (hs : Retried config limit s out) :
      Retried config limit (Scheduler.submit m r s).state out
  -- the caller may have counted the attempt in the request
  | resubmit {s : AnyScheduler ν} {before after : List (InferenceRequest ν)}
      {r : InferenceRequest ν} (m : Moment ν) (r' : InferenceRequest ν)
      (hs : Retried config limit s (before ++ r :: after)) (hsame : r'.objId = r.objId)
      (h : (Scheduler.resubmit m r' s).raised = none) :
      Retried config limit (Scheduler.resubmit m r' s).state (before ++ after)
  | resubmitRaises {s : AnyScheduler ν} {out : List (InferenceRequest ν)}
      {r : InferenceRequest ν} (m : Moment ν) (r' : InferenceRequest ν)
      (hs : Retried config limit s out) (hout : r ∈ out) (hsame : r'.objId = r.objId)
      (h : (Scheduler.resubmit m r' s).raised ≠ none) :
      Retried config limit (Scheduler.resubmit m r' s).state out
  | finish {s : AnyScheduler ν} {before after : List (InferenceRequest ν)}
      {r : InferenceRequest ν} (hs : Retried config limit s (before ++ r :: after)) :
      Retried config limit s (before ++ after)
  | nextBatch {s : AnyScheduler ν} {out : List (InferenceRequest ν)} (now : Rat)
      (hs : Retried config limit s out)
      (hlimit : (out ++ (Scheduler.nextBatch now s).1).length ≤ limit) :
      Retried config limit (Scheduler.nextBatch now s).2 (out ++ (Scheduler.nextBatch now s).1)
  | nextBatchForModel {s : AnyScheduler ν} {out : List (InferenceRequest ν)} (modelId : String)
      (hs : Retried config limit s out)
      (hlimit : (out ++ (s.nextBatchForModel modelId).1).length ≤ limit) :
      Retried config limit (s.nextBatchForModel modelId).2
        (out ++ (s.nextBatchForModel modelId).1)
  | nextBatchForTier {s : TieredDeadlineScheduler ν} {out : List (InferenceRequest ν)} (tier : Nat)
      (hs : Retried config limit (.tieredDeadline s) out)
      (hlimit : (out ++ (s.nextBatchForTier tier).1).length ≤ limit) :
      Retried config limit (.tieredDeadline (s.nextBatchForTier tier).2)
        (out ++ (s.nextBatchForTier tier).1)
  | tick {s : AnyScheduler ν} {out : List (InferenceRequest ν)} (clock : InferenceRequest ν → Rat)
      (hs : Retried config limit s out) : Retried config limit (Scheduler.tick clock s).2 out
  | onClientConnected {s : AnyScheduler ν} {out : List (InferenceRequest ν)} (clientId : String)
      (hs : Retried config limit s out) :
      Retried config limit (Scheduler.onClientConnected clientId s) out
  | onClientDisconnected {s : AnyScheduler ν} {out : List (InferenceRequest ν)} (clientId : String)
      (hs : Retried config limit s out) :
      Retried config limit (Scheduler.onClientDisconnected clientId s) out

/-! ## What one call adds -/

/-- A submission adds one request, and only to a queue that has room or has just lost one. -/
theorem submit_length (m : Moment ν) (r : InferenceRequest ν) {s : AnyScheduler ν} (hinv : s.Inv) :
    (Scheduler.submit m r s).state.stored.length ≤ s.config.maxQueueSize ∨
      (Scheduler.submit m r s).state.stored.length ≤ s.stored.length := by
  have hinv₀ : AccountedScheduler.Inv s := hinv
  have hqueueLen : s.queueLen = (s.stored.length : Int) := AccountedScheduler.queueLen_eq hinv₀
  have hgrows : ∀ s₁ : AnyScheduler ν, s₁.Inv →
      (Scheduler.resubmit m r s₁).state.stored.length ≤ s₁.stored.length + 1 := by
    intro s₁ hinv₁
    have hinv₁' : AccountedScheduler.Inv s₁ := hinv₁
    have hq := (AccountedScheduler.resubmit_spec m r hinv₁').2.2
    by_cases hraised : (Scheduler.resubmit m r s₁).raised = none
    · rcases hq.accepted hraised with ⟨queued, -, hperm⟩
      exact (hperm.length_eq.trans (List.length_cons ..)).le
    · simp [hq.refused hraised]
  rcases submit_cases m r s with ⟨hroom, ho⟩ | ⟨-, -, ho⟩ | ⟨hfull, hpolicy, -⟩
  · -- there was a free place
    left
    have hlt : s.queueLen < (s.config.maxQueueSize : Int) := not_le.mp hroom
    have hone := hgrows s hinv
    rw [ho]
    omega
  · right
    simp [ho]
  · -- one request left before the new one came
    right
    rcases AccountedScheduler.submit_evict m r hinv₀ hfull hpolicy with
      ⟨oldest, s₁, hinv₁, -, hperm, ho⟩
    have hlength : s.stored.length = s₁.stored.length + 1 := hperm.length_eq
    have hone := hgrows s₁ hinv₁
    rw [ho]
    exact hone.trans hlength.ge

omit [Score ν] in
/-- A list that splits up is as long as the parts. -/
theorem length_of_perm_append {l l₁ l₂ : List (InferenceRequest ν)} (h : l.Perm (l₁ ++ l₂)) :
    l.length = l₂.length + l₁.length := by
  rw [h.length_eq, List.length_append, Nat.add_comm]

/-- The queued and the outstanding requests, together. -/
structure Bounded (limit : Nat) (s : AnyScheduler ν) (out : List (InferenceRequest ν)) : Prop where
  outstanding : out.length ≤ limit
  together : s.stored.length + out.length ≤ s.config.maxQueueSize + limit

namespace Bounded

variable {limit : Nat} {s s' : AnyScheduler ν} {out given before after : List (InferenceRequest ν)}

/-- Requests that leave the queue stay within the bound when they become outstanding. -/
theorem leave (h : Bounded limit s out) (hconfig : s'.config = s.config)
    (hlength : s'.stored.length + given.length ≤ s.stored.length)
    (hlimit : (out ++ given).length ≤ limit) : Bounded limit s' (out ++ given) where
  outstanding := hlimit
  together := by
    have htogether := h.together
    simp only [List.length_append, hconfig]
    omega

/-- Requests may leave and go to nobody. -/
theorem lose (h : Bounded limit s out) (hconfig : s'.config = s.config)
    (hlength : s'.stored.length ≤ s.stored.length) : Bounded limit s' out where
  outstanding := h.outstanding
  together := by
    rw [hconfig]
    exact (Nat.add_le_add_right hlength _).trans h.together

theorem submit (h : Bounded limit s out) (hinv : s.Inv) (m : Moment ν) (r : InferenceRequest ν) :
    Bounded limit (Scheduler.submit m r s).state out := by
  have hinv₀ : AccountedScheduler.Inv s := hinv
  have hconfig : (Scheduler.submit m r s).state.config = s.config := (submit_spec m r hinv₀).2.1
  rcases submit_length m r hinv with hroom | hkept
  · refine ⟨h.outstanding, ?_⟩
    rw [hconfig]
    exact Nat.add_le_add hroom h.outstanding
  · exact h.lose hconfig hkept

/-- An outstanding request is queued again. -/
theorem resubmit {r : InferenceRequest ν} (h : Bounded limit s (before ++ r :: after))
    (hinv : s.Inv) (m : Moment ν) (r' : InferenceRequest ν)
    (hraised : (Scheduler.resubmit m r' s).raised = none) :
    Bounded limit (Scheduler.resubmit m r' s).state (before ++ after) := by
  have hinv₀ : AccountedScheduler.Inv s := hinv
  rcases AccountedScheduler.resubmit_spec m r' hinv₀ with ⟨-, hconfig, hq⟩
  have hconfig' : (Scheduler.resubmit m r' s).state.config = s.config := hconfig
  rcases hq.accepted hraised with ⟨queued, -, hperm⟩
  have hstored : (Scheduler.resubmit m r' s).state.stored.length = s.stored.length + 1 :=
    hperm.length_eq
  have houtstanding := h.outstanding
  have htogether := h.together
  simp only [List.length_append, List.length_cons] at houtstanding htogether
  constructor
  · simp only [List.length_append]
    omega
  · simp only [List.length_append, hconfig']
    omega

theorem finish {r : InferenceRequest ν} (h : Bounded limit s (before ++ r :: after)) :
    Bounded limit s (before ++ after) := by
  have hfewer : (before ++ after).length ≤ (before ++ r :: after).length := by simp
  exact ⟨hfewer.trans h.outstanding, (Nat.add_le_add_left hfewer _).trans h.together⟩

end Bounded

namespace Retried

variable {config : SchedulingConfig ν} {limit : Nat} {s : AnyScheduler ν}
  {out : List (InferenceRequest ν)}

theorem reachable (h : Retried config limit s out) : Reachable config s := by
  induction h with
  | create h => exact .create h
  | usePolicy registered policyName _ h ih => exact .usePolicy registered policyName ih h
  | submit m r _ ih => exact .call {} (.submit m r) ih
  | resubmit m r' _ _ _ ih => exact .call {} (.resubmit m r') ih
  | resubmitRaises m r' _ _ _ _ ih => exact .call {} (.resubmit m r') ih
  | finish _ ih => exact ih
  | nextBatch now _ _ ih => exact .call {} (.nextBatch now) ih
  | nextBatchForModel modelId _ _ ih => exact .nextBatchForModel modelId ih
  | nextBatchForTier tier _ _ ih => exact .nextBatchForTier tier ih
  | tick clock _ ih => exact .call {} (.tick clock) ih
  | onClientConnected clientId _ ih => exact .call {} (.onClientConnected clientId) ih
  | onClientDisconnected clientId _ ih => exact .call {} (.onClientDisconnected clientId) ih

/-- Every run stays within the bound. -/
theorem bounded (h : Retried config limit s out) : Bounded limit s out := by
  induction h with
  | create h =>
      rcases createScheduler_fresh h with ⟨-, hstored⟩
      exact ⟨Nat.zero_le _, by simp [hstored]⟩
  | usePolicy registered policyName hs h ih =>
      rcases usePolicy_spec h hs.reachable.inv with ⟨-, hstored, -⟩
      exact ih.lose (usePolicy_config h) (by rw [hstored])
  | submit m r hs ih => exact ih.submit hs.reachable.inv m r
  | resubmit m r' hs _ h ih => exact ih.resubmit hs.reachable.inv m r' h
  | @resubmitRaises s _ _ m r' hs _ _ h ih =>
      have hinv : AccountedScheduler.Inv s := hs.reachable.inv
      rw [(AccountedScheduler.resubmit_spec m r' hinv).2.2.refused h]
      exact ih
  | finish _ ih => exact ih.finish
  | @nextBatch s _ now hs hlimit ih =>
      have hinv : AccountedScheduler.Inv s := hs.reachable.inv
      rcases AccountedScheduler.nextBatch_spec now hinv with ⟨-, hconfig, hperm⟩
      exact ih.leave hconfig (length_of_perm_append hperm).ge hlimit
  | nextBatchForModel modelId hs hlimit ih =>
      rcases nextBatchForModel_spec modelId hs.reachable.inv with ⟨-, hperm, -⟩
      exact ih.leave (nextBatchForModel_config modelId _) (length_of_perm_append hperm).ge hlimit
  | nextBatchForTier tier hs hlimit ih =>
      rcases nextBatchForTier_kept tier hs.reachable.inv with ⟨-, hconfig, hperm⟩
      exact ih.leave hconfig (length_of_perm_append hperm).ge hlimit
  | @tick s _ clock hs ih =>
      have hinv : AccountedScheduler.Inv s := hs.reachable.inv
      rcases AccountedScheduler.tick_spec clock hinv with ⟨-, hconfig, hperm, -⟩
      exact ih.lose hconfig (hperm.length_eq.trans_le (List.length_filter_le ..))
  | @onClientConnected s _ clientId hs ih =>
      have hinv : AccountedScheduler.Inv s := hs.reachable.inv
      rcases AccountedScheduler.connected_spec clientId hinv with ⟨-, hconfig, hperm⟩
      exact ih.lose hconfig hperm.length_eq.le
  | @onClientDisconnected s _ clientId hs ih =>
      have hinv : AccountedScheduler.Inv s := hs.reachable.inv
      rcases AccountedScheduler.disconnected_spec clientId hinv with ⟨-, hconfig, hperm⟩
      exact ih.lose hconfig (hperm.length_eq.trans_le (List.length_filter_le ..))

end Retried

/-- Where only outstanding requests are resubmitted, and at most `limit` are outstanding, the queue
is longer than `max_queue_size` by at most `limit`; and a submission makes it no longer than
`max_queue_size`, or than it was. -/
theorem queueLen_bounded (config : SchedulingConfig ν) (limit : Nat) (s : AnyScheduler ν)
    (out : List (InferenceRequest ν)) (h : Retried config limit s out) :
    s.queueLen ≤ (config.maxQueueSize : Int) + (limit : Int) ∧
      ∀ (m : Moment ν) (r : InferenceRequest ν),
        (Scheduler.submit m r s).state.queueLen ≤ max (config.maxQueueSize : Int) s.queueLen := by
  have hinv : AccountedScheduler.Inv s := h.reachable.inv
  have hqueueLen : s.queueLen = (s.stored.length : Int) := AccountedScheduler.queueLen_eq hinv
  have hconfig := h.reachable.config_eq
  constructor
  · have htogether := h.bounded.together
    rw [hconfig] at htogether
    omega
  · intro m r
    have hinv' : AccountedScheduler.Inv (Scheduler.submit m r s).state := (submit_spec m r hinv).1
    have hqueueLen' : (Scheduler.submit m r s).state.queueLen =
        ((Scheduler.submit m r s).state.stored.length : Int) :=
      AccountedScheduler.queueLen_eq hinv'
    rcases submit_length m r h.reachable.inv with hroom | hkept
    · rw [hconfig] at hroom
      exact le_max_of_le_left (by omega)
    · exact le_max_of_le_right (by omega)

/-! ### A queue of one, and one retry -/

/-- The first request was given out, and another one took its place. -/
def replaced : AnyScheduler Rat :=
  (Scheduler.submit (momentAt 1) (plainRequest "b" "policy" 1 1)
    (Scheduler.nextBatch 1 occupied).2).state

def retried : InferenceRequest Rat := { plainRequest "a" "policy" 0 0 with retryCount := 1 }

theorem replaced_retried :
    Retried oneSlot 1 replaced ([] ++ (Scheduler.nextBatch 1 occupied).1) := by
  have hs : Retried oneSlot 1 (.deadlineAware (.init oneSlot)) [] := .create rfl
  have hfirst : Retried oneSlot 1 occupied [] := .submit _ _ hs
  have hout : Retried oneSlot 1 (Scheduler.nextBatch 1 occupied).2
      ([] ++ (Scheduler.nextBatch 1 occupied).1) := .nextBatch 1 hfirst (by decide +kernel)
  exact .submit _ _ hout

/-- With the retry there are two requests for the one place. -/
theorem queueLen_bounded_reached :
    (let s := (Scheduler.resubmit (momentAt 2) retried replaced).state;
      s.queueLen = 2 ∧ s.queueLen ≤ (1 : Int) + (1 : Int) ∧
        (Scheduler.submit (momentAt 3) retried s).state.queueLen ≤ max (1 : Int) s.queueLen) := by
  have hout : (Scheduler.nextBatch 1 occupied).1.map InferenceRequest.objId = [0] := by
    decide +kernel
  rcases List.map_eq_singleton_iff.mp hout with ⟨first, hfirst, hobj⟩
  have hlent : Retried oneSlot 1 replaced ([] ++ [first]) := by
    have h := replaced_retried
    rwa [hfirst] at h
  have hback := Retried.resubmit (momentAt 2) retried hlent hobj.symm (by decide +kernel)
  rcases queueLen_bounded oneSlot 1 _ _ hback with ⟨hbound, hsubmit⟩
  exact ⟨by decide +kernel, hbound, hsubmit (momentAt 3) retried⟩

end AnyScheduler
end Inferential
