import Inferential.Scheduler.Base
import Mathlib.Algebra.Order.Group.Multiset
import Mathlib.Tactic.Abel

/-!
# Accounting — where the requests of a scheduler go

`AccountedScheduler` says, in terms of the stored requests, what each operation of a scheduler may
do.  A `Ledger` writes down next to a run which requests were enqueued and how requests left;
`Balanced` is the equation between the two, and it holds along every run.
-/

namespace Inferential

variable {ν : Type} [Score ν]

/-! ## The running total -/

/-- `_total` is the number of stored requests. -/
def TotalExact (total : Int) (stored : List (InferenceRequest ν)) : Prop :=
  total = (stored.length : Int)

namespace TotalExact

omit [Score ν]

variable {total : Int} {stored stored' : List (InferenceRequest ν)} {r : InferenceRequest ν}

theorem add (h : TotalExact total stored) (hperm : stored'.Perm (r :: stored)) :
    TotalExact (total + 1) stored' := by
  have hlength := hperm.length_eq
  simp only [List.length_cons] at hlength
  unfold TotalExact at h ⊢
  omega

theorem remove (h : TotalExact total stored) (hperm : stored.Perm (r :: stored')) :
    TotalExact (total - 1) stored' := by
  have hlength := hperm.length_eq
  simp only [List.length_cons] at hlength
  unfold TotalExact at h ⊢
  omega

theorem sweep (h : TotalExact total stored) {keep : InferenceRequest ν → Bool} {removed : Nat}
    (hperm : stored'.Perm (stored.filter keep))
    (hremoved : removed = (stored.filter fun r => !keep r).length) :
    TotalExact (total - (removed : Int)) stored' := by
  have hlength := hperm.length_eq
  have hsplit := List.length_eq_length_filter_add (l := stored) keep
  unfold TotalExact at h ⊢
  omega

/-- A full queue holds a request. -/
theorem ne_nil (h : TotalExact total stored) {maxQueueSize : Nat} (hsize : 1 ≤ maxQueueSize)
    (hfull : (maxQueueSize : Int) ≤ total) : stored ≠ [] := by
  intro hnil
  unfold TotalExact at h
  simp only [hnil, List.length_nil] at h
  omega

end TotalExact

/-! ## The laws -/

/-- What a call of `resubmit` on `s` leaves: the request is stored once more, or the call raised and
nothing changed. -/
structure Requeues {σ : Type} (stored : σ → List (InferenceRequest ν)) (r : InferenceRequest ν)
    (s : σ) (o : Submitted σ ν) : Prop where
  dropped : o.dropped = none
  accepted : o.raised = none → ∃ queued : InferenceRequest ν, queued.unstamped = r.unstamped ∧
    (stored o.state).Perm (queued :: stored s)
  refused : o.raised ≠ none → o.state = s

class AccountedScheduler (σ : Type) (ν : outParam Type) [Score ν] extends Scheduler σ ν where
  config : σ → SchedulingConfig ν
  /-- All requests in the containers of the scheduler. -/
  stored : σ → List (InferenceRequest ν)
  /-- The requests that `on_client_disconnected` takes out. -/
  leaves : σ → String → InferenceRequest ν → Bool
  Inv : σ → Prop
  queueLen_eq {s : σ} : Inv s → queueLen s = ((stored s).length : Int)
  submit_room (m : Moment ν) (r : InferenceRequest ν) {s : σ} :
    queueLen s < ((config s).maxQueueSize : Int) → submit m r s = resubmit m r s
  submit_reject (m : Moment ν) (r : InferenceRequest ν) {s : σ} :
    ((config s).maxQueueSize : Int) ≤ queueLen s → (config s).overflowPolicy = .rejectNewest →
      submit m r s = { state := s, raised := some (.queueFullError r.clientId) }
  submit_evict (m : Moment ν) (r : InferenceRequest ν) {s : σ} : Inv s →
    ((config s).maxQueueSize : Int) ≤ queueLen s → (config s).overflowPolicy = .dropOldest →
      ∃ (oldest : InferenceRequest ν) (s₁ : σ), Inv s₁ ∧ config s₁ = config s ∧
        (stored s).Perm (oldest :: stored s₁) ∧
        submit m r s = { resubmit m r s₁ with dropped := some oldest }
  resubmit_spec (m : Moment ν) (r : InferenceRequest ν) {s : σ} : Inv s →
    Inv (resubmit m r s).state ∧ config (resubmit m r s).state = config s ∧
      Requeues stored r s (resubmit m r s)
  nextBatch_spec (now : Rat) {s : σ} : Inv s →
    Inv (nextBatch now s).2 ∧ config (nextBatch now s).2 = config s ∧
      (stored s).Perm ((nextBatch now s).1 ++ stored (nextBatch now s).2)
  tick_spec (clock : InferenceRequest ν → Rat) {s : σ} : Inv s →
    Inv (tick clock s).2 ∧ config (tick clock s).2 = config s ∧
      (stored (tick clock s).2).Perm
        ((stored s).filter fun r => !isExpired (clock r) (config s).requestTtlMs r) ∧
      (tick clock s).1 =
        ((stored s).filter fun r => isExpired (clock r) (config s).requestTtlMs r).length
  connected_spec (clientId : String) {s : σ} : Inv s →
    Inv (onClientConnected clientId s) ∧ config (onClientConnected clientId s) = config s ∧
      (stored (onClientConnected clientId s)).Perm (stored s)
  disconnected_spec (clientId : String) {s : σ} : Inv s →
    Inv (onClientDisconnected clientId s) ∧ config (onClientDisconnected clientId s) = config s ∧
      (stored (onClientDisconnected clientId s)).Perm
        ((stored s).filter fun r => !leaves s clientId r)

export AccountedScheduler (stored leaves)

/-- `submit` evicts at most one stored request and then does what `resubmit` does. -/
theorem submit_spec {σ : Type} [AccountedScheduler σ ν] (m : Moment ν) (r : InferenceRequest ν)
    {s : σ} (hinv : AccountedScheduler.Inv s) :
    let o := Scheduler.submit m r s
    AccountedScheduler.Inv o.state ∧
      AccountedScheduler.config o.state = AccountedScheduler.config s ∧
      ∃ kept, (stored s).Perm (o.dropped.toList ++ kept) ∧
        (o.raised = none → ∃ queued : InferenceRequest ν, queued.unstamped = r.unstamped ∧
          (stored o.state).Perm (queued :: kept)) ∧
        (o.raised ≠ none → (stored o.state).Perm kept) := by
  intro o
  -- what `resubmit` does on the state that overflow handling leaves
  have hre : ∀ s₁ : σ, AccountedScheduler.Inv s₁ → ∀ dropped,
      let o₁ : Submitted σ ν := { Scheduler.resubmit m r s₁ with dropped := dropped }
      AccountedScheduler.Inv o₁.state ∧
        AccountedScheduler.config o₁.state = AccountedScheduler.config s₁ ∧
        (o₁.raised = none → ∃ queued : InferenceRequest ν, queued.unstamped = r.unstamped ∧
          (stored o₁.state).Perm (queued :: stored s₁)) ∧
        (o₁.raised ≠ none → (stored o₁.state).Perm (stored s₁)) := by
    intro s₁ hinv₁ dropped
    obtain ⟨hinv', hconfig, hq⟩ := AccountedScheduler.resubmit_spec m r hinv₁
    exact ⟨hinv', hconfig, hq.accepted, fun hr => by rw [hq.refused hr]⟩
  by_cases hroom : Scheduler.queueLen s < ((AccountedScheduler.config s).maxQueueSize : Int)
  · have ho : o = Scheduler.resubmit m r s := AccountedScheduler.submit_room m r hroom
    obtain ⟨hinv', hconfig, hq⟩ := AccountedScheduler.resubmit_spec m r hinv
    rw [ho]
    refine ⟨hinv', hconfig, stored s, ?_, hq.accepted, fun hr => by rw [hq.refused hr]⟩
    rw [hq.dropped]
    exact List.Perm.refl _
  · have hfull := not_lt.mp hroom
    cases hpolicy : (AccountedScheduler.config s).overflowPolicy with
    | dropOldest =>
        obtain ⟨oldest, s₁, hinv₁, hconfig₁, hperm, ho⟩ :=
          AccountedScheduler.submit_evict m r hinv hfull hpolicy
        obtain ⟨hinv', hconfig, haccept, hrefuse⟩ := hre s₁ hinv₁ (some oldest)
        have ho' : o = { Scheduler.resubmit m r s₁ with dropped := some oldest } := ho
        rw [ho']
        exact ⟨hinv', hconfig.trans hconfig₁, stored s₁, hperm, haccept, hrefuse⟩
    | rejectNewest =>
        have ho : o = { state := s, raised := some (.queueFullError r.clientId) } :=
          AccountedScheduler.submit_reject m r hfull hpolicy
        rw [ho]
        exact ⟨hinv, rfl, stored s, List.Perm.refl _, by simp, fun _ => List.Perm.refl _⟩

/-! ## The ledger of a run -/

inductive SchedulerCall (ν : Type)
  | submit (m : Moment ν) (request : InferenceRequest ν)
  | resubmit (m : Moment ν) (request : InferenceRequest ν)
  | nextBatch (now : Rat)
  | tick (clock : InferenceRequest ν → Rat)
  | onClientConnected (clientId : String)
  | onClientDisconnected (clientId : String)

/-- Which requests came in and which left, and how. -/
structure Ledger (ν : Type) where
  enqueued : List (InferenceRequest ν) := []
  returned : List (InferenceRequest ν) := []
  evicted : List (InferenceRequest ν) := []
  expired : List (InferenceRequest ν) := []
  removed : List (InferenceRequest ν) := []
  /-- The number of `submit` calls. -/
  submits : Nat := 0

namespace Ledger

/-- A request counts as enqueued when the call does not raise. -/
def enqueue {σ : Type} (l : Ledger ν) (r : InferenceRequest ν) (o : Submitted σ ν) : Ledger ν :=
  { l with
    enqueued := if o.raised.isNone then l.enqueued ++ [r] else l.enqueued
    evicted := l.evicted ++ o.dropped.toList }

end Ledger

section Runs

variable {σ : Type} [AccountedScheduler σ ν]

/-- One call, with its entry in the ledger. -/
def accountedCall (s : σ) (l : Ledger ν) : SchedulerCall ν → σ × Ledger ν
  | .submit m r =>
      let o := Scheduler.submit m r s
      (o.state, { l.enqueue r o with submits := l.submits + 1 })
  | .resubmit m r =>
      let o := Scheduler.resubmit m r s
      (o.state, l.enqueue r o)
  | .nextBatch now =>
      let next := Scheduler.nextBatch now s
      (next.2, { l with returned := l.returned ++ next.1 })
  | .tick clock =>
      let gone := (stored s).filter fun r =>
        isExpired (clock r) (AccountedScheduler.config s).requestTtlMs r
      ((Scheduler.tick clock s).2, { l with expired := l.expired ++ gone })
  | .onClientConnected clientId => (Scheduler.onClientConnected clientId s, l)
  | .onClientDisconnected clientId =>
      -- the callback reports nothing, so the ledger reads the requests off the state before it
      let gone := (stored s).filter fun r => leaves s clientId r
      (Scheduler.onClientDisconnected clientId s, { l with removed := l.removed ++ gone })

/-- A run of calls. -/
def accountedRun (s : σ) (l : Ledger ν) : List (SchedulerCall ν) → σ × Ledger ν
  | [] => (s, l)
  | c :: cs => accountedRun (accountedCall s l c).1 (accountedCall s l c).2 cs

/-- The requests that have left. -/
def Ledger.gone (l : Ledger ν) : Multiset (InferenceRequest ν) :=
  (l.returned : Multiset (InferenceRequest ν)) + l.evicted + l.expired + l.removed

/-- Every enqueued request is stored or has left in exactly one way. -/
structure Balanced (s : σ) (l : Ledger ν) : Prop where
  balance : (l.enqueued : Multiset (InferenceRequest ν)).map InferenceRequest.unstamped =
    ((stored s : Multiset (InferenceRequest ν)) + l.gone).map InferenceRequest.unstamped
  evictions : l.evicted.length ≤ l.submits
  queueLen : Scheduler.queueLen s = ((stored s).length : Int)
  tickCount : ∀ clock : InferenceRequest ν → Rat, (Scheduler.tick clock s).1 =
    ((stored s).filter fun r =>
      isExpired (clock r) (AccountedScheduler.config s).requestTtlMs r).length

theorem balanced_nil {s : σ} (hinv : AccountedScheduler.Inv s) (hstored : stored s = []) :
    Balanced s ({} : Ledger ν) where
  balance := by simp [hstored, Ledger.gone]
  evictions := Nat.le_refl _
  queueLen := AccountedScheduler.queueLen_eq hinv
  tickCount clock := (AccountedScheduler.tick_spec clock hinv).2.2.2

/-- A call that lets `came` in, which is stored as `queued`, and lets `left` out. -/
theorem Balanced.step {s s' : σ} {l l' : Ledger ν} (h : Balanced s l)
    (hinv' : AccountedScheduler.Inv s') (came queued left : List (InferenceRequest ν))
    (hunstamped : came.map InferenceRequest.unstamped = queued.map InferenceRequest.unstamped)
    (hstored : (stored s ++ queued).Perm (stored s' ++ left))
    (henqueued : l'.enqueued = l.enqueued ++ came)
    (hgone : l'.gone = l.gone + left) (hevictions : l'.evicted.length ≤ l'.submits) :
    Balanced s' l' where
  balance := by
    have hmoved : (stored s : Multiset (InferenceRequest ν)) + queued = stored s' + left := by
      simpa using Multiset.coe_eq_coe.mpr hstored
    have hcame : (came : Multiset (InferenceRequest ν)).map InferenceRequest.unstamped =
        (queued : Multiset (InferenceRequest ν)).map InferenceRequest.unstamped := by
      simp [hunstamped]
    -- the entries for what came in and what left are moved across the equation
    calc
      (l'.enqueued : Multiset (InferenceRequest ν)).map InferenceRequest.unstamped
          = (l.enqueued : Multiset (InferenceRequest ν)).map InferenceRequest.unstamped +
              (came : Multiset (InferenceRequest ν)).map InferenceRequest.unstamped := by
        rw [henqueued, ← Multiset.coe_add, Multiset.map_add]
      _ = ((stored s : Multiset (InferenceRequest ν)) + queued + l.gone).map
              InferenceRequest.unstamped := by
        rw [h.balance, hcame, ← Multiset.map_add, add_right_comm]
      _ = ((stored s' : Multiset (InferenceRequest ν)) + l'.gone).map
              InferenceRequest.unstamped := by
        rw [hmoved, hgone, add_assoc, add_comm (left : Multiset (InferenceRequest ν))]
  evictions := hevictions
  queueLen := AccountedScheduler.queueLen_eq hinv'
  tickCount clock := (AccountedScheduler.tick_spec clock hinv').2.2.2

/-- The call takes out the stored requests that satisfy `p`. -/
theorem Balanced.leaveBy {s s' : σ} {l l' : Ledger ν} (h : Balanced s l)
    (hinv' : AccountedScheduler.Inv s') (p : InferenceRequest ν → Bool)
    (hstored : (stored s').Perm ((stored s).filter fun r => !p r))
    (henqueued : l'.enqueued = l.enqueued)
    (hgone : l'.gone = l.gone + ((stored s).filter p : List (InferenceRequest ν)))
    (hevictions : l'.evicted.length ≤ l'.submits) : Balanced s' l' := by
  have hsplit : (stored s).Perm (stored s' ++ (stored s).filter p) := by
    calc
      (stored s).Perm ((stored s).filter p ++ (stored s).filter fun r => !p r) :=
        (List.filter_append_perm p (stored s)).symm
      List.Perm _ ((stored s).filter p ++ stored s') := hstored.symm.append_left _
      List.Perm _ (stored s' ++ (stored s).filter p) := List.perm_append_comm
  refine h.step hinv' [] [] ((stored s).filter p) rfl ?_ ?_ hgone hevictions
  · simpa using hsplit
  · simpa using henqueued

/-- A call of `submit` or `resubmit`, which first drops a request or keeps all. -/
theorem Balanced.enqueue {s : σ} {l l' : Ledger ν} (h : Balanced s l) {r : InferenceRequest ν}
    {o : Submitted σ ν} (hinv' : AccountedScheduler.Inv o.state)
    (kept : List (InferenceRequest ν)) (hdrop : (stored s).Perm (o.dropped.toList ++ kept))
    (haccept : o.raised = none → ∃ queued : InferenceRequest ν, queued.unstamped = r.unstamped ∧
      (stored o.state).Perm (queued :: kept))
    (hrefuse : o.raised ≠ none → (stored o.state).Perm kept)
    (henqueued : l'.enqueued = (l.enqueue r o).enqueued) (hgone' : l'.gone = (l.enqueue r o).gone)
    (hevictions : l'.evicted.length ≤ l'.submits) : Balanced o.state l' := by
  have hgone : l'.gone = l.gone + (o.dropped.toList : Multiset (InferenceRequest ν)) := by
    rw [hgone']
    simp only [Ledger.enqueue, Ledger.gone, ← Multiset.coe_add]
    abel
  -- a call that raises lets nothing in, but its eviction stands
  cases hraised : o.raised with
  | none =>
      obtain ⟨queued, hunstamped, hperm⟩ := haccept hraised
      refine h.step hinv' [r] [queued] o.dropped.toList ?_ ?_ ?_ hgone hevictions
      · simp [hunstamped]
      · calc
          (stored s ++ [queued]).Perm (o.dropped.toList ++ kept ++ [queued]) :=
            hdrop.append_right _
          List.Perm _ ([queued] ++ (o.dropped.toList ++ kept)) := List.perm_append_comm
          List.Perm _ ([queued] ++ (kept ++ o.dropped.toList)) :=
            List.perm_append_comm.append_left _
          List.Perm _ (stored o.state ++ o.dropped.toList) := hperm.symm.append_right _
      · simp [henqueued, Ledger.enqueue, hraised]
  | some e =>
      have hperm := hrefuse (by simp [hraised])
      refine h.step hinv' [] [] o.dropped.toList rfl ?_ ?_ hgone hevictions
      · simpa using hdrop.trans (List.perm_append_comm.trans (hperm.symm.append_right _))
      · simp [henqueued, Ledger.enqueue, hraised]

/-- One call keeps the invariant and the configuration. -/
theorem accountedCall_kept {s : σ} (hinv : AccountedScheduler.Inv s) (l : Ledger ν)
    (c : SchedulerCall ν) :
    AccountedScheduler.Inv (accountedCall s l c).1 ∧
      AccountedScheduler.config (accountedCall s l c).1 = AccountedScheduler.config s := by
  cases c with
  | submit m r =>
      rcases submit_spec m r hinv with ⟨hinv', hconfig, -⟩
      exact ⟨hinv', hconfig⟩
  | resubmit m r =>
      rcases AccountedScheduler.resubmit_spec m r hinv with ⟨hinv', hconfig, -⟩
      exact ⟨hinv', hconfig⟩
  | nextBatch now =>
      rcases AccountedScheduler.nextBatch_spec now hinv with ⟨hinv', hconfig, -⟩
      exact ⟨hinv', hconfig⟩
  | tick clock =>
      rcases AccountedScheduler.tick_spec clock hinv with ⟨hinv', hconfig, -⟩
      exact ⟨hinv', hconfig⟩
  | onClientConnected clientId =>
      rcases AccountedScheduler.connected_spec clientId hinv with ⟨hinv', hconfig, -⟩
      exact ⟨hinv', hconfig⟩
  | onClientDisconnected clientId =>
      rcases AccountedScheduler.disconnected_spec clientId hinv with ⟨hinv', hconfig, -⟩
      exact ⟨hinv', hconfig⟩

/-- One call keeps the invariant, the configuration and the balance. -/
theorem accountedCall_balanced {s : σ} {l : Ledger ν} (hinv : AccountedScheduler.Inv s)
    (h : Balanced s l) (c : SchedulerCall ν) :
    AccountedScheduler.Inv (accountedCall s l c).1 ∧
      AccountedScheduler.config (accountedCall s l c).1 = AccountedScheduler.config s ∧
      Balanced (accountedCall s l c).1 (accountedCall s l c).2 := by
  rcases accountedCall_kept hinv l c with ⟨hinv', hconfig⟩
  refine ⟨hinv', hconfig, ?_⟩
  cases c with
  | submit m r =>
      rcases submit_spec m r hinv with ⟨-, -, kept, hdrop, haccept, hrefuse⟩
      have hevictions : (l.evicted ++ (Scheduler.submit m r s).dropped.toList).length ≤
          l.submits + 1 := by
        have hone := Option.length_toList_le (o := (Scheduler.submit m r s).dropped)
        have hsofar := h.evictions
        simp only [List.length_append]
        omega
      exact h.enqueue hinv' kept hdrop haccept hrefuse rfl rfl hevictions
  | resubmit m r =>
      have hq := (AccountedScheduler.resubmit_spec m r hinv).2.2
      refine h.enqueue hinv' (stored s) ?_ hq.accepted ?_ rfl rfl ?_
      · simp [hq.dropped]
      · intro hraised
        simp [hq.refused hraised]
      · simpa [accountedCall, Ledger.enqueue, hq.dropped] using h.evictions
  | nextBatch now =>
      have hperm := (AccountedScheduler.nextBatch_spec now hinv).2.2
      have hleft := hperm.trans List.perm_append_comm
      refine h.step hinv' [] [] (Scheduler.nextBatch now s).1 rfl ?_ ?_ ?_ h.evictions
      · simpa [accountedCall] using hleft
      · simp [accountedCall]
      · simp only [accountedCall, Ledger.gone, ← Multiset.coe_add]
        abel
  | tick clock =>
      have hperm := (AccountedScheduler.tick_spec clock hinv).2.2.1
      refine h.leaveBy hinv' _ hperm ?_ ?_ h.evictions
      · simp [accountedCall]
      · simp only [accountedCall, Ledger.gone, ← Multiset.coe_add]
        abel
  | onClientConnected clientId =>
      have hperm := (AccountedScheduler.connected_spec clientId hinv).2.2
      refine h.step hinv' [] [] [] rfl ?_ ?_ ?_ h.evictions
      · simpa [accountedCall] using hperm.symm
      · simp [accountedCall]
      · simp [accountedCall]
  | onClientDisconnected clientId =>
      have hperm := (AccountedScheduler.disconnected_spec clientId hinv).2.2
      refine h.leaveBy hinv' _ hperm ?_ ?_ h.evictions
      · simp [accountedCall]
      · simp only [accountedCall, Ledger.gone, ← Multiset.coe_add]
        abel

/-- Every run keeps the invariant, the configuration and the balance. -/
theorem accountedRun_balanced {s : σ} {l : Ledger ν} (hinv : AccountedScheduler.Inv s)
    (h : Balanced s l) (cs : List (SchedulerCall ν)) :
    AccountedScheduler.Inv (accountedRun s l cs).1 ∧
      AccountedScheduler.config (accountedRun s l cs).1 = AccountedScheduler.config s ∧
      Balanced (accountedRun s l cs).1 (accountedRun s l cs).2 := by
  induction cs generalizing s l with
  | nil => exact ⟨hinv, rfl, h⟩
  | cons c cs ih =>
      obtain ⟨hinv', hconfig, h'⟩ := accountedCall_balanced hinv h c
      obtain ⟨hinv'', hconfig', h''⟩ := ih hinv' h'
      exact ⟨hinv'', hconfig'.trans hconfig, h''⟩

/-- The runs from a state without requests. -/
theorem accountedRun_fresh (s : σ) (hinv : AccountedScheduler.Inv s) (hstored : stored s = [])
    (cs : List (SchedulerCall ν)) :
    AccountedScheduler.Inv (accountedRun s {} cs).1 ∧
      AccountedScheduler.config (accountedRun s {} cs).1 = AccountedScheduler.config s ∧
      Balanced (accountedRun s {} cs).1 (accountedRun s {} cs).2 :=
  accountedRun_balanced hinv (balanced_nil hinv hstored) cs

end Runs
end Inferential
