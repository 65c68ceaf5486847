import Inferential.Scheduler.HeapEviction
import Inferential.Scheduler.Queues

/-!
# QueueOrder — the order in which each queue is emptied

The elements of one heap, tier, client or model queue leave it in one order, whatever is asked of
the scheduler and whatever else comes and goes.
-/

namespace Inferential

open PyStd PyStd.Heapq Machine

variable {ν : Type} [Score ν]

namespace AnyScheduler

/-- A call of any scheduler. -/
inductive Turn (ν : Type)
  | later (c : LaterCall ν)
  | nextBatchForTier (tier : Nat)

/-- Any other scheduler has no such method. -/
def nextBatchForTier (tier : Nat) : AnyScheduler ν → List (InferenceRequest ν) × AnyScheduler ν
  | .tieredDeadline s => (s.nextBatchForTier tier).map id .tieredDeadline
  | s => ([], s)

/-- A call, with the requests that it returns. -/
def turn (s : AnyScheduler ν) : Turn ν → List (InferenceRequest ν) × AnyScheduler ν
  | .later c => s.serve c
  | .nextBatchForTier tier => s.nextBatchForTier tier

/-- The request that the call is to queue. -/
def Turn.enqueued : Turn ν → List (Moment ν × InferenceRequest ν)
  | .later (.call (.submit m r)) => [(m, r)]
  | .later (.call (.resubmit m r)) => [(m, r)]
  | _ => []

/-! ## Every turn -/

theorem Acts.own {new : InferenceRequest ν → Prop} {s s' : AnyScheduler ν}
    {out : List (InferenceRequest ν)} (h : Acts new s s' out) (hown : s.Own) : s'.Own := by
  intro key x hx
  rw [h.queueKey]
  rcases (h.works key).mem (List.mem_append_right _ hx) with hold | ⟨-, hnew⟩
  · exact hown key x hold
  · exact hnew

/-- A turn may evict a request, and then acts once. -/
theorem turn_acts_from (c : Turn ν) {s : AnyScheduler ν} (hinv : s.Inv) (hown : s.Own) :
    ∃ s₁ new, (s₁ = s ∨ s₁ = s.dropOldest.2) ∧ Acts (fun _ => False) s s₁ [] ∧
      Acts new s₁ (s.turn c).2 (s.turn c).1 ∧
      ∀ x, new x → ∃ e ∈ c.enqueued, s₁.Enqueues e.1 e.2 x := by
  have hself : Acts (fun _ => False) s s [] := .refl _ _ fun _ _ => id
  -- most calls put nothing in
  have hgives : Acts (fun _ => False) s (s.turn c).2 (s.turn c).1 → _ := fun h =>
    (⟨s, fun _ => False, .inl rfl, hself, h, fun _ hx => absurd hx id⟩ : ∃ s₁ new,
      (s₁ = s ∨ s₁ = s.dropOldest.2) ∧ Acts (fun _ => False) s s₁ [] ∧
      Acts new s₁ (s.turn c).2 (s.turn c).1 ∧
      ∀ x, new x → ∃ e ∈ c.enqueued, s₁.Enqueues e.1 e.2 x)
  cases c with
  | nextBatchForTier tier =>
      apply hgives
      cases s with
      | tieredDeadline s => exact (tieredDeadline_nextBatchForTier tier hown).acts
      | _ => exact hself
  | later c =>
      cases c with
      | nextBatchForModel modelId => exact hgives (nextBatchForModel_gives modelId hown).acts
      | usePolicy registered policyName =>
          apply hgives
          simp only [turn, serve]
          cases heq : s.usePolicy registered policyName with
          | ok s' => exact usePolicy_acts heq
          | error e => exact hself
      | call c =>
          cases c with
          | nextBatch now => exact hgives (nextBatch_gives now hown).acts
          | tick clock => exact hgives (tick_sweeps clock s).acts
          | onClientConnected clientId => exact hgives (connected_acts clientId s)
          | onClientDisconnected clientId =>
              apply hgives
              rcases disconnected_sweeps clientId hown with ⟨t, -, hsame⟩ | ⟨-, hsweeps⟩
              · simp only [turn, serve, accountedCall, hsame]
                exact hself
              · exact hsweeps.acts
          | resubmit m r =>
              exact ⟨s, _, .inl rfl, hself, resubmit_acts m r hown,
                fun x hx => ⟨(m, r), List.mem_singleton_self _, hx.2⟩⟩
          | submit m r =>
              simp only [turn, serve, accountedCall]
              rcases submit_cases m r s with ⟨-, ho⟩ | ⟨-, -, ho⟩ | ⟨hfull, -, ho⟩
              · rw [ho]
                exact ⟨s, _, .inl rfl, hself, resubmit_acts m r hown,
                  fun x hx => ⟨(m, r), List.mem_singleton_self _, hx.2⟩⟩
              · rw [ho]
                exact ⟨s, _, .inl rfl, hself, hself, fun _ hx => absurd hx id⟩
              · have hdrop := dropOldest_acts hown (hfull.stored_ne_nil hinv)
                rw [ho]
                exact ⟨s.dropOldest.2, _, .inr rfl, hdrop, resubmit_acts m r (hdrop.own hown),
                  fun x hx => ⟨(m, r), List.mem_singleton_self _, hx.2⟩⟩

theorem turn_acts (c : Turn ν) {s : AnyScheduler ν} (hinv : s.Inv) (hown : s.Own) :
    ∃ s₁ new, Acts (fun _ => False) s s₁ [] ∧ Acts new s₁ (s.turn c).2 (s.turn c).1 ∧
      ∀ x, new x → ∃ e ∈ c.enqueued, s₁.Enqueues e.1 e.2 x := by
  rcases turn_acts_from c hinv hown with ⟨s₁, new, -, h⟩
  exact ⟨s₁, new, h⟩

/-! ## Every reachable scheduler -/

/-- What the calls act on step by step holds of every reachable scheduler. -/
theorem Reachable.of_acts {config : SchedulingConfig ν} {P : AnyScheduler ν → Prop}
    (hown : ∀ s, P s → s.Own) (hcreate : ∀ s, createScheduler config = .ok s → P s)
    (hacts : ∀ new s s' out, Acts new s s' out → P s → P s') {s : AnyScheduler ν}
    (h : Reachable config s) : P s := by
  have hturn : ∀ (c : Turn ν) (s : AnyScheduler ν), s.Inv → P s → P (s.turn c).2 := by
    intro c s hinv hs
    rcases turn_acts c hinv (hown s hs) with ⟨s₁, new, hdrop, hact, -⟩
    exact hacts _ _ _ _ hact (hacts _ _ _ _ hdrop hs)
  induction h with
  | create h => exact hcreate _ h
  | usePolicy registered policyName _ h ih => exact hacts _ _ _ _ (usePolicy_acts h) ih
  | @call s l c hs ih =>
      rw [accountedCall_state]
      exact hturn (.later (.call c)) s hs.inv ih
  | @nextBatchForModel s modelId hs ih =>
      exact hturn (.later (.nextBatchForModel modelId)) s hs.inv ih
  | @nextBatchForTier s tier hs ih => exact hturn (.nextBatchForTier tier) _ hs.inv ih

/-- Every request is in its queue, and each heap has numbered its requests in turn. -/
structure Kept (s : AnyScheduler ν) : Prop where
  own : s.Own
  numbered : s.discipline = .heap →
    ∀ key, Numbered InferenceRequest.counter s.ticket (s.held key)

theorem Acts.kept {new : InferenceRequest ν → Prop} {s s' : AnyScheduler ν}
    {out : List (InferenceRequest ν)} (h : Acts new s s' out) (hs : s.Kept) : s'.Kept where
  own := h.own hs.own
  numbered hheap key := by
    rw [h.discipline] at hheap
    exact (h.works key).numbered (hs.numbered hheap key) h.ticket
      fun x hx => h.stamped hheap x hx.1

/-- A new scheduler holds nothing. -/
theorem createScheduler_held {config : SchedulingConfig ν} {s : AnyScheduler ν}
    (h : createScheduler config = .ok s) (key : QueueKey) : s.held key = [] := by
  have htiers : ∀ n tier, (List.replicate n ([] : List (InferenceRequest ν))).getD tier [] = [] := by
    intro n tier
    by_cases htier : tier < n <;> simp [htier]
  rcases createScheduler_cases h with
    ⟨-, rfl⟩ | ⟨-, rfl⟩ | ⟨-, rfl⟩ | ⟨-, rfl⟩ | ⟨-, rfl⟩ | ⟨-, rfl⟩ <;> cases key <;>
    first | rfl | exact htiers _ _

theorem createScheduler_kept {config : SchedulingConfig ν} {s : AnyScheduler ν}
    (h : createScheduler config = .ok s) : s.Kept where
  own key x hx := by
    rw [createScheduler_held h key] at hx
    cases hx
  numbered _ key := by
    rw [createScheduler_held h key]
    exact ⟨by simp, by simp⟩

theorem Reachable.kept {config : SchedulingConfig ν} {s : AnyScheduler ν}
    (h : Reachable config s) : s.Kept :=
  h.of_acts (fun _ hs => hs.own) (fun _ => createScheduler_kept) fun _ _ _ _ hact => hact.kept

/-! ## The order of a queue -/

/-- The heaps are heaps, of scores that are totally ordered. -/
structure Ordered (s : AnyScheduler ν) : Prop extends Kept s where
  total : s.discipline = .heap → TotalScores ν
  heap : s.discipline = .heap → ∀ key, IsHeap InferenceRequest.lt (s.held key)

/-- The requests of `queue` that are not queued again leave in this order, whatever calls follow. -/
def LeavesAs (s : AnyScheduler ν) (queue : List (InferenceRequest ν)) : Prop :=
  ∀ (cs : List (Turn ν)) (l : List (InferenceRequest ν)), l.Sublist (gives turn s cs).1 →
    (∀ x ∈ l, x ∈ queue ∧ ∀ e ∈ cs.flatMap Turn.enqueued, x.objId ≠ e.2.objId) → l.Sublist queue

theorem Enqueues.objId {s : AnyScheduler ν} {m : Moment ν} {r x : InferenceRequest ν}
    (h : s.Enqueues m r x) : x.objId = r.objId := by
  unfold Enqueues at h
  split at h
  · rw [h]
  · rcases h with ⟨score, -, rfl⟩
    rfl

theorem turn_inv (c : Turn ν) {s : AnyScheduler ν} (hinv : s.Inv) : (s.turn c).2.Inv := by
  cases c with
  | nextBatchForTier tier =>
      cases s with
      | tieredDeadline s => exact (nextBatchForTier_kept tier hinv).1
      | _ => exact hinv
  | later c =>
      cases c with
      | call c =>
          have hinv' : AccountedScheduler.Inv s := hinv
          exact (accountedCall_kept hinv' {} c).1
      | nextBatchForModel modelId => exact (nextBatchForModel_spec modelId hinv).1
      | usePolicy registered policyName =>
          simp only [turn, serve]
          cases heq : s.usePolicy registered policyName with
          | ok s' => exact (usePolicy_spec heq hinv).1
          | error e => exact hinv

theorem Acts.ordered {new : InferenceRequest ν → Prop} {s s' : AnyScheduler ν}
    {out : List (InferenceRequest ν)} (h : Acts new s s' out) (hs : s.Ordered) : s'.Ordered where
  toKept := h.kept hs.toKept
  total hheap := hs.total (h.discipline ▸ hheap)
  heap hheap key := by
    rw [h.discipline] at hheap
    have := (hs.total hheap).weakOrder
    have hworks := h.works key
    rw [hheap] at hworks
    exact hworks.isHeap (hs.heap hheap key)

/-- Deques do not compare, so that only heaps need scores without a NaN. -/
theorem Reachable.ordered {config : SchedulingConfig ν} {s : AnyScheduler ν}
    (h : Reachable config s) (htotal : s.discipline = .heap → TotalScores ν) : s.Ordered := by
  refine ⟨h.kept, htotal, fun hheap => ?_⟩
  have hordered : s.Ordered := by
    refine h.of_acts (fun _ hs => hs.own)
      (fun s hs => ⟨createScheduler_kept hs, fun _ => htotal hheap, fun _ key => ?_⟩)
      fun _ _ _ _ hact => hact.ordered
    rw [createScheduler_held hs key]
    exact isHeap_nil
  exact hordered.heap hheap

theorem Ordered.separated {s : AnyScheduler ν} (hs : s.Ordered) (hheap : s.discipline = .heap)
    (key : QueueKey) : Separated InferenceRequest.lt (s.held key) := by
  have := (hs.total hheap).lawful
  have := (hs.total hheap).total
  exact (List.pairwise_map.mp (hs.numbered hheap key).distinct).imp fun hne =>
    InferenceRequest.lt_or_lt_of_counter_ne hne

theorem Acts.inOrder {new : InferenceRequest ν → Prop} {s s' : AnyScheduler ν}
    {out : List (InferenceRequest ν)} (h : Acts new s s' out) (hs : s.Ordered) {key : QueueKey}
    {old : InferenceRequest ν → Bool} (hkey : ∀ x, old x = true → s.queueKey x = key)
    (hold : ∀ x, new x → old x = false) : InOrder old (s.queueAt key) out (s'.queueAt key) := by
  have hs' := h.ordered hs
  have hwork := (h.works key).inOrder (fun hheap => (hs.total hheap).weakOrder)
    (fun hheap => hs.heap hheap key) (fun hheap => hs.separated hheap key)
    (fun hheap => hs'.separated (h.discipline.trans hheap) key)
    fun x hx => hold x hx.1
  -- an old request that goes out is one of this queue
  have hout : (out.filter fun x => s.queueKey x = key).filter old = out.filter old := by
    rw [List.filter_filter]
    apply List.filter_congr
    intro x _
    cases hx : old x with
    | false => rfl
    | true => simp [hkey x hx]
  unfold InOrder queueAt at *
  rw [h.discipline]
  simpa only [List.filter_append, hout] using hwork

/-- Turns that do not queue an old request again keep the old ones of a queue in order. -/
theorem turn_inOrder (c : Turn ν) {s : AnyScheduler ν} (hinv : s.Inv) (hs : s.Ordered)
    {key : QueueKey} {old : InferenceRequest ν → Bool}
    (hkey : ∀ x, old x = true → s.queueKey x = key)
    (hold : ∀ x, old x = true → ∀ e ∈ c.enqueued, x.objId ≠ e.2.objId) :
    (s.turn c).2.Ordered ∧ (∀ r, (s.turn c).2.queueKey r = s.queueKey r) ∧
      InOrder old (s.queueAt key) (s.turn c).1 ((s.turn c).2.queueAt key) := by
  rcases turn_acts c hinv hs.own with ⟨s₁, new, hdrop, hact, hnew⟩
  have hs₁ := hdrop.ordered hs
  refine ⟨hact.ordered hs₁, fun r => (hact.queueKey r).trans (hdrop.queueKey r), ?_⟩
  have hout := hdrop.inOrder hs hkey fun x hx => absurd hx id
  have hin := hact.inOrder hs₁ (fun x hx => (hdrop.queueKey x).trans (hkey x hx)) fun x hx => by
    -- what comes in is a request that is queued now
    rcases hnew x hx with ⟨e, he, henqueues⟩
    cases hx' : old x with
    | false => rfl
    | true => exact absurd henqueues.objId (hold x hx' e he)
  exact hout.trans hin

theorem run_inOrder {s : AnyScheduler ν} (hinv : s.Inv) (hs : s.Ordered) {key : QueueKey}
    {old : InferenceRequest ν → Bool} (hkey : ∀ x, old x = true → s.queueKey x = key)
    {cs : List (Turn ν)}
    (hold : ∀ x, old x = true → ∀ e ∈ cs.flatMap Turn.enqueued, x.objId ≠ e.2.objId) :
    InOrder old (s.queueAt key) (gives turn s cs).1 ((gives turn s cs).2.queueAt key) := by
  refine gives_inOrder (fun s' : AnyScheduler ν => s'.queueAt key)
    (fun s' => s'.Inv ∧ s'.Ordered ∧ ∀ r, s'.queueKey r = s.queueKey r)
    (fun c => ∀ e ∈ c.enqueued, e ∈ cs.flatMap Turn.enqueued) ?_ ⟨hinv, hs, fun _ => rfl⟩
    (fun c hc e he => List.mem_flatMap.mpr ⟨c, hc, he⟩)
  rintro s' c ⟨hinv', hs', hsame⟩ hallowed
  rcases turn_inOrder c hinv' hs' (fun x hx => (hsame x).trans (hkey x hx))
    (fun x hx e he => hold x hx e (hallowed e he)) with ⟨hturn, hkeys, horder⟩
  exact ⟨⟨turn_inv c hinv', hturn, fun r => (hkeys r).trans (hsame r)⟩, horder⟩

/-- What stays of a queue leaves in the order of the queue. -/
theorem Ordered.leavesAs {s : AnyScheduler ν} (hs : s.Ordered) (hinv : s.Inv) (key : QueueKey)
    (keep : InferenceRequest ν → Bool) : s.LeavesAs ((s.queueAt key).filter keep) := by
  intro cs l hl hmem
  have hrun : InOrder
      (fun x => keep x &&
        (s.queueKey x = key ∧ ∀ e ∈ cs.flatMap Turn.enqueued, x.objId ≠ e.2.objId))
      (s.queueAt key) (gives turn s cs).1 ((gives turn s cs).2.queueAt key) :=
    run_inOrder hinv hs (by simp +contextual) (by simp +contextual)
  have hsub := hrun.sublist hl fun x hx => by
    rcases hmem x hx with ⟨hqueue, hnew⟩
    rcases List.mem_filter.mp hqueue with ⟨hat, hkeep⟩
    have hkey : s.queueKey x = key := hs.own key x (mem_line.mp hat)
    simpa [hkeep, hkey] using hnew
  refine hsub.trans (List.monotone_filter_right _ fun x hx => ?_)
  simp only [Bool.and_eq_true] at hx
  exact hx.1

end AnyScheduler
end Inferential
