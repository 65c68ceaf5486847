import Inferential.Scheduler.HeapOrder

/-!
# HeapEviction — what an eviction from a heap does to the others

A full `deadline_aware` or `model_deadline` queue gives up its oldest request.  The others stay, and
leave later in the order in which they would have left without it: all of them when `next_batch`
is asked, those of one model when the models are asked one by one.
-/

namespace Inferential

open PyStd PyStd.Heapq Machine

variable {ν : Type} [Score ν]

namespace AnyScheduler

/-! ## The two schedulers -/

/-- The schedulers that order by the score alone. -/
inductive ByScore : AnyScheduler ν → Prop
  | deadlineAware (s : DeadlineAwareScheduler ν) : ByScore (.deadlineAware s)
  | modelDeadline (s : ModelDeadlineScheduler ν) : ByScore (.modelDeadline s)

instance : ∀ s : AnyScheduler ν, Decidable s.ByScore
  | .deadlineAware s => isTrue (.deadlineAware s)
  | .modelDeadline s => isTrue (.modelDeadline s)
  | .batchOptimized _ => isFalse nofun
  | .priorityTiered _ => isFalse nofun
  | .roundRobin _ => isFalse nofun
  | .tieredDeadline _ => isFalse nofun

def HeapsSound : AnyScheduler ν → Prop
  | .deadlineAware s => s.Sound
  | .modelDeadline s => s.Sound
  | _ => True

/-- The requests in the order of `next_batch`. -/
def order : AnyScheduler ν → List (InferenceRequest ν)
  | .deadlineAware s => ranked InferenceRequest.lt s.queue
  | .modelDeadline s => s.drainOrder
  | _ => []

def counter : AnyScheduler ν → Nat
  | .deadlineAware s => s.counter
  | .modelDeadline s => s.counter
  | _ => 0

/-- The request is in the heap that the requests of the model go into. -/
def shares (s : AnyScheduler ν) (modelId : String) (r : InferenceRequest ν) : Bool :=
  !s.isModelAware || r.modelId = modelId

theorem order_perm {s : AnyScheduler ν} (hs : s.ByScore) : s.order.Perm s.stored := by
  cases hs with
  | deadlineAware s => exact ranked_perm _ _
  | modelDeadline s => exact s.drainOrder_perm

/-- What a call leaves of the two schedulers. -/
structure Evolves (s s' : AnyScheduler ν) : Prop where
  byScore : s'.ByScore
  sound : s'.HeapsSound
  aware : s'.isModelAware = s.isModelAware
  counter : s.counter ≤ s'.counter

theorem Evolves.refl {s : AnyScheduler ν} (hs : s.ByScore) (h : s.HeapsSound) : Evolves s s :=
  ⟨hs, h, rfl, Nat.le_refl _⟩

theorem Evolves.trans {s s' s'' : AnyScheduler ν} (h : Evolves s s') (h' : Evolves s' s'') :
    Evolves s s'' :=
  ⟨h'.byScore, h'.sound, h'.aware.trans h.aware, h.counter.trans h'.counter⟩

theorem HeapsSound.fresh {s : AnyScheduler ν} (h : s.HeapsSound) (hs : s.ByScore) :
    ∀ r ∈ s.stored, r.counter < s.counter := by
  cases hs with
  | deadlineAware s =>
      have hsound : s.Sound := h
      exact hsound.fresh
  | modelDeadline s =>
      have hsound : s.Sound := h
      exact hsound.fresh

theorem HeapsSound.distinct {s : AnyScheduler ν} (h : s.HeapsSound) (hs : s.ByScore) :
    (s.stored.map InferenceRequest.counter).Nodup := by
  cases hs with
  | deadlineAware s =>
      have hsound : s.Sound := h
      exact hsound.distinct
  | modelDeadline s =>
      have hsound : s.Sound := h
      exact hsound.distinct

theorem inv_of_heapsSound {s : AnyScheduler ν} (hs : s.ByScore) (h : s.HeapsSound) : s.Inv := by
  cases hs with
  | deadlineAware s => exact trivial
  | modelDeadline s =>
      have hsound : s.Sound := h
      exact hsound.toInv

variable [LawfulBEq ν] [IsStrictTotalOrder ν (· < ·)]

/-! ## What the calls do to the order -/

theorem dropOldest_order {s : AnyScheduler ν} (hs : s.ByScore) (h : s.HeapsSound)
    (hne : s.stored ≠ []) :
    Evolves s s.dropOldest.2 ∧ s.dropOldest.2.order.Sublist s.order ∧
      ∃ oldest, s.dropOldest.1 = some oldest ∧
        (∀ r ∈ s.stored, oldest.receivedAt ≤ r.receivedAt) ∧
        s.stored.Perm (oldest :: s.dropOldest.2.stored) := by
  cases hs with
  | deadlineAware s =>
      have hsound : s.Sound := h
      have hne' : s.queue ≠ [] := hne
      rcases DeadlineAwareScheduler.dropOldest_perm hne' with ⟨oldest, hsome, hmin, hperm⟩
      have hgone : s.queue.Perm ([oldest] ++ s.dropOldest.queue) := hperm
      exact ⟨⟨.deadlineAware _, hsound.dropOldest hne', rfl, Nat.le_refl _⟩,
        ranked_sublist hsound.separated hgone, oldest, hsome, hmin, hperm⟩
  | modelDeadline s =>
      have hsound : s.Sound := h
      rcases hsound.dropOldest hne with ⟨hsound', hcounter, hsub, hevict⟩
      exact ⟨⟨.modelDeadline _, hsound', rfl, hcounter.ge⟩, hsub, hevict⟩

theorem resubmit_order (m : Moment ν) (r : InferenceRequest ν) {s : AnyScheduler ν}
    (hs : s.ByScore) (h : s.HeapsSound) :
    Evolves s (Scheduler.resubmit m r s).state ∧
      ∀ old : InferenceRequest ν → Bool, (∀ x, old x = true → x.counter < s.counter) →
        (Scheduler.resubmit m r s).state.order.filter old = s.order.filter old := by
  cases hs with
  | deadlineAware s =>
      have hsound : s.Sound := h
      rcases hsound.resubmit m r with ⟨hsound', hcounter, hfilter⟩
      exact ⟨⟨.deadlineAware _, hsound', rfl, hcounter⟩, hfilter⟩
  | modelDeadline s =>
      have hsound : s.Sound := h
      rcases hsound.resubmit m r with ⟨hsound', hcounter, hfilter⟩
      exact ⟨⟨.modelDeadline _, hsound', rfl, hcounter⟩, hfilter⟩

/-- A submission takes at most the oldest request out, and adds the new one. -/
theorem submit_order (m : Moment ν) (r : InferenceRequest ν) {s : AnyScheduler ν}
    (hs : s.ByScore) (h : s.HeapsSound) :
    Evolves s (Scheduler.submit m r s).state ∧
      ∀ old : InferenceRequest ν → Bool, (∀ x, old x = true → x.counter < s.counter) →
        InOrder old s.order [] (Scheduler.submit m r s).state.order := by
  rcases submit_cases m r s with ⟨-, ho⟩ | ⟨-, -, ho⟩ | ⟨hfull, -, ho⟩
  · rcases resubmit_order m r hs h with ⟨hpush, hfilter⟩
    rw [ho]
    exact ⟨hpush, fun old hold => .of_filter_eq (hfilter old hold)⟩
  · rw [ho]
    exact ⟨.refl hs h, fun old _ => .of_filter_eq rfl⟩
  · have hne := hfull.stored_ne_nil (inv_of_heapsSound hs h)
    rcases dropOldest_order hs h hne with ⟨hdrop, hsub, -⟩
    rcases resubmit_order m r hdrop.byScore hdrop.sound with ⟨hpush, hfilter⟩
    rw [ho]
    refine ⟨hdrop.trans hpush, fun old hold => ?_⟩
    have hout : InOrder old s.order [] s.dropOldest.2.order := .of_sublist hsub
    have hin : InOrder old s.dropOldest.2.order [] _ :=
      .of_filter_eq (hfilter old fun x hx => (hold x hx).trans_le hdrop.counter)
    exact hout.trans hin

theorem nextBatch_order (now : Rat) {s : AnyScheduler ν} (hs : s.ByScore) (h : s.HeapsSound) :
    Evolves s (Scheduler.nextBatch now s).2 ∧
      (s.order = [] ∧ Scheduler.nextBatch now s = ([], s) ∨
        ∃ x, (Scheduler.nextBatch now s).1 = [x] ∧
          s.order = x :: (Scheduler.nextBatch now s).2.order) := by
  cases hs with
  | deadlineAware s =>
      have hsound : s.Sound := h
      rcases hsound.nextBatch with ⟨hsound', hcounter, ⟨hnil, heq⟩ | hhead⟩
      · exact ⟨⟨.deadlineAware _, hsound', rfl, hcounter.ge⟩,
          .inl ⟨hnil, congrArg (Prod.map id AnyScheduler.deadlineAware) heq⟩⟩
      · exact ⟨⟨.deadlineAware _, hsound', rfl, hcounter.ge⟩, .inr hhead⟩
  | modelDeadline s =>
      have hsound : s.Sound := h
      have hsound' := (ModelDeadlineScheduler.nextBatch_refines hsound).1
      have hcounter : s.nextBatch.2.counter = s.counter := by
        rcases ModelDeadlineScheduler.nextBatch_spec s with ⟨-, heq⟩ | ⟨modelId, -, heq⟩
        · simp [heq]
        · simp [heq, (hsound.nextBatchForModel modelId).2.1]
      rcases ModelDeadlineScheduler.nextBatch_drainOrder hsound with ⟨hnil, heq⟩ | hhead
      · exact ⟨⟨.modelDeadline _, hsound', rfl, hcounter.ge⟩,
          .inl ⟨hnil, congrArg (Prod.map id AnyScheduler.modelDeadline) heq⟩⟩
      · exact ⟨⟨.modelDeadline _, hsound', rfl, hcounter.ge⟩, .inr hhead⟩

theorem tick_order (clock : InferenceRequest ν → Rat) {s : AnyScheduler ν} (hs : s.ByScore)
    (h : s.HeapsSound) :
    Evolves s (Scheduler.tick clock s).2 ∧ (Scheduler.tick clock s).2.order.Sublist s.order := by
  cases hs with
  | deadlineAware s =>
      have hsound : s.Sound := h
      rcases hsound.tick clock with ⟨hsound', hcounter, hsub⟩
      exact ⟨⟨.deadlineAware _, hsound', rfl, hcounter.ge⟩, hsub⟩
  | modelDeadline s =>
      have hsound : s.Sound := h
      rcases hsound.sweep fun r => !isExpired (clock r) s.config.requestTtlMs r with
        ⟨hsound', hcounter, hsub⟩
      exact ⟨⟨.modelDeadline _, hsound', rfl, hcounter.ge⟩, hsub⟩

theorem disconnected_order (clientId : String) {s : AnyScheduler ν} (hs : s.ByScore)
    (h : s.HeapsSound) :
    Evolves s (Scheduler.onClientDisconnected clientId s) ∧
      (Scheduler.onClientDisconnected clientId s).order.Sublist s.order := by
  cases hs with
  | deadlineAware s => exact ⟨.refl (.deadlineAware s) h, List.Sublist.refl _⟩
  | modelDeadline s =>
      have hsound : s.Sound := h
      rcases hsound.sweep fun r => r.clientId ≠ clientId with ⟨hsound', hcounter, hsub⟩
      exact ⟨⟨.modelDeadline _, hsound', rfl, hcounter.ge⟩, hsub⟩

/-! ## Every call -/

/-- A call after the eviction, which may ask for the requests of one model. -/
inductive LaterCall (ν : Type)
  | call (c : SchedulerCall ν)
  | nextBatchForModel (modelId : String)
  | usePolicy (registered : String → Bool) (policyName : String)

/-- A call, with the requests that it returns. -/
def serve (s : AnyScheduler ν) : LaterCall ν → List (InferenceRequest ν) × AnyScheduler ν
  | .call c => ((accountedCall s {} c).2.returned, (accountedCall s {} c).1)
  | .nextBatchForModel modelId => s.nextBatchForModel modelId
  | .usePolicy registered policyName =>
      match s.usePolicy registered policyName with
      | .ok s' => ([], s')
      | .error _ => ([], s)

/-- The next batch of a model, where there is one for each model. -/
def nextFor (modelId : String) (s : AnyScheduler ν) : List (InferenceRequest ν) × AnyScheduler ν :=
  if s.isModelAware then s.nextBatchForModel modelId else Scheduler.nextBatch 0 s

theorem call_order (c : SchedulerCall ν) {s : AnyScheduler ν} (hs : s.ByScore) (h : s.HeapsSound) :
    Evolves s (s.serve (.call c)).2 ∧
      ∀ old : InferenceRequest ν → Bool, (∀ x, old x = true → x.counter < s.counter) →
        InOrder old s.order (s.serve (.call c)).1 (s.serve (.call c)).2.order := by
  cases c with
  | submit m r => exact submit_order m r hs h
  | resubmit m r =>
      rcases resubmit_order m r hs h with ⟨hpush, hfilter⟩
      exact ⟨hpush, fun old hold => .of_filter_eq (hfilter old hold)⟩
  | nextBatch now =>
      rcases nextBatch_order now hs h with ⟨hnext, ⟨-, heq⟩ | ⟨x, hout, horder⟩⟩
      · refine ⟨hnext, fun old _ => .of_sublist ?_⟩
        simp [serve, accountedCall, heq]
      · refine ⟨hnext, fun old _ => .of_sublist ?_⟩
        simp [serve, accountedCall, hout, horder]
  | tick clock =>
      rcases tick_order clock hs h with ⟨htick, hsub⟩
      exact ⟨htick, fun old _ => .of_sublist hsub⟩
  | onClientConnected clientId =>
      cases hs with
      | deadlineAware s => exact ⟨.refl (.deadlineAware s) h, fun _ _ => .of_filter_eq rfl⟩
      | modelDeadline s => exact ⟨.refl (.modelDeadline s) h, fun _ _ => .of_filter_eq rfl⟩
  | onClientDisconnected clientId =>
      rcases disconnected_order clientId hs h with ⟨hleft, hsub⟩
      exact ⟨hleft, fun old _ => .of_sublist hsub⟩

theorem nextBatchForModel_order (modelId : String) {s : AnyScheduler ν} (hs : s.ByScore)
    (h : s.HeapsSound) :
    Evolves s (s.nextBatchForModel modelId).2 ∧
      ∀ (old : InferenceRequest ν → Bool) (modelId' : String),
        (∀ x, old x = true → s.shares modelId' x = true) →
          InOrder old s.order (s.nextBatchForModel modelId).1
            (s.nextBatchForModel modelId).2.order := by
  cases hs with
  | deadlineAware s =>
      exact ⟨.refl (.deadlineAware s) h, fun _ _ _ => .of_filter_eq rfl⟩
  | modelDeadline s =>
      have hsound : s.Sound := h
      rcases hsound.nextBatchForModel modelId with ⟨hsound', hcounter, -⟩
      refine ⟨⟨.modelDeadline _, hsound', rfl, hcounter.ge⟩, fun old modelId' hold => ?_⟩
      refine hsound.nextBatchForModel_inOrder modelId modelId' fun x hx => ?_
      simpa [shares, isModelAware] using hold x hx

omit [LawfulBEq ν] [IsStrictTotalOrder ν (· < ·)] in
/-- A policy changes the scores to come only. -/
theorem usePolicy_order {registered : String → Bool} {policyName : String} {s s' : AnyScheduler ν}
    (hs : s.ByScore) (h : s.HeapsSound) (heq : s.usePolicy registered policyName = .ok s') :
    Evolves s s' ∧ s'.order = s.order := by
  rcases usePolicy_cases heq with ⟨t, rfl, rfl⟩ | ⟨t, rfl, rfl⟩ | ⟨t, rfl, rfl⟩ | rfl
  · have hsound : t.Sound := h
    exact ⟨⟨.deadlineAware _, ⟨hsound.heap, hsound.fresh, hsound.distinct⟩, rfl, Nat.le_refl _⟩,
      rfl⟩
  · have hsound : t.Sound := h
    exact ⟨⟨.modelDeadline _, ⟨⟨hsound.total_eq, hsound.nonempty, hsound.own, hsound.fresh,
      hsound.distinct⟩, hsound.heap⟩, rfl, Nat.le_refl _⟩, rfl⟩
  · cases hs
  · exact ⟨.refl hs h, rfl⟩

/-- Whatever calls follow, the old requests of `s` leave in the order of `next_batch`, unless single
models are asked; those of one heap always do. -/
theorem serve_inOrder {s : AnyScheduler ν} (hs : s.ByScore) (h : s.HeapsSound)
    {old : InferenceRequest ν → Bool} (hold : ∀ x, old x = true → x.counter < s.counter)
    {cs : List (LaterCall ν)}
    (hlane : ∀ modelId, .nextBatchForModel modelId ∈ cs →
      ∃ modelId', ∀ x, old x = true → s.shares modelId' x = true) :
    InOrder old s.order (gives serve s cs).1 (gives serve s cs).2.order := by
  -- the counter only grows and the scheduler stays one of its kind
  refine gives_inOrder order (Evolves s)
    (fun c => ∀ modelId, c = .nextBatchForModel modelId →
      ∃ modelId', ∀ x, old x = true → s.shares modelId' x = true) ?_ (.refl hs h)
    (fun c hc modelId heq => hlane modelId (heq ▸ hc))
  intro s' c hs' hallowed
  have hold' : ∀ x, old x = true → x.counter < s'.counter :=
    fun x hx => (hold x hx).trans_le hs'.counter
  cases c with
  | call c =>
      rcases call_order c hs'.byScore hs'.sound with ⟨hcall, horder⟩
      exact ⟨hs'.trans hcall, horder old hold'⟩
  | nextBatchForModel modelId =>
      rcases nextBatchForModel_order modelId hs'.byScore hs'.sound with ⟨hcall, horder⟩
      rcases hallowed modelId rfl with ⟨modelId', hshares⟩
      refine ⟨hs'.trans hcall, horder old modelId' fun x hx => ?_⟩
      simpa [shares, hs'.aware] using hshares x hx
  | usePolicy registered policyName =>
      cases heq : s'.usePolicy registered policyName with
      | ok s'' =>
          rcases usePolicy_order hs'.byScore hs'.sound heq with ⟨hcall, horder⟩
          simp only [serve, heq]
          exact ⟨hs'.trans hcall, .of_filter_eq (congrArg (List.filter old) horder)⟩
      | error e =>
          simp only [serve, heq]
          exact ⟨hs', .of_filter_eq rfl⟩

/-! ## Emptying -/

/-- All that `next_batch` returns, asked as often as there are requests. -/
def emptied (s : AnyScheduler ν) : List (InferenceRequest ν) :=
  unload (Scheduler.nextBatch 0) s.stored.length s

/-- The same for one model. -/
def emptiedFor (modelId : String) (s : AnyScheduler ν) : List (InferenceRequest ν) :=
  unload (nextFor modelId) s.stored.length s

theorem emptied_eq {s : AnyScheduler ν} (hs : s.ByScore) (h : s.HeapsSound) :
    s.emptied = s.order := by
  have htake := unload_eq_take order (Evolves s)
    (fun s' hs' => by
      rcases nextBatch_order 0 hs'.byScore hs'.sound with ⟨hnext, hhead⟩
      exact ⟨hs'.trans hnext, hhead⟩)
    (.refl hs h) s.stored.length
  rw [emptied, htake, ← (order_perm hs).length_eq, List.take_length]

/-- The heap of a model, in its order. -/
def lane (modelId : String) (s : AnyScheduler ν) : List (InferenceRequest ν) :=
  s.order.filter (s.shares modelId)

omit [LawfulBEq ν] [IsStrictTotalOrder ν (· < ·)] in
theorem lane_deadlineAware (modelId : String) (s : DeadlineAwareScheduler ν) :
    (AnyScheduler.deadlineAware s).lane modelId = ranked InferenceRequest.lt s.queue := by
  simp [lane, shares, isModelAware, order]

omit [LawfulBEq ν] [IsStrictTotalOrder ν (· < ·)] in
theorem lane_modelDeadline (modelId : String) {s : ModelDeadlineScheduler ν} (h : s.Sound) :
    (AnyScheduler.modelDeadline s).lane modelId =
      ranked InferenceRequest.lt (s.heapOf modelId) := by
  have hshares : (AnyScheduler.modelDeadline s).shares modelId =
      fun x => decide (x.modelId = modelId) := by
    funext x
    simp [shares, isModelAware]
  rw [lane, hshares]
  exact ModelDeadlineScheduler.drainOrder_filter h.toInv modelId

theorem nextFor_lane (modelId : String) {s : AnyScheduler ν} (hs : s.ByScore) (h : s.HeapsSound) :
    Evolves s (nextFor modelId s).2 ∧
      (s.lane modelId = [] ∧ nextFor modelId s = ([], s) ∨
        ∃ x, (nextFor modelId s).1 = [x] ∧
          s.lane modelId = x :: (nextFor modelId s).2.lane modelId) := by
  cases hs with
  | deadlineAware s =>
      have hsound : s.Sound := h
      have hfor : nextFor modelId (.deadlineAware s) =
          s.nextBatch.map id .deadlineAware := rfl
      rcases hsound.nextBatch with ⟨hsound', hcounter, hhead⟩
      rw [hfor, lane_deadlineAware]
      refine ⟨⟨.deadlineAware _, hsound', rfl, hcounter.ge⟩, ?_⟩
      rcases hhead with ⟨hnil, heq⟩ | ⟨x, hout, hrank⟩
      · exact .inl ⟨hnil, congrArg (Prod.map id AnyScheduler.deadlineAware) heq⟩
      · refine .inr ⟨x, hout, hrank.trans ?_⟩
        exact congrArg (x :: ·) (lane_deadlineAware modelId _).symm
  | modelDeadline s =>
      have hsound : s.Sound := h
      have hfor : nextFor modelId (.modelDeadline s) =
          (s.nextBatchForModel modelId).map id .modelDeadline := rfl
      rcases hsound.nextBatchForModel modelId with ⟨hsound', hcounter, hhead, -⟩
      rw [hfor, lane_modelDeadline modelId hsound]
      refine ⟨⟨.modelDeadline _, hsound', rfl, hcounter.ge⟩, ?_⟩
      rcases hhead with ⟨hnil, heq⟩ | ⟨x, hout, hrank⟩
      · exact .inl ⟨hnil, congrArg (Prod.map id AnyScheduler.modelDeadline) heq⟩
      · refine .inr ⟨x, hout, hrank.trans ?_⟩
        exact congrArg (x :: ·) (lane_modelDeadline modelId hsound').symm

theorem emptiedFor_eq (modelId : String) {s : AnyScheduler ν} (hs : s.ByScore)
    (h : s.HeapsSound) : s.emptiedFor modelId = s.lane modelId := by
  have htake := unload_eq_take (lane modelId) (Evolves s)
    (fun s' hs' => by
      rcases nextFor_lane modelId hs'.byScore hs'.sound with ⟨hnext, hhead⟩
      exact ⟨hs'.trans hnext, hhead⟩)
    (.refl hs h) s.stored.length
  have hlength : (s.lane modelId).length ≤ s.stored.length := by
    rw [← (order_perm hs).length_eq]
    exact List.length_filter_le _ _
  rw [emptiedFor, htake, List.take_of_length_le hlength]

theorem HeapsSound.separated {s : AnyScheduler ν} (h : s.HeapsSound) (hs : s.ByScore) :
    Separated InferenceRequest.lt s.stored :=
  (List.pairwise_map.mp (h.distinct hs)).imp fun hne =>
    InferenceRequest.lt_or_lt_of_counter_ne hne

/-- A lane is the ranking of its requests. -/
theorem ranked_shared (modelId : String) {s : AnyScheduler ν} (hs : s.ByScore)
    (h : s.HeapsSound) :
    ranked InferenceRequest.lt (s.stored.filter (s.shares modelId)) = s.lane modelId := by
  have hsep := (h.separated hs).sublist (List.filter_sublist (p := s.shares modelId))
  refine ranked_eq_of_perm hsep ((order_perm hs).filter _) ?_
  cases hs with
  | deadlineAware s =>
      rw [lane_deadlineAware]
      exact ranked_pairwise _
  | modelDeadline s =>
      have hsound : s.Sound := h
      rw [lane_modelDeadline modelId hsound]
      exact ranked_pairwise _

/-! ## Reachable schedulers -/

omit [LawfulBEq ν] [IsStrictTotalOrder ν (· < ·)] in
/-- The ledger has no say in what a call does. -/
theorem accountedCall_state (s : AnyScheduler ν) (l : Ledger ν) (c : SchedulerCall ν) :
    (accountedCall s l c).1 = (s.serve (.call c)).2 := by
  cases c <;> rfl

theorem Reachable.heapsSound {config : SchedulingConfig ν} {s : AnyScheduler ν}
    (h : Reachable config s) : s.HeapsSound := by
  induction h with
  | create h =>
      rcases createScheduler_cases h with ⟨-, rfl⟩ | ⟨-, rfl⟩ | ⟨-, rfl⟩ | ⟨-, rfl⟩ | ⟨-, rfl⟩ |
        ⟨-, rfl⟩
      · exact trivial
      · exact DeadlineAwareScheduler.init_sound config
      · exact ModelDeadlineScheduler.init_sound config none
      · exact trivial
      · exact trivial
      · exact trivial
  | usePolicy registered policyName _ heq ih =>
      rcases usePolicy_cases heq with ⟨t, rfl, rfl⟩ | ⟨t, rfl, rfl⟩ | ⟨t, rfl, rfl⟩ | rfl
      · exact (usePolicy_order (.deadlineAware t) ih heq).1.sound
      · exact (usePolicy_order (.modelDeadline t) ih heq).1.sound
      · exact trivial
      · exact ih
  | @call s l c _ ih =>
      rw [accountedCall_state]
      cases s with
      | deadlineAware s => exact (call_order c (.deadlineAware s) ih).1.sound
      | modelDeadline s => exact (call_order c (.modelDeadline s) ih).1.sound
      | tieredDeadline s => cases c <;> exact trivial
      | batchOptimized s => cases c <;> exact trivial
      | priorityTiered s => cases c <;> exact trivial
      | roundRobin s => cases c <;> exact trivial
  | @nextBatchForModel s modelId _ ih =>
      cases s with
      | modelDeadline s => exact (nextBatchForModel_order modelId (.modelDeadline s) ih).1.sound
      | deadlineAware s => exact ih
      | tieredDeadline s => exact trivial
      | batchOptimized s => exact trivial
      | priorityTiered s => exact trivial
      | roundRobin s => exact trivial
  | nextBatchForTier tier _ _ => exact trivial

omit [LawfulBEq ν] [IsStrictTotalOrder ν (· < ·)] in
/-- A run of calls leads from reachable schedulers to reachable ones. -/
theorem Reachable.gives {config : SchedulingConfig ν} {s : AnyScheduler ν}
    (h : Reachable config s) (cs : List (LaterCall ν)) :
    Reachable config (Machine.gives serve s cs).2 := by
  induction cs generalizing s with
  | nil => exact h
  | cons c cs ih =>
      apply ih
      cases c with
      | call c => exact .call {} c h
      | nextBatchForModel modelId => exact .nextBatchForModel modelId h
      | usePolicy registered policyName =>
          cases heq : s.usePolicy registered policyName with
          | ok s' =>
              simp only [serve, heq]
              exact .usePolicy registered policyName h heq
          | error e =>
              simp only [serve, heq]
              exact h

end AnyScheduler

/-! ## The others -/

namespace InferenceRequest

/-- The same request under another number. -/
def renumber (f : Nat → Nat) (r : InferenceRequest ν) : InferenceRequest ν :=
  r.stamp r.score (f r.counter)

/-- Numbers given in the same order make the same order of requests. -/
theorem renumber_lt {f : Nat → Nat} {l : List (InferenceRequest ν)}
    [LawfulBEq ν] [IsStrictTotalOrder ν (· < ·)]
    (hf : StrictMonoOn f {c | ∃ r ∈ l, r.counter = c}) :
    ∀ a ∈ l, ∀ b ∈ l, (a.renumber f).lt (b.renumber f) = a.lt b := by
  intro a ha b hb
  have hcounter : f a.counter < f b.counter ↔ a.counter < b.counter :=
    hf.lt_iff_lt ⟨a, ha, rfl⟩ ⟨b, hb, rfl⟩
  rw [Bool.eq_iff_iff, lt_iff, lt_iff]
  simp [renumber, hcounter]

end InferenceRequest

namespace AnyScheduler

/-- `t` came to hold the requests of `kept` and no others; it may have given them other numbers,
from which `f` leads to theirs. -/
structure Holds (s : AnyScheduler ν) (kept : List (InferenceRequest ν)) (t : AnyScheduler ν)
    (f : Nat → Nat) : Prop where
  reachable : ∃ config, Reachable config t
  byScore : t.ByScore
  aware : t.isModelAware = s.isModelAware
  numbered : StrictMonoOn f {c | ∃ r ∈ t.stored, r.counter = c}
  stored : (t.stored.map (InferenceRequest.renumber f)).Perm kept

/-- The kept requests of `s` leave `s'` in the order they were in, and in the order in which they
leave a scheduler that holds nothing else. -/
structure Undisturbed (s : AnyScheduler ν) (kept : List (InferenceRequest ν))
    (s' : AnyScheduler ν) : Prop where
  /-- Asked by `next_batch`, as they would have left `s`. -/
  batches : ∀ l : List (InferenceRequest ν), l.Sublist s.emptied → (∀ x ∈ l, x ∈ kept) →
    l.Sublist s'.emptied
  later : ∀ cs : List (LaterCall ν), (∀ modelId, .nextBatchForModel modelId ∉ cs) →
    ∀ l : List (InferenceRequest ν), l.Sublist (gives serve s' cs).1 → (∀ x ∈ l, x ∈ kept) →
      l.Sublist s.emptied
  /-- Within a heap, as if there had been no other request. -/
  heaps : ∀ t f, Holds s kept t f → ∀ modelId,
    ((t.emptiedFor modelId).map (InferenceRequest.renumber f)).Sublist (s'.emptiedFor modelId)
  heapsLater : ∀ t f, Holds s kept t f → ∀ modelId (cs : List (LaterCall ν)),
    ∀ l : List (InferenceRequest ν), l.Sublist (gives serve s' cs).1 →
      (∀ x ∈ l, x ∈ kept ∧ s.shares modelId x = true) →
        l.Sublist ((t.emptiedFor modelId).map (InferenceRequest.renumber f))

variable [LawfulBEq ν] [IsStrictTotalOrder ν (· < ·)]

/-- A scheduler that holds what another one holds has its lanes. -/
theorem Holds.lane_eq {s d t : AnyScheduler ν} {f : Nat → Nat} (ht : Holds s d.stored t f)
    (hd : Evolves s d) (modelId : String) :
    (t.emptiedFor modelId).map (InferenceRequest.renumber f) = d.lane modelId := by
  rcases ht.reachable with ⟨config, hreach⟩
  have hsound := hreach.heapsSound
  have hsep := (hsound.separated ht.byScore).sublist
    (List.filter_sublist (p := t.shares modelId))
  have hsep' := (hd.sound.separated hd.byScore).sublist
    (List.filter_sublist (p := d.shares modelId))
  -- renumbering does not move a request to another heap
  have hshares : (fun x => d.shares modelId (x.renumber f)) = t.shares modelId := by
    funext x
    simp only [shares, hd.aware, ht.aware]
    rfl
  have hperm : ((t.stored.filter (t.shares modelId)).map (InferenceRequest.renumber f)).Perm
      (d.stored.filter (d.shares modelId)) := by
    have hfilter := ht.stored.filter (d.shares modelId)
    rw [List.filter_map] at hfilter
    rwa [← hshares]
  have hlt : ∀ a ∈ t.stored.filter (t.shares modelId), ∀ b ∈ t.stored.filter (t.shares modelId),
      (a.renumber f).lt (b.renumber f) = a.lt b := fun a ha b hb =>
    InferenceRequest.renumber_lt ht.numbered a (List.mem_of_mem_filter ha) b
      (List.mem_of_mem_filter hb)
  calc
    (t.emptiedFor modelId).map (InferenceRequest.renumber f)
        = (ranked InferenceRequest.lt (t.stored.filter (t.shares modelId))).map
          (InferenceRequest.renumber f) := by
      rw [emptiedFor_eq modelId ht.byScore hsound, ranked_shared modelId ht.byScore hsound]
    _ = ranked InferenceRequest.lt ((t.stored.filter (t.shares modelId)).map
          (InferenceRequest.renumber f)) := (ranked_map hsep hlt).symm
    _ = ranked InferenceRequest.lt (d.stored.filter (d.shares modelId)) :=
      (ranked_congr hsep' hperm.symm).symm
    _ = d.lane modelId := ranked_shared modelId hd.byScore hd.sound

/-- A request of `s` is taken out, which leaves `d`, and another is pushed, which leaves `s'`. -/
structure Exchanges (s d s' : AnyScheduler ν) (oldest : InferenceRequest ν) : Prop where
  drop : Evolves s d
  dropped : d.order.Sublist s.order
  perm : s.stored.Perm (oldest :: d.stored)
  push : Evolves d s'
  pushed : ∀ old : InferenceRequest ν → Bool, (∀ x, old x = true → x.counter < d.counter) →
    s'.order.filter old = d.order.filter old

namespace Exchanges

variable {s d s' : AnyScheduler ν} {oldest : InferenceRequest ν}

omit [LawfulBEq ν] [IsStrictTotalOrder ν (· < ·)] in
/-- The requests that were there before the push. -/
theorem filter_push (h : Exchanges s d s' oldest) :
    s'.order.filter (fun x => x.counter < d.counter) = d.order := by
  rw [h.pushed _ (by simp), List.filter_eq_self]
  intro x hx
  have hmem := (order_perm h.drop.byScore).mem_iff.mp hx
  simpa using h.drop.sound.fresh h.drop.byScore x hmem

omit [LawfulBEq ν] [IsStrictTotalOrder ν (· < ·)] in
theorem counter_ne (h : Exchanges s d s' oldest) (hs : s.ByScore) (hsound : s.HeapsSound) :
    ∀ x ∈ d.stored, x.counter ≠ oldest.counter := by
  have hnodup := (h.perm.map InferenceRequest.counter).nodup_iff.mp (hsound.distinct hs)
  intro x hx heq
  exact (List.nodup_cons.mp hnodup).1 (heq ▸ List.mem_map_of_mem hx)

omit [LawfulBEq ν] [IsStrictTotalOrder ν (· < ·)] in
/-- The requests other than the one taken out. -/
theorem filter_drop (h : Exchanges s d s' oldest) (hs : s.ByScore) (hsound : s.HeapsSound) :
    s.order.filter (fun x => x.counter ≠ oldest.counter) = d.order := by
  have hself : d.order.filter (fun x => x.counter ≠ oldest.counter) = d.order := by
    apply List.filter_eq_self.mpr
    intro x hx
    simpa using h.counter_ne hs hsound x ((order_perm h.drop.byScore).mem_iff.mp hx)
  have hsub := h.dropped.filter fun x => decide (x.counter ≠ oldest.counter)
  rw [hself] at hsub
  have horder : s.order.Perm (oldest :: d.order) :=
    ((order_perm hs).trans h.perm).trans ((order_perm h.drop.byScore).symm.cons oldest)
  have hfilter := horder.filter fun x => decide (x.counter ≠ oldest.counter)
  rw [List.filter_cons_of_neg (by simp), hself] at hfilter
  exact (hsub.eq_of_length hfilter.length_eq.symm).symm

/-- What later calls return of the requests that were there before the push. -/
theorem later (h : Exchanges s d s' oldest) {old : InferenceRequest ν → Bool}
    (hold : ∀ x, old x = true → x.counter < d.counter) {cs : List (LaterCall ν)}
    (hlane : ∀ modelId, .nextBatchForModel modelId ∈ cs →
      ∃ modelId', ∀ x, old x = true → s'.shares modelId' x = true)
    {l : List (InferenceRequest ν)} (hl : l.Sublist (gives serve s' cs).1)
    (hlold : ∀ x ∈ l, old x = true) : l.Sublist (d.order.filter old) := by
  have hold' : ∀ x, old x = true → x.counter < s'.counter :=
    fun x hx => (hold x hx).trans_le h.push.counter
  rw [← h.pushed old hold]
  exact (serve_inOrder h.push.byScore h.push.sound hold' hlane).sublist hl hlold

theorem undisturbed (h : Exchanges s d s' oldest) (hs : s.ByScore) (hsound : s.HeapsSound) :
    Undisturbed s d.stored s' := by
  have hfresh := h.drop.sound.fresh h.drop.byScore
  have hshares : ∀ modelId, s'.shares modelId = d.shares modelId := by
    intro modelId
    funext x
    simp only [shares, h.push.aware]
  constructor
  · intro l hl hkept
    rw [emptied_eq hs hsound] at hl
    rw [emptied_eq h.push.byScore h.push.sound]
    have hself : l.filter (fun x => x.counter ≠ oldest.counter) = l := by
      apply List.filter_eq_self.mpr
      intro x hx
      simpa using h.counter_ne hs hsound x (hkept x hx)
    calc
      l = l.filter (fun x => x.counter ≠ oldest.counter) := hself.symm
      List.Sublist _ (s.order.filter fun x => x.counter ≠ oldest.counter) := hl.filter _
      _ = d.order := h.filter_drop hs hsound
      _ = s'.order.filter (fun x => x.counter < d.counter) := h.filter_push.symm
      List.Sublist _ s'.order := List.filter_sublist
  · intro cs hcs l hl hkept
    rw [emptied_eq hs hsound]
    have hsub : l.Sublist (d.order.filter fun x => x.counter < d.counter) :=
      h.later (by simp) (fun modelId hmem => absurd hmem (hcs modelId)) hl
        (fun x hx => by simpa using hfresh x (hkept x hx))
    exact (hsub.trans List.filter_sublist).trans h.dropped
  · intro t f ht modelId
    rw [ht.lane_eq h.drop, emptiedFor_eq modelId h.push.byScore h.push.sound, lane, lane,
      hshares, ← h.filter_push]
    exact List.filter_sublist.filter _
  · intro t f ht modelId cs l hl hkept
    rw [ht.lane_eq h.drop]
    have hsub : l.Sublist
        (d.order.filter fun x => decide (x.counter < d.counter) && d.shares modelId x) := by
      refine h.later (by simp +contextual) (fun _ _ => ⟨modelId, ?_⟩) hl ?_
      · intro x hx
        rw [hshares]
        exact (Bool.and_eq_true_iff.mp hx).2
      · intro x hx
        have haware : d.shares modelId x = s.shares modelId x := by
          simp only [shares, h.drop.aware]
        simpa [haware, (hkept x hx).2] using hfresh x (hkept x hx).1
    rw [← List.filter_filter] at hsub
    exact hsub.trans List.filter_sublist

end Exchanges

/-! ## The eviction -/

/-- In every reachable state, a full queue gives up exactly one request, which arrived before all
others; the new request is queued if it can be scored, and the others leave later in their order. -/
theorem eviction_undisturbed (config : SchedulingConfig ν) (s : AnyScheduler ν)
    (hreach : Reachable config s) (hs : s.ByScore) (hfull : s.Full)
    (hpolicy : s.config.overflowPolicy = .dropOldest) (m : Moment ν) (r : InferenceRequest ν) :
    let o := Scheduler.submit m r s
    ∃ oldest kept, o.dropped = some oldest ∧ s.stored.Perm (oldest :: kept) ∧
      (∀ x ∈ s.stored, oldest.receivedAt ≤ x.receivedAt) ∧
      ((∀ e, ¬ s.Fails m r e) → ∃ queued : InferenceRequest ν,
        queued.unstamped = r.unstamped ∧ o.state.stored.Perm (queued :: kept)) ∧
      Undisturbed s kept o.state := by
  intro o
  have hsound := hreach.heapsSound
  have hne := hfull.stored_ne_nil hreach.inv
  rcases dropOldest_order hs hsound hne with ⟨hdrop, hsub, oldest, hsome, hmin, hperm⟩
  rcases resubmit_order m r hdrop.byScore hdrop.sound with ⟨hpush, hpushed⟩
  have ho : o = { Scheduler.resubmit m r s.dropOldest.2 with dropped := s.dropOldest.1 } :=
    submit_full m r hfull hpolicy
  have hexchange : Exchanges s s.dropOldest.2 o.state oldest := by
    rw [ho]
    exact ⟨hdrop, hsub, hperm, hpush, hpushed⟩
  refine ⟨oldest, s.dropOldest.2.stored, ?_, hperm, hmin, ?_, hexchange.undisturbed hs hsound⟩
  · rw [ho]
    exact hsome
  · intro hscored
    have hinv : AccountedScheduler.Inv s.dropOldest.2 :=
      inv_of_heapsSound hdrop.byScore hdrop.sound
    have hraised : (Scheduler.resubmit m r s.dropOldest.2).raised = none := by
      by_contra hne'
      rcases Option.ne_none_iff_exists'.mp hne' with ⟨e, he⟩
      have hfails := (resubmit_raised_eq_iff m r s.dropOldest.2 e).mp he
      exact hscored e ((fails_dropOldest m r s e).mp hfails)
    rw [ho]
    exact (AccountedScheduler.resubmit_spec m r hinv).2.2.accepted hraised

/-! ### Two models -/

theorem threeSlots_ge : 1 ≤ 3 := by decide

def threeSlots : SchedulingConfig Rat :=
  { plainConfig.scheduling with
    maxQueueSize := 3
    maxQueueSize_ge := threeSlots_ge }

def submitAt (now : Nat) (clientId modelId : String) : LaterCall Rat :=
  .call (.submit (momentAt now) (plainRequest clientId modelId now now))

/-- `x` for one model and `y` for the other, queued in this order by the new scheduler. -/
def twoQueued : List (LaterCall Rat) := [submitAt 1 "x" "telemetry", submitAt 2 "y" "policy"]

def afterCalls (cs : List (LaterCall Rat)) : AnyScheduler Rat :=
  (gives serve (.modelDeadline (.init threeSlots)) cs).2

theorem afterCalls_reachable (cs : List (LaterCall Rat)) :
    Reachable threeSlots (afterCalls cs) := by
  have hinit : Reachable threeSlots (.modelDeadline (.init threeSlots)) := .create rfl
  exact hinit.gives cs

/-- A fourth request finds the queue full and takes the place of the first. -/
theorem eviction_undisturbed_crowded :
    let s := afterCalls (submitAt 0 "e" "policy" :: twoQueued)
    let o := Scheduler.submit (momentAt 3) (plainRequest "r" "telemetry" 3 3) s
    s.Full ∧ ∃ oldest kept, o.dropped = some oldest ∧ s.stored.Perm (oldest :: kept) ∧
      (∀ x ∈ s.stored, oldest.receivedAt ≤ x.receivedAt) ∧
      ((∀ e, ¬ s.Fails (momentAt 3) (plainRequest "r" "telemetry" 3 3) e) →
        ∃ queued : InferenceRequest Rat,
          queued.unstamped = (plainRequest "r" "telemetry" 3 3).unstamped ∧
            o.state.stored.Perm (queued :: kept)) ∧
      Undisturbed s kept o.state := by
  have hfull : (3 : Int) ≤ (afterCalls (submitAt 0 "e" "policy" :: twoQueued)).queueLen := by
    decide +kernel
  exact ⟨hfull, eviction_undisturbed threeSlots _ (afterCalls_reachable _) (by decide +kernel)
    hfull (by decide +kernel) _ _⟩

/-- Asked by `next_batch`, the first model is the one of the evicted request.  A scheduler that
never held that request, but the same others, begins with the other model. -/
theorem eviction_leaves_models :
    let s := afterCalls (submitAt 0 "e" "policy" :: twoQueued)
    let never := afterCalls twoQueued
    let others := never.stored.map (InferenceRequest.renumber (· + 1))
    let o (s : AnyScheduler Rat) :=
      Scheduler.submit (momentAt 3) (plainRequest "r" "telemetry" 3 3) s
    Reachable threeSlots s ∧ s.Full ∧ s.stored.Perm ((o s).dropped.toList ++ others) ∧
      Holds s others never (· + 1) ∧
      (o s).dropped.map InferenceRequest.clientId = some "e" ∧
      (o s).state.emptied.map InferenceRequest.clientId = ["y", "x", "r"] ∧
      (o never).state.emptied.map InferenceRequest.clientId = ["x", "r", "y"] := by
  have hfull : (3 : Int) ≤ (afterCalls (submitAt 0 "e" "policy" :: twoQueued)).queueLen := by
    decide +kernel
  have hholds : Holds (afterCalls (submitAt 0 "e" "policy" :: twoQueued))
      ((afterCalls twoQueued).stored.map (InferenceRequest.renumber (· + 1)))
      (afterCalls twoQueued) (· + 1) :=
    { reachable := ⟨threeSlots, afterCalls_reachable _⟩
      byScore := by decide +kernel
      aware := by decide +kernel
      numbered := fun _ _ _ _ hlt => Nat.succ_lt_succ hlt
      stored := List.Perm.refl _ }
  exact ⟨afterCalls_reachable _, hfull, by decide +kernel, hholds, by decide +kernel,
    by decide +kernel, by decide +kernel⟩

end AnyScheduler
end Inferential
