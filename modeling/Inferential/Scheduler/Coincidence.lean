import Inferential.Scheduler.ArrivalLines
import Inferential.Scheduler.Atomicity

/-!
# Coincidence — strategies that cannot be told apart

The strategies differ in the lines that requests stand in: one for each client, model or tier, or
one for all.  When all requests stand in the same line, three of them are the same queue served in
the order of arrival, and the other three are the same heap.
-/

namespace Inferential

open PyStd PyStd.Heapq Machine

variable {ν : Type} [Score ν]

/-! ## One tier -/

namespace TieredDeadlineScheduler

/-- The only tier is the heap. -/
structure OneTier (s : TieredDeadlineScheduler ν) (q : SingleQueue ν) : Prop where
  handling : q.handling = .scored s.policy s.config.deadlineAware
  config : s.config = q.config
  counter : s.counter = q.counter
  total : s.total = (q.queue.length : Int)
  tiers : s.tiers = [q.queue]

namespace OneTier

variable {s : TieredDeadlineScheduler ν} {q : SingleQueue ν}

theorem numTiers (h : OneTier s q) : s.config.priorityTiered.numTiers = 1 := by
  have hlength := s.tiers_length
  rw [h.tiers] at hlength
  exact hlength.symm

theorem resubmit (h : OneTier s q) (m : Moment ν) (r : InferenceRequest ν) :
    SubmittedAlike OneTier (s.resubmit m r) (q.resubmit m r) := by
  have htier : s.tierOf r = 0 := by
    simp [tierOf, tierFor, TieredDeadlineScheduler.numTiers, h.numTiers]
  rw [SingleQueue.resubmit_scored h.handling]
  unfold TieredDeadlineScheduler.resubmit TieredDeadlineScheduler.computeScore
  cases scoreWith s.policy s.config.deadlineAware m r with
  | error e => exact ⟨rfl, h⟩
  | ok score =>
      refine ⟨rfl, ⟨h.handling, h.config, ?_, ?_, ?_⟩⟩
      · simp [h.counter]
      · simp [h.total]
      · simp [htier, h.tiers, h.counter]

theorem leave (h : OneTier s q) {r : InferenceRequest ν} {rest : List (InferenceRequest ν)}
    (hqueue : q.queue.Perm (r :: rest))
    (hlength : [rest].length = s.config.priorityTiered.numTiers) :
    OneTier { s with tiers := [rest], total := s.total - 1, tiers_length := hlength }
      { q with queue := rest } where
  handling := h.handling
  config := h.config
  counter := h.counter
  total := by simp [h.total, hqueue.length_eq]
  tiers := rfl

theorem dropOldest (h : OneTier s q) : OneTier s.dropFromLowestTier.2 q.dropOldest.2 := by
  rw [SingleQueue.dropOldest_scored h.handling]
  unfold dropFromLowestTier
  split
  · next hnone =>
      rw [h.tiers, Tiers.takeLast_singleton, Option.map_eq_none_iff] at hnone
      simpa [hnone] using h
  · next oldest tiers hsome =>
      rw [h.tiers, Tiers.takeLast_singleton] at hsome
      rcases Option.map_eq_some_iff.mp hsome with ⟨⟨r, rest⟩, htake, htaken⟩
      cases htaken
      simpa [htake] using h.leave (takeOldest_takes.perm htake) _

theorem nextBatch (h : OneTier s q) :
    s.nextBatch.1 = q.nextBatch.1 ∧ OneTier s.nextBatch.2 q.nextBatch.2 := by
  have hask : s.nextBatch = s.nextBatchForTier 0 := by
    -- the loop over the tiers asks the only one
    simp only [TieredDeadlineScheduler.nextBatch, TieredDeadlineScheduler.numTiers, h.numTiers,
      List.range_one, firstBatch]
    split
    · next hempty => exact Prod.ext (List.isEmpty_iff.mp hempty).symm rfl
    · rfl
  rw [hask, SingleQueue.nextBatch_scored h.handling]
  unfold nextBatchForTier
  simp only [h.tiers, List.getD_cons_zero]
  cases hpop : heappop InferenceRequest.lt q.queue with
  | none => exact ⟨rfl, h⟩
  | some popped =>
      rcases popped with ⟨r, rest⟩
      exact ⟨rfl, by simpa using h.leave (heappop_perm hpop) _⟩

theorem sweep (h : OneTier s q) (keep : InferenceRequest ν → Bool) :
    (s.sweep keep).1 = (q.sweep keep).1 ∧ OneTier (s.sweep keep).2 (q.sweep keep).2 := by
  have hlength := (sweepTier_perm keep q.queue).length_eq
  have hle := List.length_filter_le keep q.queue
  rw [SingleQueue.sweep_scored h.handling]
  simp only [TieredDeadlineScheduler.sweep, h.tiers, List.map_cons, List.map_nil, List.sum_cons,
    List.sum_nil, Nat.add_zero]
  refine ⟨by rw [hlength], h.handling, h.config, h.counter, ?_, rfl⟩
  simp only [h.total]
  omega

end OneTier

theorem shadows_oneTier : Shadows (ν := ν) (fun _ _ => True) OneTier where
  queueLen h := h.total
  submit m r h _ :=
    SubmittedAlike.submitWith h h.config h.total r.clientId (fun _ _ => h.dropOldest)
      fun _ _ h => h.resubmit m r
  resubmit m r h _ := h.resubmit m r
  nextBatch _ h := h.nextBatch
  tick clock h := by
    simpa only [Scheduler.tick, tick, h.config] using h.sweep _
  connected _ h := h
  disconnected clientId h _ := (h.sweep _).2

end TieredDeadlineScheduler

/-! ## One model -/

namespace ModelDeadlineScheduler

/-- A tier that becomes empty is rebuilt, the heap of a model is not, which makes no difference. -/
theorem sweepHeap_eq_sweepTier (keep : InferenceRequest ν → Bool)
    (heap : List (InferenceRequest ν)) :
    sweepHeap keep heap = TieredDeadlineScheduler.sweepTier keep heap := by
  unfold sweepHeap TieredDeadlineScheduler.sweepTier
  by_cases hkept : heap.filter keep = []
  · simp [hkept, heapify_nil]
  · simp [hkept]

/-- The heap of the only model is the heap. -/
structure OneModel (modelId : String) (s : ModelDeadlineScheduler ν) (q : SingleQueue ν) :
    Prop where
  handling : q.handling = .scored s.policy s.config.modelDeadline
  config : s.config = q.config
  counter : s.counter = q.counter
  total : s.total = (q.queue.length : Int)
  lone : s.queues.Lone modelId q.queue

namespace OneModel

variable {modelId : String} {s : ModelDeadlineScheduler ν} {q : SingleQueue ν}

theorem resubmit (h : OneModel modelId s q) (m : Moment ν) {r : InferenceRequest ν}
    (hr : r.modelId = modelId) :
    SubmittedAlike (OneModel modelId) (s.resubmit m r) (q.resubmit m r) := by
  rw [SingleQueue.resubmit_scored h.handling]
  unfold ModelDeadlineScheduler.resubmit push ModelDeadlineScheduler.computeScore
  cases scoreWith s.policy s.config.modelDeadline m r with
  | error e => exact ⟨rfl, h⟩
  | ok score =>
      have hlone := h.lone.set (heappush InferenceRequest.lt q.queue (r.stamp score q.counter))
      refine ⟨rfl, ⟨h.handling, h.config, ?_, ?_, ?_⟩⟩
      · simp [h.counter]
      · simp [h.total]
      · simpa [hr, h.counter, h.lone.listAt] using hlone

theorem stored (h : OneModel modelId s q) : s.stored.Perm q.queue := h.lone.flatten

theorem leave (h : OneModel modelId s q) {r : InferenceRequest ν}
    {rest : List (InferenceRequest ν)} (hqueue : q.queue.Perm (r :: rest)) :
    OneModel modelId { s with queues := s.putHeap modelId rest, total := s.total - 1 }
      { q with queue := rest } where
  handling := h.handling
  config := h.config
  counter := h.counter
  total := by simp [h.total, hqueue.length_eq]
  lone modelId' := by
    rw [putHeap_listAt]
    split
    · rfl
    · next hne => simpa [heapOf, hne] using h.lone modelId'

theorem dropOldest (h : OneModel modelId s q) :
    OneModel modelId s.dropOldest.2 q.dropOldest.2 := by
  rw [SingleQueue.dropOldest_scored h.handling]
  by_cases hnil : q.queue = []
  · have hstored : s.stored = [] := (hnil ▸ h.stored).eq_nil
    rw [dropOldest_empty hstored, TieredDeadlineScheduler.takeOldest_takes.none_iff.mpr hnil]
    exact h
  · have hidx := oldestIdx_lt hnil
    have htake : TieredDeadlineScheduler.takeOldest q.queue =
        some (q.queue[oldestIdx q.queue],
          heapify InferenceRequest.lt (overwritePop q.queue (oldestIdx q.queue))) := by
      simp [TieredDeadlineScheduler.takeOldest, hidx]
    unfold ModelDeadlineScheduler.dropOldest
    cases hkey : oldestKey s.visited with
    | none =>
        -- the loop visits the requests of the only model
        exfalso
        rcases List.exists_mem_of_ne_nil _ hnil with ⟨r, hr⟩
        have hvisited : (modelId, r) ∈ s.visited := by
          rw [mem_visited, heapOf, h.lone.listAt]
          exact hr
        simp [oldestKey_eq_none.mp hkey] at hvisited
    | some found =>
        rcases found with ⟨time, key⟩
        rcases oldestKey_eq_some hkey with ⟨⟨r, hr, -⟩, -⟩
        have hsame : key = modelId := h.lone.of_mem (mem_visited.mp hr)
        subst hsame
        rw [htake]
        simpa [h.lone.listAt] using h.leave (TieredDeadlineScheduler.takeOldest_takes.perm htake)

theorem nextBatch (h : OneModel modelId s q) :
    s.nextBatch.1 = q.nextBatch.1 ∧ OneModel modelId s.nextBatch.2 q.nextBatch.2 := by
  rw [SingleQueue.nextBatch_scored h.handling]
  rcases s.nextBatch_spec with ⟨hstored, heq⟩ | ⟨key, hne, heq⟩
  · have hnil : q.queue = [] := (hstored ▸ h.stored).nil_eq.symm
    rw [heq, heappop_eq_none.mpr hnil]
    exact ⟨rfl, h⟩
  · -- the model that is asked has a request, so it is the only one
    rcases List.exists_mem_of_ne_nil _ hne with ⟨r, hr⟩
    have hsame : key = modelId := h.lone.of_mem hr
    subst hsame
    rcases nextBatchForModel_spec key s with ⟨hempty, -⟩ | ⟨item, heap, hpop, hnext⟩
    · exact absurd hempty hne
    · rw [heapOf, h.lone.listAt] at hpop
      rw [heq, hnext, hpop]
      exact ⟨rfl, h.leave (heappop_perm hpop)⟩

theorem sweep (h : OneModel modelId s q) (keep : InferenceRequest ν → Bool) :
    (s.sweep keep).1 = (q.sweep keep).1 ∧ OneModel modelId (s.sweep keep).2 (q.sweep keep).2 := by
  have hcount : (s.sweep keep).1 = q.queue.length - (q.queue.filter keep).length :=
    h.lone.sum_removed keep
  have hlength := (TieredDeadlineScheduler.sweepTier_perm keep q.queue).length_eq
  have hle := List.length_filter_le keep q.queue
  rw [SingleQueue.sweep_scored h.handling]
  refine ⟨hcount, h.handling, h.config, h.counter, ?_, ?_⟩
  · have htotal : (s.sweep keep).2.total = s.total - ((s.sweep keep).1 : Int) := rfl
    rw [htotal, hcount, h.total]
    simp only [hlength]
    omega
  · intro modelId'
    have hheap := s.sweep_heapOf keep modelId'
    rw [heapOf, sweepHeap_eq_sweepTier, heapOf, h.lone modelId'] at hheap
    rw [hheap]
    split
    · rfl
    · rfl

end OneModel

theorem shadows_oneModel (modelId : String) :
    Shadows (ν := ν) (fun _ => SchedulerCall.Queues fun r => r.modelId = modelId)
      (OneModel modelId) where
  queueLen h := h.total
  submit m r h hr :=
    SubmittedAlike.submitWith h h.config h.total r.clientId (fun _ _ => h.dropOldest)
      fun _ _ h => h.resubmit m hr
  resubmit m _ h hr := h.resubmit m hr
  nextBatch _ h := h.nextBatch
  tick clock h := by
    simpa only [Scheduler.tick, tick, h.config] using h.sweep _
  connected _ h := h
  disconnected _ h _ := (h.sweep _).2

end ModelDeadlineScheduler

/-! ## One heap -/

namespace DeadlineAwareScheduler

/-- Overflow drops nothing: it takes the oldest request out in a way of its own.  And no client
disconnects, which this scheduler does not notice. -/
def Undropped (s : DeadlineAwareScheduler ν) : SchedulerCall ν → Prop
  | .submit _ _ => s.queue.length < s.config.maxQueueSize ∨ s.config.overflowPolicy = .rejectNewest
  | .onClientDisconnected _ => False
  | _ => True

theorem submit_eq_submitWith (m : Moment ν) (r : InferenceRequest ν)
    (s : DeadlineAwareScheduler ν) :
    s.submit m r = submitWith s.config s.queue.length
      (fun s => (s.queue[oldestIdx s.queue]?, s.dropOldest)) (resubmit m r) r.clientId s := by
  unfold submit submitWith
  by_cases hfull : s.config.maxQueueSize ≤ s.queue.length
  · exact (if_pos hfull).trans (if_pos (Int.ofNat_le.mpr hfull)).symm
  · rw [if_neg hfull, if_neg fun h => hfull (Int.ofNat_le.mp h)]

/-- The heap of all requests is the heap. -/
structure OneHeap (s : DeadlineAwareScheduler ν) (q : SingleQueue ν) : Prop where
  handling : q.handling = .scored s.policy s.config.deadlineAware
  config : s.config = q.config
  counter : s.counter = q.counter
  queue : s.queue = q.queue

namespace OneHeap

variable {s : DeadlineAwareScheduler ν} {q : SingleQueue ν}

theorem resubmit (h : OneHeap s q) (m : Moment ν) (r : InferenceRequest ν) :
    SubmittedAlike OneHeap (s.resubmit m r) (q.resubmit m r) := by
  rw [SingleQueue.resubmit_scored h.handling]
  unfold DeadlineAwareScheduler.resubmit DeadlineAwareScheduler.computeScore
  cases scoreWith s.policy s.config.deadlineAware m r with
  | error e => exact ⟨rfl, h⟩
  | ok score =>
      exact ⟨rfl, h.handling, h.config, by simp [h.counter],
        by simp [h.counter, h.queue]⟩

theorem submit (h : OneHeap s q) (m : Moment ν) (r : InferenceRequest ν)
    (hkept : s.Undropped (.submit m r)) :
    SubmittedAlike OneHeap (s.submit m r) (q.submit m r) := by
  rw [submit_eq_submitWith]
  -- the branch that drops a request is never taken
  refine SubmittedAlike.submitWith h h.config (by rw [h.queue]) r.clientId (fun hfull hdrop => ?_)
    fun _ _ h => h.resubmit m r
  rcases hkept with hroom | hrefuses
  · exact absurd (Int.ofNat_le.mp hfull) (Nat.not_le.mpr hroom)
  · rw [hrefuses] at hdrop
    cases hdrop

theorem nextBatch (h : OneHeap s q) :
    s.nextBatch.1 = q.nextBatch.1 ∧ OneHeap s.nextBatch.2 q.nextBatch.2 := by
  rw [SingleQueue.nextBatch_scored h.handling]
  unfold DeadlineAwareScheduler.nextBatch
  rw [h.queue]
  cases heappop InferenceRequest.lt q.queue with
  | none => exact ⟨rfl, h⟩
  | some popped => exact ⟨rfl, h.handling, h.config, h.counter, rfl⟩

theorem tick (h : OneHeap s q) (clock : InferenceRequest ν → Rat) :
    (Scheduler.tick clock s).1 = (Scheduler.tick clock q).1 ∧
      OneHeap (Scheduler.tick clock s).2 (Scheduler.tick clock q).2 := by
  have hkept : Scheduler.tick clock s =
      (q.queue.length -
          (q.queue.filter fun r => !isExpired (clock r) q.config.requestTtlMs r).length,
        { s with
          queue := TieredDeadlineScheduler.sweepTier
            (fun r => !isExpired (clock r) q.config.requestTtlMs r) q.queue }) := by
    simp only [Scheduler.tick, DeadlineAwareScheduler.tick, SingleQueue.sweepTier_eq, h.queue,
      h.config]
  rw [hkept]
  simp only [Scheduler.tick]
  rw [SingleQueue.sweep_scored h.handling]
  exact ⟨rfl, h.handling, h.config, h.counter, rfl⟩

end OneHeap

theorem shadows_oneHeap : Shadows (ν := ν) Undropped OneHeap where
  queueLen h := congrArg (fun queue : List (InferenceRequest ν) => (queue.length : Int)) h.queue
  submit m r h hkept := h.submit m r hkept
  resubmit m r h _ := h.resubmit m r
  nextBatch _ h := h.nextBatch
  tick clock h := h.tick clock
  connected _ h := h
  disconnected _ _ hno := hno.elim

end DeadlineAwareScheduler

/-! ## Six strategies, two queues -/

/-- When all requests stand in one line, a caller cannot tell `round_robin`, `batch_optimized` with
batches of one and `priority_tiered` apart, nor `model_deadline`, `tiered_deadline` and, as long as
nothing is dropped and no client disconnects, `deadline_aware`. -/
theorem strategies_coincide (config : SchedulingConfig ν) (policy : Option String)
    (clientId modelId : String) (cs : List (SchedulerCall ν))
    (htiers : config.priorityTiered.numTiers = 1) :
    ((∀ c ∈ cs, c.Queues fun r => r.clientId = clientId) →
      Scheduler.replies (RoundRobinScheduler.init config) cs =
        Scheduler.replies (PriorityTieredScheduler.init config) cs) ∧
    ((∀ c ∈ cs, c.Queues fun r => r.modelId = modelId) →
      config.batchOptimized.maxBatchSize = 1 →
      Scheduler.replies (BatchOptimizedScheduler.init config) cs =
        Scheduler.replies (PriorityTieredScheduler.init config) cs) ∧
    ((∀ c ∈ cs, c.Queues fun r => r.modelId = modelId) →
      config.modelDeadline = config.deadlineAware →
      Scheduler.replies { ModelDeadlineScheduler.init config with policy := policy } cs =
        Scheduler.replies { TieredDeadlineScheduler.init config with policy := policy } cs) ∧
    (Follows Scheduler.call DeadlineAwareScheduler.Undropped
        { DeadlineAwareScheduler.init config with policy := policy } cs →
      Scheduler.replies { DeadlineAwareScheduler.init config with policy := policy } cs =
        Scheduler.replies { TieredDeadlineScheduler.init config with policy := policy } cs) := by
  -- each scheduler is compared with a single queue, which it shadows from the start
  let fifo : SingleQueue ν := { config := config, handling := .fifo }
  let scored : SingleQueue ν :=
    { config := config, handling := .scored policy config.deadlineAware }
  have hfifo : PriorityTieredScheduler.OneTier (.init config) fifo :=
    ⟨rfl, rfl, rfl, by simp [PriorityTieredScheduler.init, htiers, fifo]⟩
  have hscored : TieredDeadlineScheduler.OneTier
      { TieredDeadlineScheduler.init config with policy := policy } scored :=
    ⟨rfl, rfl, rfl, rfl, by simp [TieredDeadlineScheduler.init, htiers, scored]⟩
  have htiered : Scheduler.replies (PriorityTieredScheduler.init config) cs =
      Scheduler.replies fifo cs :=
    PriorityTieredScheduler.shadows_oneTier.replies hfifo (follows_forall fun _ _ => trivial)
  have hdeadline :
      Scheduler.replies { TieredDeadlineScheduler.init config with policy := policy } cs =
        Scheduler.replies scored cs :=
    TieredDeadlineScheduler.shadows_oneTier.replies hscored (follows_forall fun _ _ => trivial)
  rw [htiered, hdeadline]
  refine ⟨fun hone => ?_, fun hone hbatch => ?_, fun hone hweights => ?_, fun hkept => ?_⟩
  · refine (RoundRobinScheduler.shadows_oneClient clientId).replies ?_ (follows_forall hone)
    exact ⟨rfl, rfl, rfl, Dict.Lone.empty clientId, by simp [fifo]⟩
  · refine (BatchOptimizedScheduler.shadows_oneByOne modelId).replies ?_ (follows_forall hone)
    exact ⟨rfl, rfl, hbatch, rfl, Dict.Lone.empty modelId⟩
  · refine (ModelDeadlineScheduler.shadows_oneModel modelId).replies ?_ (follows_forall hone)
    exact ⟨by simp [scored, ModelDeadlineScheduler.init, hweights], rfl, rfl, rfl,
      Dict.Lone.empty modelId⟩
  · exact DeadlineAwareScheduler.shadows_oneHeap.replies ⟨rfl, rfl, rfl, rfl⟩ hkept

/-- One tier, and batches of one request. -/
def oneLine : SchedulingConfig Rat :=
  { plainConfig.scheduling with
    priorityTiered := { numTiers := 1, numTiers_ge := Nat.one_pos }
    batchOptimized := { plainConfig.scheduling.batchOptimized with
      maxBatchSize := 1
      maxBatchSize_ge := Nat.one_pos } }

/-- Two requests of a client for a model, which then leave. -/
def oneLineCalls : List (SchedulerCall Rat) :=
  [.submit (AnyScheduler.momentAt 0) (plainRequest "a" "policy" 0 0),
    .submit (AnyScheduler.momentAt 1) (plainRequest "a" "policy" 1 1), .nextBatch 2, .nextBatch 3]

theorem strategies_coincide_oneLine :
    Scheduler.replies (RoundRobinScheduler.init oneLine) oneLineCalls =
        Scheduler.replies (PriorityTieredScheduler.init oneLine) oneLineCalls ∧
      Scheduler.replies (BatchOptimizedScheduler.init oneLine) oneLineCalls =
        Scheduler.replies (PriorityTieredScheduler.init oneLine) oneLineCalls ∧
      Scheduler.replies (ModelDeadlineScheduler.init oneLine) oneLineCalls =
        Scheduler.replies (TieredDeadlineScheduler.init oneLine) oneLineCalls ∧
      Scheduler.replies (DeadlineAwareScheduler.init oneLine) oneLineCalls =
        Scheduler.replies (TieredDeadlineScheduler.init oneLine) oneLineCalls := by
  have hclient : ∀ c ∈ oneLineCalls, c.Queues fun r => r.clientId = "a" := by
    simp [oneLineCalls, SchedulerCall.Queues, plainRequest]
  have hmodel : ∀ c ∈ oneLineCalls, c.Queues fun r => r.modelId = "policy" := by
    simp [oneLineCalls, SchedulerCall.Queues, plainRequest]
  have hkept : Follows Scheduler.call DeadlineAwareScheduler.Undropped
      (DeadlineAwareScheduler.init oneLine) oneLineCalls := by
    refine ⟨Or.inl ?_, Or.inl ?_, trivial, trivial, trivial⟩
    · decide
    · decide +kernel
  rcases strategies_coincide oneLine none "a" "policy" oneLineCalls rfl with
    ⟨hround, hbatch, hdeadline, haware⟩
  exact ⟨hround hclient, hbatch hmodel rfl, hdeadline hmodel rfl, haware hkept⟩

end Inferential
