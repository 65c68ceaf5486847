import Inferential.Machine.Departures
import Inferential.Scheduler.BatchTimers
import Inferential.Scheduler.Sweeps
import Inferential.Server.Attempts

/-!
# Collecting — the batch of one iteration of the single loop

The loop calls `next_batch` until it has `max_concurrent_dispatch` requests.  A call may return more
than there is still room for, and then all of them are handed to the dispatcher.
-/

namespace Inferential

open PyStd Machine

variable {ν : Type} [Score ν]

namespace AnyScheduler

/-- How many requests `next_batch` returns at most. -/
def batchLimit : AnyScheduler ν → Nat
  | .batchOptimized s => s.maxBatch
  | _ => 1

theorem nextBatch_length_le (now : Rat) {s : AnyScheduler ν} (hinv : s.Inv) :
    (Scheduler.nextBatch now s).1.length ≤ s.batchLimit := by
  cases s with
  | batchOptimized s =>
      show (s.nextBatch now).1.length ≤ s.maxBatch
      rcases s.nextBatch_cases now with heq | ⟨modelId, -, hbatch, -⟩
      · simp [heq]
      · simp [hbatch]
  | deadlineAware s =>
      show s.nextBatch.1.length ≤ 1
      rcases s.nextBatch_cases with ⟨-, heq⟩ | ⟨_, _, -, heq⟩ <;> simp [heq]
  | modelDeadline s =>
      show s.nextBatch.1.length ≤ 1
      rcases s.nextBatch_spec with ⟨-, heq⟩ | ⟨modelId, -, heq⟩
      · simp [heq]
      · rw [heq]
        exact (nextBatchForModel_spec modelId hinv).2.2.1
  | priorityTiered s =>
      show s.nextBatch.1.length ≤ 1
      rcases PriorityTieredScheduler.nextBatch_cases hinv with ⟨-, heq⟩ | ⟨_, _, heq, -⟩ <;> simp [heq]
  | roundRobin s =>
      show s.nextBatch.1.length ≤ 1
      rcases RoundRobinScheduler.nextBatch_cases hinv with ⟨-, heq⟩ | ⟨_, _, heq, -⟩ <;> simp [heq]
  | tieredDeadline s =>
      show s.nextBatch.1.length ≤ 1
      rcases s.nextBatch_cases with ⟨-, heq⟩ | ⟨_, _, heq, -⟩ <;> simp [heq]

theorem nextBatch_batchLimit (now : Rat) (s : AnyScheduler ν) :
    (Scheduler.nextBatch now s).2.batchLimit = s.batchLimit := by
  cases s with
  | batchOptimized s =>
      show (s.nextBatch now).2.maxBatch = s.maxBatch
      unfold BatchOptimizedScheduler.nextBatch
      split <;> rfl
  | _ => rfl

end AnyScheduler

namespace Server

/-! ## What is collected -/

theorem collectMore_length_le (maxConcurrent : Nat) (clock : Nat → Rat) (fuel : Nat)
    (batch : List (InferenceRequest ν)) {s : AnyScheduler ν} (hinv : AccountedScheduler.Inv s) :
    (collectMore maxConcurrent clock fuel batch s).1.length ≤
      max batch.length (maxConcurrent - 1 + s.batchLimit) := by
  induction fuel generalizing batch s with
  | zero => exact le_max_left _ _
  | succ fuel ih =>
      unfold collectMore
      split
      · next hroom =>
          dsimp only
          split
          · exact le_max_left _ _
          · -- there was room for one more request at least
            have hnext := AnyScheduler.nextBatch_length_le (clock fuel) (s := s) hinv
            have hmore := ih (batch ++ (Scheduler.nextBatch (clock fuel) s).1)
              (AccountedScheduler.nextBatch_spec (clock fuel) hinv).1
            rw [AnyScheduler.nextBatch_batchLimit, List.length_append] at hmore
            omega
      · exact le_max_left _ _

theorem collectBatch_length_le {maxConcurrent : Nat} (hmax : 1 ≤ maxConcurrent) (first : Rat)
    (clock : Nat → Rat) {s : AnyScheduler ν} (hinv : AccountedScheduler.Inv s) :
    (collectBatch maxConcurrent first clock s).1.length ≤ maxConcurrent - 1 + s.batchLimit := by
  have hfirst := AnyScheduler.nextBatch_length_le first (s := s) hinv
  unfold collectBatch
  dsimp only
  split
  · exact hfirst.trans (Nat.le_add_left _ _)
  · have hmore := collectMore_length_le maxConcurrent clock maxConcurrent
      (Scheduler.nextBatch first s).1 (AccountedScheduler.nextBatch_spec first hinv).1
    rw [AnyScheduler.nextBatch_batchLimit] at hmore
    omega

/-- `next_batch`, as a machine that gives out requests. -/
def nextBatchAt (s : AnyScheduler ν) (now : Rat) : List (InferenceRequest ν) × AnyScheduler ν :=
  Scheduler.nextBatch now s

/-- The calls return `more`, and the last one left no room or returned nothing. -/
structure Calls (maxConcurrent : Nat) (s s' : AnyScheduler ν) (count : Nat)
    (times : List Rat) (more : List (InferenceRequest ν)) : Prop where
  gives : gives nextBatchAt s times = (more, s')
  ended : maxConcurrent ≤ count ∨ ∃ before now, times = before ++ [now] ∧
    (nextBatchAt (Machine.gives nextBatchAt s before).2 now).1 = []

/-- As many rounds as there is room for requests are enough. -/
theorem collectMore_calls (maxConcurrent : Nat) (clock : Nat → Rat) (fuel : Nat)
    (batch : List (InferenceRequest ν)) (s : AnyScheduler ν)
    (hfuel : maxConcurrent ≤ batch.length + fuel) :
    ∃ times more, (collectMore maxConcurrent clock fuel batch s).1 = batch ++ more ∧
      Calls maxConcurrent s (collectMore maxConcurrent clock fuel batch s).2
        (batch ++ more).length times more := by
  induction fuel generalizing batch s with
  | zero => exact ⟨[], [], by simp [collectMore], rfl, .inl (by simpa using hfuel)⟩
  | succ fuel ih =>
      unfold collectMore
      split
      · dsimp only
        split
        · next hempty =>
            have hnil := List.isEmpty_iff.mp hempty
            refine ⟨[clock fuel], [], by simp, ?_, .inr ⟨[], clock fuel, rfl, hnil⟩⟩
            simp [Machine.gives, nextBatchAt, hnil]
        · next hne =>
            have hpos : 0 < (Scheduler.nextBatch (clock fuel) s).1.length := by
              apply List.length_pos_iff.mpr
              simpa using hne
            rcases ih (batch ++ (Scheduler.nextBatch (clock fuel) s).1)
              (Scheduler.nextBatch (clock fuel) s).2
              (by rw [List.length_append]; omega) with ⟨times, more, hbatch, hgives, hended⟩
            refine ⟨clock fuel :: times, (Scheduler.nextBatch (clock fuel) s).1 ++ more, ?_, ?_, ?_⟩
            · rw [hbatch, List.append_assoc]
            · simp [Machine.gives, nextBatchAt, hgives]
            · rw [← List.append_assoc]
              rcases hended with hfull | ⟨before, now, rfl, hnil⟩
              · exact .inl hfull
              · exact .inr ⟨clock fuel :: before, now, rfl, hnil⟩
      · next hfull => exact ⟨[], [], by simp, rfl, .inl (by simpa using hfull)⟩

theorem collectBatch_calls (maxConcurrent : Nat) (first : Rat) (clock : Nat → Rat)
    (s : AnyScheduler ν) :
    ∃ times, Calls maxConcurrent s (collectBatch maxConcurrent first clock s).2
      (collectBatch maxConcurrent first clock s).1.length times
      (collectBatch maxConcurrent first clock s).1 := by
  unfold collectBatch
  dsimp only
  split
  · next hempty =>
      have hnil := List.isEmpty_iff.mp hempty
      refine ⟨[first], ?_, .inr ⟨[], first, rfl, hnil⟩⟩
      simp [Machine.gives, nextBatchAt]
  · rcases collectMore_calls maxConcurrent clock maxConcurrent (Scheduler.nextBatch first s).1
      (Scheduler.nextBatch first s).2 (Nat.le_add_left _ _) with
      ⟨times, more, hbatch, hgives, hended⟩
    refine ⟨first :: times, ?_, ?_⟩
    · simp [Machine.gives, nextBatchAt, hgives, hbatch]
    · rw [hbatch]
      rcases hended with hfull | ⟨before, now, rfl, hnil⟩
      · exact .inl hfull
      · exact .inr ⟨first :: before, now, rfl, hnil⟩

/-! ## What is handed to the dispatcher -/

/-- The batch is the concatenation of what consecutive calls return, with no request twice, with
nothing that the scheduler gave up left out, and of at most `maxConcurrent` requests. -/
structure HandsOver (maxConcurrent : Nat) (s s' : AnyScheduler ν)
    (batch : List (InferenceRequest ν)) : Prop where
  limit : batch.length ≤ maxConcurrent
  distinct : ((stored s).map InferenceRequest.objId).Nodup →
    (batch.map InferenceRequest.objId).Nodup
  consecutive : ∃ times, Calls maxConcurrent s s' batch.length times batch
  complete : (stored s).Perm (batch ++ stored s')

/-- What any iteration that starts in this state hands over. -/
def DispatchesWithin (config : InferentialConfig ν) (s : Server ν) : Prop :=
  ∀ first clock dispatchTime batch, s.legacy = .top →
    (s.legacyTop config first clock dispatchTime).legacy = .dispatching batch →
      HandsOver config.scheduling.maxConcurrentDispatch s.scheduler
        (s.legacyTop config first clock dispatchTime).scheduler batch

theorem legacyTop_cases (config : InferentialConfig ν) (first : Rat) (clock : Nat → Rat)
    (dispatchTime : Rat) {s : Server ν} (hlegacy : s.legacy = .top) {batch : List (InferenceRequest ν)}
    (hbatch : (s.legacyTop config first clock dispatchTime).legacy = .dispatching batch) :
    collectBatch config.scheduling.maxConcurrentDispatch first clock s.scheduler =
      (batch, (s.legacyTop config first clock dispatchTime).scheduler) := by
  revert hbatch
  simp only [legacyTop, hlegacy]
  split
  · simp [hlegacy]
  · split
    · simp
    · intro hbatch
      simp only [LegacyLoop.dispatching.injEq] at hbatch
      rw [← hbatch]
      rfl

theorem legacyTop_dispatching (config : InferentialConfig ν) {first : Rat} {clock : Nat → Rat}
    (dispatchTime : Rat) {s : Server ν} (hlegacy : s.legacy = .top)
    (haware : s.scheduler.isModelAware = false)
    (hne : (collectBatch config.scheduling.maxConcurrentDispatch first clock s.scheduler).1 ≠ []) :
    (s.legacyTop config first clock dispatchTime).legacy = .dispatching
      (collectBatch config.scheduling.maxConcurrentDispatch first clock s.scheduler).1 := by
  have hnot := mt List.isEmpty_iff.mp hne
  simp [legacyTop, hlegacy, haware, hnot]

end Server

/-! ## Queues that make full batches -/

namespace BatchOptimizedScheduler

/-- A request of some client. -/
def waitingRequest (modelId : String) (objId : Nat) : InferenceRequest ν where
  clientId := "robot-01"
  modelId := modelId
  identity := []
  envelope := []
  payload := []
  receivedAt := 0
  urgency := ((0 : Rat) : ν)
  stepsRemaining := none
  timeUntilNext := 0
  latencyBudgetMs := ((50 : Rat) : ν)
  priority := 1
  score := ((0 : Rat) : ν)
  objId := objId

/-- At time 0, `n` requests join the queue of the model. -/
def rush (modelId : String) : Nat → BatchOptimizedScheduler ν → BatchOptimizedScheduler ν
  | 0, s => s
  | n + 1, s => ((rush modelId n s).resubmit 0 (waitingRequest modelId n)).state

theorem rush_reachable {config : SchedulingConfig ν} (modelId : String) (n : Nat)
    {s : BatchOptimizedScheduler ν} (h : AnyScheduler.Reachable config (.batchOptimized s)) :
    AnyScheduler.Reachable config (.batchOptimized (rush modelId n s)) := by
  induction n with
  | zero => exact h
  | succ n ih =>
      exact .call {} (.resubmit ⟨0, fun _ _ => .ok ((0 : Rat) : ν)⟩ (waitingRequest modelId n)) ih

theorem rush_maxBatch (modelId : String) (n : Nat) (s : BatchOptimizedScheduler ν) :
    (rush modelId n s).maxBatch = s.maxBatch := by
  induction n with
  | zero => rfl
  | succ n ih => exact ih

theorem rush_queueOf (modelId : String) (n : Nat) (s : BatchOptimizedScheduler ν)
    (modelId' : String) :
    ((rush modelId n s).queueOf modelId').length =
      (s.queueOf modelId').length + if modelId' = modelId then n else 0 := by
  induction n with
  | zero => simp [rush]
  | succ n ih =>
      have hset := Dict.listAt_append (rush modelId n s).byModel modelId modelId'
        (waitingRequest modelId n)
      simp only [queueOf] at ih ⊢
      simp only [rush, resubmit, waitingRequest] at hset ⊢
      rw [hset]
      split
      · next heq =>
          simp only [heq, if_true] at ih ⊢
          simp [ih, Nat.add_assoc]
      · next hne => simpa [hne] using ih

theorem init_queueOf (config : SchedulingConfig ν) (modelId : String) :
    (init config).queueOf modelId = [] := rfl

/-- Only the queue of one model holds requests, enough for `n` full batches. -/
structure Piled (modelId : String) (n : Nat) (s : BatchOptimizedScheduler ν) : Prop where
  others : ∀ modelId', modelId' ≠ modelId → s.queueOf modelId' = []
  enough : n * s.maxBatch ≤ (s.queueOf modelId).length

/-- Then `next_batch` returns a full batch. -/
theorem Piled.nextBatch {modelId : String} {n : Nat} {s : BatchOptimizedScheduler ν}
    (h : s.Piled modelId (n + 1)) (now : Rat) :
    (s.nextBatch now).1.length = s.maxBatch ∧ (s.nextBatch now).2.maxBatch = s.maxBatch ∧
      (s.nextBatch now).2.Piled modelId n := by
  have hmax : 1 ≤ s.maxBatch := s.config.batchOptimized.maxBatchSize_ge
  have hlength : n * s.maxBatch + s.maxBatch ≤ (s.queueOf modelId).length := by
    rw [← Nat.succ_mul]
    exact h.enough
  have hsame : (s.nextBatch now).2.maxBatch = s.maxBatch :=
    AnyScheduler.nextBatch_batchLimit now (.batchOptimized s)
  have hfull : s.ready now (modelId, s.queueOf modelId) = true := by
    refine Waiting.ready_iff.mpr ⟨?_, .inl (by omega)⟩
    intro hnil
    rw [hnil, List.length_nil] at hlength
    omega
  cases hflush : s.flushes now with
  | none =>
      have hnot := (flushes_eq_none hflush).2 modelId
      rw [hfull] at hnot
      cases hnot
  | some flushed =>
      rcases flushes_eq_some hflush with ⟨hready, hbatch, hqueues, -⟩
      -- no other queue has anything to flush
      have hflushed : flushed = modelId := by
        by_contra hne
        exact (Waiting.ready_iff.mp hready).1 (h.others flushed hne)
      subst hflushed
      refine ⟨?_, hsame, ?_, ?_⟩
      · rw [hbatch, List.length_take]
        omega
      · intro modelId' hne
        show (s.nextBatch now).2.byModel.listAt modelId' = []
        rw [hqueues, Dict.listAt_set, if_neg hne]
        exact h.others modelId' hne
      · rw [hsame]
        show _ ≤ ((s.nextBatch now).2.byModel.listAt flushed).length
        rw [hqueues, Dict.listAt_set, if_pos rfl, List.length_drop]
        omega

theorem Piled.collectMore {modelId : String} (maxConcurrent : Nat) (clock : Nat → Rat) (fuel : Nat)
    (batch : List (InferenceRequest ν)) {s : BatchOptimizedScheduler ν}
    (h : s.Piled modelId fuel) :
    ∃ k, (Server.collectMore maxConcurrent clock fuel batch (.batchOptimized s)).1.length =
        batch.length + k * s.maxBatch ∧
      (k = fuel ∨ maxConcurrent ≤ batch.length + k * s.maxBatch) := by
  induction fuel generalizing batch s with
  | zero => exact ⟨0, by simp [Server.collectMore], .inl rfl⟩
  | succ fuel ih =>
      by_cases hroom : batch.length < maxConcurrent
      · rcases h.nextBatch (clock fuel) with ⟨hlength, hsame, hrest⟩
        have hmax : 1 ≤ s.maxBatch := s.config.batchOptimized.maxBatchSize_ge
        have hne : ((s.nextBatch (clock fuel)).1).isEmpty = false := by
          cases hnext : (s.nextBatch (clock fuel)).1 with
          | nil =>
              rw [hnext, List.length_nil] at hlength
              omega
          | cons _ _ => rfl
        rcases ih (batch ++ (s.nextBatch (clock fuel)).1) hrest with ⟨k, hcount, hend⟩
        rw [List.length_append, hlength, hsame] at hcount hend
        have hround : Server.collectMore maxConcurrent clock (fuel + 1) batch (.batchOptimized s) =
            Server.collectMore maxConcurrent clock fuel (batch ++ (s.nextBatch (clock fuel)).1)
              (.batchOptimized (s.nextBatch (clock fuel)).2) := by
          have hnext : Scheduler.nextBatch (clock fuel) (AnyScheduler.batchOptimized s) =
              ((s.nextBatch (clock fuel)).1, .batchOptimized (s.nextBatch (clock fuel)).2) := rfl
          simp [Server.collectMore, hroom, hnext, hne]
        have hsum : batch.length + s.maxBatch + k * s.maxBatch =
            batch.length + (k + 1) * s.maxBatch := by
          rw [Nat.succ_mul]
          omega
        rw [hsum] at hcount hend
        rw [hround]
        refine ⟨k + 1, hcount, hend.imp_left fun hk => ?_⟩
        rw [hk]
      · refine ⟨0, by simp [Server.collectMore, hroom], .inr ?_⟩
        omega

/-- After a first batch the loop goes on in full batches, and does not stop below the limit. -/
theorem Piled.collectBatch {modelId : String} {maxConcurrent : Nat} {now : Rat}
    {s : BatchOptimizedScheduler ν} (h : (s.nextBatch now).2.Piled modelId maxConcurrent)
    (hfirst : 1 ≤ (s.nextBatch now).1.length) (clock : Nat → Rat) :
    ∃ k, (Server.collectBatch maxConcurrent now clock (.batchOptimized s)).1.length =
        (s.nextBatch now).1.length + k * s.maxBatch ∧
      maxConcurrent ≤ (s.nextBatch now).1.length + k * s.maxBatch := by
  have hsame : (s.nextBatch now).2.maxBatch = s.maxBatch :=
    AnyScheduler.nextBatch_batchLimit now (.batchOptimized s)
  have hmax : 1 ≤ s.maxBatch := s.config.batchOptimized.maxBatchSize_ge
  have hnext : Scheduler.nextBatch now (AnyScheduler.batchOptimized s) =
      ((s.nextBatch now).1, .batchOptimized (s.nextBatch now).2) := rfl
  have hne : ((s.nextBatch now).1).isEmpty = false := by
    cases hbatch : (s.nextBatch now).1 with
    | nil =>
        rw [hbatch, List.length_nil] at hfirst
        omega
    | cons _ _ => rfl
  rcases h.collectMore maxConcurrent clock maxConcurrent (s.nextBatch now).1 with
    ⟨k, hcount, hend⟩
  rw [hsame] at hcount hend
  refine ⟨k, ?_, ?_⟩
  · simp [Server.collectBatch, hnext, hne, hcount]
  · rcases hend with rfl | hend
    · calc
        k ≤ k * s.maxBatch := Nat.le_mul_of_pos_right k hmax
        _ ≤ (s.nextBatch now).1.length + k * s.maxBatch := Nat.le_add_left _ _
    · exact hend

/-- The first queue of the dictionary stays first, with its timer. -/
theorem rush_first {modelId first : String} (hne : first ≠ modelId) (n : Nat)
    {s : BatchOptimizedScheduler ν} {queue : List (InferenceRequest ν)}
    (h : s.byModel.items.head? = some (first, queue)) :
    (rush modelId n s).byModel.items.head? = some (first, queue) ∧
      (rush modelId n s).firstArrival.get? first = s.firstArrival.get? first := by
  induction n with
  | zero => exact ⟨h, rfl⟩
  | succ n ih =>
      rcases ih with ⟨hhead, htimer⟩
      rcases List.head?_eq_some_iff.mp hhead with ⟨rest, hitems⟩
      constructor
      · show ((rush modelId n s).byModel.set modelId _).items.head? = _
        simp [Dict.set, hitems, Dict.assign, hne]
      · have hother := Dict.get?_set_other (rush modelId n s).firstArrival (k := modelId) 0 hne
        show (if (rush modelId n s).firstArrival.contains modelId then
          (rush modelId n s).firstArrival
          else (rush modelId n s).firstArrival.set modelId 0).get? first = _
        split
        · exact htimer
        · exact hother.trans htimer

/-- The first queue is flushed when its timer has run out. -/
theorem nextBatch_first {s : BatchOptimizedScheduler ν} {first : String} {r : InferenceRequest ν}
    (h : s.byModel.items.head? = some (first, [r])) {since now : Rat}
    (htimer : s.firstArrival.get? first = some since)
    (hwaited : Waited s.config.batchOptimized.maxWaitMs since now) :
    (s.nextBatch now).1 = [r] ∧ (s.nextBatch now).2.byModel = s.byModel.set first [] := by
  have hmax : 1 ≤ s.maxBatch := s.config.batchOptimized.maxBatchSize_ge
  rcases List.head?_eq_some_iff.mp h with ⟨rest, hitems⟩
  have hready : s.ready now (first, [r]) = true := by
    have hexceeded : s.config.batchOptimized.maxWaitMs ≤ (now - since) * 1000 := hwaited
    simp [ready, htimer, hexceeded]
  have hfind : s.byModel.items.find? (s.ready now) = some (first, [r]) := by
    rw [hitems, List.find?_cons, hready]
  simp [nextBatch, hfind, List.take_of_length_le, List.drop_eq_nil_of_le, hmax]

section Overshoot

variable {config : SchedulingConfig ν}

/-- More is handed over than the loop has room for. -/
def Overshoots (config : SchedulingConfig ν) (maxConcurrent : Nat) : Prop :=
  ∃ (s : BatchOptimizedScheduler ν) (now : Rat),
    AnyScheduler.Reachable config (.batchOptimized s) ∧
    maxConcurrent <
      (Server.collectBatch maxConcurrent now (fun _ => now) (.batchOptimized s)).1.length

theorem init_reachable (hstrategy : config.strategy = "batch_optimized") :
    AnyScheduler.Reachable config (.batchOptimized (init config)) :=
  .create (by simp [createScheduler, hstrategy])

/-- Full batches alone miss the limit. -/
theorem overshoots_of_not_dvd (hstrategy : config.strategy = "batch_optimized")
    {maxConcurrent : Nat} (hdvd : ¬ config.batchOptimized.maxBatchSize ∣ maxConcurrent) :
    Overshoots config maxConcurrent := by
  have hge := config.batchOptimized.maxBatchSize_ge
  let s : BatchOptimizedScheduler ν :=
    rush "b" ((maxConcurrent + 1) * config.batchOptimized.maxBatchSize) (init config)
  have hmaxs : s.maxBatch = config.batchOptimized.maxBatchSize := rush_maxBatch _ _ _
  have hpiled : s.Piled "b" (maxConcurrent + 1) := by
    refine ⟨fun modelId hne => ?_, ?_⟩
    · apply List.length_eq_zero_iff.mp
      rw [rush_queueOf, if_neg hne, init_queueOf]
      rfl
    · rw [rush_queueOf, if_pos rfl, init_queueOf, hmaxs, List.length_nil, Nat.zero_add]
  rcases hpiled.nextBatch 0 with ⟨hlength, -, hrest⟩
  rcases hrest.collectBatch (by rw [hlength, hmaxs]; exact hge) (fun _ => 0) with
    ⟨k, hcount, hle⟩
  refine ⟨s, 0, rush_reachable "b" _ (init_reachable hstrategy), ?_⟩
  rw [hcount]
  refine lt_of_le_of_ne hle fun heq => hdvd ?_
  rw [hlength, hmaxs] at heq
  rw [heq]
  exact (Nat.dvd_add_right (Nat.dvd_refl _)).mpr (Nat.dvd_mul_left _ k)

/-- A single request goes first, so that the full batches miss the limit. -/
theorem overshoots_of_dvd (hstrategy : config.strategy = "batch_optimized")
    (hbatch : 2 ≤ config.batchOptimized.maxBatchSize) {maxConcurrent : Nat}
    (hdvd : config.batchOptimized.maxBatchSize ∣ maxConcurrent) :
    Overshoots config maxConcurrent := by
  let now := config.batchOptimized.maxWaitMs / 1000
  let first : BatchOptimizedScheduler ν := rush "a" 1 (init config)
  let s := rush "b" (maxConcurrent * config.batchOptimized.maxBatchSize) first
  have hmaxs : s.maxBatch = config.batchOptimized.maxBatchSize := by
    rw [rush_maxBatch, rush_maxBatch]
    rfl
  have hreach : AnyScheduler.Reachable config (.batchOptimized s) :=
    rush_reachable "b" _ (rush_reachable "a" 1 (init_reachable hstrategy))
  rcases rush_first (show "a" ≠ "b" by decide)
    (maxConcurrent * config.batchOptimized.maxBatchSize) (s := first) rfl with ⟨hhead, htimer⟩
  have hwaited : Waited s.config.batchOptimized.maxWaitMs 0 now := by
    have hconfig : s.config = config := hreach.config_eq
    rw [hconfig]
    simp [Waited, now]
  rcases nextBatch_first hhead (htimer.trans rfl) hwaited with ⟨hout, hqueues⟩
  have hlength : ∀ modelId, modelId ≠ "a" → (s.queueOf modelId).length =
      if modelId = "b" then maxConcurrent * config.batchOptimized.maxBatchSize else 0 := by
    intro modelId hne
    rw [rush_queueOf, rush_queueOf, if_neg hne]
    simp [init_queueOf]
  have hpiled : (s.nextBatch now).2.Piled "b" maxConcurrent := by
    refine ⟨fun modelId hne => ?_, ?_⟩
    · show (s.nextBatch now).2.byModel.listAt modelId = []
      rw [hqueues, Dict.listAt_set]
      split
      · rfl
      · next hother =>
          have hzero := hlength modelId hother
          rw [if_neg hne] at hzero
          exact List.length_eq_zero_iff.mp hzero
    · show _ ≤ ((s.nextBatch now).2.byModel.listAt "b").length
      have hsame : (s.nextBatch now).2.maxBatch = s.maxBatch :=
        AnyScheduler.nextBatch_batchLimit now (.batchOptimized s)
      rw [hqueues, Dict.listAt_set, if_neg (by decide), hsame, hmaxs]
      exact (hlength "b" (by decide)).ge
  have hfirst : 1 ≤ (s.nextBatch now).1.length := by
    rw [hout]
    exact Nat.le_refl 1
  rcases hpiled.collectBatch hfirst (fun _ => now) with ⟨k, hcount, hle⟩
  refine ⟨s, now, hreach, ?_⟩
  rw [hcount]
  refine lt_of_le_of_ne hle fun heq => ?_
  rw [hout, List.length_singleton, hmaxs] at heq
  have hone : config.batchOptimized.maxBatchSize ∣ 1 :=
    (Nat.dvd_add_left (Nat.dvd_mul_left _ k)).mp (heq ▸ hdvd)
  have hle := Nat.le_of_dvd Nat.one_pos hone
  omega

/-- With a larger batch size, some scheduler is asked for more than the loop has room for. -/
theorem exists_overshoot (hstrategy : config.strategy = "batch_optimized")
    (hbatch : 2 ≤ config.batchOptimized.maxBatchSize) (maxConcurrent : Nat) :
    Overshoots config maxConcurrent := by
  by_cases hdvd : config.batchOptimized.maxBatchSize ∣ maxConcurrent
  · exact overshoots_of_dvd hstrategy hbatch hdvd
  · exact overshoots_of_not_dvd hstrategy hdvd

end Overshoot

end BatchOptimizedScheduler

namespace Server

/-! ## The limit -/

theorem batchLimit_eq_one {config : SchedulingConfig ν} {s : AnyScheduler ν}
    (h : AnyScheduler.Reachable config s)
    (hlimit : config.strategy ≠ "batch_optimized" ∨ config.batchOptimized.maxBatchSize = 1) :
    s.batchLimit = 1 := by
  have hstrategy := h.strategy_eq
  have hconfig := h.config_eq
  cases s with
  | batchOptimized s =>
      rcases hlimit with hother | hone
      · exact absurd hstrategy.symm hother
      · rw [← hone, ← hconfig]
        rfl
  | _ => rfl

/-- The other parts of the law hold whatever the sizes. -/
theorem handsOver_of_length {config : InferentialConfig ν} {first : Rat} {clock : Nat → Rat}
    {dispatchTime : Rat} {s : Server ν} (hinv : AccountedScheduler.Inv s.scheduler)
    (hlegacy : s.legacy = .top) {batch : List (InferenceRequest ν)}
    (hbatch : (s.legacyTop config first clock dispatchTime).legacy = .dispatching batch)
    (hlength : batch.length ≤ config.scheduling.maxConcurrentDispatch) :
    HandsOver config.scheduling.maxConcurrentDispatch s.scheduler
      (s.legacyTop config first clock dispatchTime).scheduler batch := by
  have hcollected := legacyTop_cases config first clock dispatchTime hlegacy hbatch
  have hperm := (collectBatch_spec config.scheduling.maxConcurrentDispatch first clock hinv).2
  have hcalls := collectBatch_calls config.scheduling.maxConcurrentDispatch first clock s.scheduler
  rw [hcollected] at hperm hcalls
  refine ⟨hlength, fun hnodup => ?_, hcalls, hperm⟩
  have hsplit := (hperm.map InferenceRequest.objId).nodup_iff.mp hnodup
  rw [List.map_append] at hsplit
  exact (List.nodup_append.mp hsplit).1

/-- Every reachable iteration stays within the limit exactly when no call of `next_batch` can return
more than one request.  In a run no batch holds a request twice in any case. -/
theorem dispatches_within_iff (config : InferentialConfig ν) :
    ((∀ s : Server ν, AnyScheduler.Reachable config.scheduling s.scheduler →
        s.DispatchesWithin config) ↔
      config.scheduling.strategy ≠ "batch_optimized" ∨
        config.scheduling.batchOptimized.maxBatchSize = 1) ∧
    ∀ pb s₀ actions, init config = .ok s₀ → Follows config pb WellAnswered s₀ actions →
      ∀ first clock dispatchTime batch, (run config pb s₀ actions).legacy = .top →
        ((run config pb s₀ actions).legacyTop config first clock dispatchTime).legacy =
          .dispatching batch → (batch.map InferenceRequest.objId).Nodup := by
  have hmax := config.scheduling.maxConcurrentDispatch_ge
  refine ⟨⟨fun hwithin => ?_, fun hlimit s hreach => ?_⟩, ?_⟩
  · by_contra hnot
    simp only [not_or, not_not] at hnot
    have hbatch : 2 ≤ config.scheduling.batchOptimized.maxBatchSize := by
      have hge := config.scheduling.batchOptimized.maxBatchSize_ge
      omega
    rcases BatchOptimizedScheduler.exists_overshoot (ν := ν) hnot.1 hbatch
      config.scheduling.maxConcurrentDispatch with ⟨t, now, hreach, hover⟩
    -- a server whose scheduler got there
    let s : Server ν := {
      scheduler := .batchOptimized t
      cadence := {
        alpha := config.responseTracking.cadenceAlpha
        overdueMultiplier := config.responseTracking.overdueMultiplier }
      metrics := .init config.metrics }
    have hne := List.length_pos_iff.mp (Nat.zero_lt_of_lt hover)
    have hbatch' := legacyTop_dispatching config now (s := s) rfl rfl hne
    exact absurd (hwithin s hreach now _ now _ rfl hbatch').limit (not_le.mpr hover)
  · intro first clock dispatchTime batch hlegacy hbatch
    have hinv : AccountedScheduler.Inv s.scheduler := hreach.inv
    have hlength := collectBatch_length_le hmax first clock hinv
    rw [legacyTop_cases config first clock dispatchTime hlegacy hbatch,
      batchLimit_eq_one hreach hlimit] at hlength
    exact handsOver_of_length hinv hlegacy hbatch (hlength.trans_eq (Nat.sub_add_cancel hmax))
  · intro pb s₀ actions hinit hanswered first clock dispatchTime batch hlegacy hbatch
    have hdelivering : Delivering config (run config pb s₀ actions) :=
      run_keeps (fun s a ha hs => hs.step ha) hanswered (init_delivering hinit)
    have hinv : AccountedScheduler.Inv (run config pb s₀ actions).scheduler :=
      hdelivering.wired.scheduler
    have hcollected := legacyTop_cases config first clock dispatchTime hlegacy hbatch
    have hperm := (collectBatch_spec config.scheduling.maxConcurrentDispatch first clock hinv).2
    rw [hcollected] at hperm
    have hplaces := objIds_nodup hdelivering.sound
    rw [List.map_append] at hplaces
    have hsplit := (hperm.map InferenceRequest.objId).nodup_iff.mp (List.nodup_append.mp hplaces).1
    rw [List.map_append] at hsplit
    exact (List.nodup_append.mp hsplit).1

/-- Under the default configuration, the request of a first observation is dispatched. -/
theorem dispatches_within_plain :
    (∀ s : Server Rat, AnyScheduler.Reachable plainConfig.scheduling s.scheduler →
      s.DispatchesWithin plainConfig) ∧
    ∃ batch, ((run plainConfig plainMessages plainServer [arriveAt 0 0]).legacyTop plainConfig 0
        (fun _ => 0) 0).legacy = .dispatching batch ∧
      batch.length = 1 ∧ (batch.map InferenceRequest.objId).Nodup := by
  refine ⟨(dispatches_within_iff plainConfig).1.mpr (.inl (by decide)), _, rfl, rfl, ?_⟩
  exact (dispatches_within_iff plainConfig).2 plainMessages plainServer [arriveAt 0 0] rfl
    ⟨trivial, trivial⟩ 0 (fun _ => 0) 0 _ rfl rfl

def batchingConfig : InferentialConfig Rat :=
  { plainConfig with
    scheduling := { plainConfig.scheduling with strategy := "batch_optimized" } }

/-- A request for the model `a` and eight for `b` arrive at time 0. -/
def nineWaiting : AnyScheduler Rat :=
  (List.range 9).foldl
    (fun s n => (Scheduler.submit (AnyScheduler.momentAt 0)
      (BatchOptimizedScheduler.waitingRequest (if n = 0 then "a" else "b") n) s).state)
    (.batchOptimized (.init batchingConfig.scheduling))

/-- After ten milliseconds the single request and the full batch are dispatched together. -/
theorem nine_dispatched :
    let s : Server Rat := { plainServer with scheduler := nineWaiting }
    batchingConfig.scheduling.maxConcurrentDispatch = 8 ∧
    AnyScheduler.Reachable batchingConfig.scheduling nineWaiting ∧
    (∃ batch, (s.legacyTop batchingConfig (10 / 1000) (fun _ => 10 / 1000) (10 / 1000)).legacy =
      .dispatching batch ∧ batch.length = 9) ∧
    ¬ s.DispatchesWithin batchingConfig := by
  intro s
  have hreach : ∀ n, AnyScheduler.Reachable batchingConfig.scheduling
      ((List.range n).foldl
        (fun s n => (Scheduler.submit (AnyScheduler.momentAt 0)
          (BatchOptimizedScheduler.waitingRequest (if n = 0 then "a" else "b") n) s).state)
        (.batchOptimized (.init batchingConfig.scheduling))) := by
    intro n
    induction n with
    | zero => exact .create rfl
    | succ n ih =>
        rw [List.range_succ, List.foldl_append]
        exact .call {} (.submit (AnyScheduler.momentAt 0)
          (BatchOptimizedScheduler.waitingRequest (if n = 0 then "a" else "b") n)) ih
  have hnine : ∃ batch, (s.legacyTop batchingConfig (10 / 1000) (fun _ => 10 / 1000)
      (10 / 1000)).legacy = .dispatching batch ∧ batch.length = 9 := by
    have hlength : (collectBatch 8 (10 / 1000) (fun _ => 10 / 1000) nineWaiting).1.length = 9 := by
      decide +kernel
    refine ⟨_, legacyTop_dispatching batchingConfig (10 / 1000) rfl rfl ?_, hlength⟩
    exact List.length_pos_iff.mp (hlength.symm ▸ Nat.succ_pos 8)
  refine ⟨rfl, hreach 9, hnine, fun hwithin => ?_⟩
  rcases hnine with ⟨batch, hbatch, hlength⟩
  have hlimit := (hwithin _ _ _ batch rfl hbatch).limit
  rw [hlength] at hlimit
  exact absurd hlimit (by decide)

end Server
end Inferential
