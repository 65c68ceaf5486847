import Inferential.Scheduler.BatchTimers
import Inferential.Scheduler.Strategies

/-!
# Readiness — when `next_batch` returns something

Five of the schedulers return a request whenever they hold one.  `batch_optimized` waits for a timer;
since every queue that holds something has one, it returns a batch once all of them have run out.
-/

namespace Inferential

open PyStd

variable {ν : Type} [Score ν]

namespace BatchOptimizedScheduler

/-- Every queue that holds something has a timer. -/
def Armed (s : BatchOptimizedScheduler ν) : Prop :=
  ∀ modelId, s.queueOf modelId ≠ [] → (s.firstArrival.get? modelId).isSome

/-- At `t` all timers have run out. -/
def RunOut (t : Rat) (s : BatchOptimizedScheduler ν) : Prop :=
  ∀ modelId first, s.firstArrival.get? modelId = some first →
    Waited s.config.batchOptimized.maxWaitMs first t

variable {s : BatchOptimizedScheduler ν}

/-! ## What the calls keep -/

theorem Armed.init (config : SchedulingConfig ν) : (init config).Armed :=
  fun _ hne => absurd rfl hne

theorem Armed.resubmit (h : s.Armed) (now : Rat) (r : InferenceRequest ν) :
    (s.resubmit now r).state.Armed := by
  intro modelId hne
  rw [resubmit_firstArrival]
  split
  · simp
  · next hother =>
      have hqueue : (s.resubmit now r).state.queueOf modelId = s.queueOf modelId := by
        simp only [queueOf, BatchOptimizedScheduler.resubmit, Dict.listAt_set, if_neg hother]
      exact h modelId (hqueue ▸ hne)

theorem Armed.dropOldest (h : s.Armed) : s.dropOldest.2.Armed := by
  unfold BatchOptimizedScheduler.dropOldest
  split
  · exact h
  · next oldestModel dropped rest hfront =>
      intro modelId hne
      simp only [queueOf, Dict.listAt_set] at hne
      simp only [get?_rearm]
      split
      · next hsame =>
          rw [if_pos hsame] at hne
          have hqueue : s.queueOf oldestModel ≠ [] := by
            simp [queueOf, oldestFront_listAt hfront]
          simpa [hne] using h oldestModel hqueue
      · next hother =>
          rw [if_neg hother] at hne
          simpa using h modelId hne

theorem Armed.nextBatch (h : s.Armed) (now : Rat) : (s.nextBatch now).2.Armed := by
  cases hflush : s.flushes now with
  | none =>
      rw [(flushes_eq_none hflush).1]
      exact h
  | some flushed =>
      rcases flushes_eq_some hflush with ⟨hready, -, hqueues, htimers⟩
      intro modelId hne
      simp only [queueOf, hqueues, Dict.listAt_set] at hne
      rw [htimers, get?_rearm]
      split
      · next hsame =>
          rw [if_pos hsame] at hne
          have hrest : ((s.queueOf flushed).drop s.maxBatch).isEmpty = false := by
            simpa [queueOf] using hne
          simp [hrest]
      · next hother =>
          rw [if_neg hother] at hne
          simpa [Dict.get?_set, hother] using h modelId hne

theorem Armed.tick (h : s.Armed) (clock : InferenceRequest ν → Rat) : (s.tick clock).2.Armed := by
  intro modelId hne
  rw [tick_firstArrival, if_neg (fun hempty => hne hempty.2)]
  apply h modelId
  intro hnil
  have hqueue : (s.tick clock).2.queueOf modelId = (s.queueOf modelId).filter _ :=
    sweep_queueOf _ s modelId
  exact hne (by rw [hqueue, hnil]; rfl)

theorem Armed.disconnected (h : s.Armed) (clientId : String) :
    (s.onClientDisconnected clientId).Armed := by
  intro modelId hne
  apply h modelId
  intro hnil
  have hqueue : (s.onClientDisconnected clientId).queueOf modelId = (s.queueOf modelId).filter _ :=
    sweep_queueOf _ s modelId
  exact hne (by rw [hqueue, hnil]; rfl)

/-- Timers are only stopped, unless something is queued or a batch is taken. -/
theorem RunOut.tick {t : Rat} (h : s.RunOut t) (clock : InferenceRequest ν → Rat) :
    (s.tick clock).2.RunOut t := by
  intro modelId first hfirst
  rw [tick_firstArrival] at hfirst
  split at hfirst
  · cases hfirst
  · exact h modelId first hfirst

theorem RunOut.mono {t t' : Rat} (h : s.RunOut t) (hle : t ≤ t') : s.RunOut t' :=
  fun modelId first hfirst => (h modelId first hfirst).mono (le_refl first) hle

/-- There is a time at which all timers have run out. -/
theorem exists_runOut (s : BatchOptimizedScheduler ν) : ∃ t, s.RunOut t := by
  have hall : ∀ items : List (String × Rat), ∃ t, ∀ item ∈ items,
      Waited s.config.batchOptimized.maxWaitMs item.2 t := by
    intro items
    induction items with
    | nil => exact ⟨0, by simp⟩
    | cons item items ih =>
        rcases ih with ⟨t, ht⟩
        refine ⟨max t (item.2 + s.config.batchOptimized.maxWaitMs / 1000), ?_⟩
        rw [List.forall_mem_cons]
        constructor
        · have hle := le_max_right t (item.2 + s.config.batchOptimized.maxWaitMs / 1000)
          unfold Waited
          linarith
        · intro other hother
          exact (ht other hother).mono (le_refl _) (le_max_left _ _)
  rcases hall s.firstArrival.items with ⟨t, ht⟩
  exact ⟨t, fun modelId first hfirst => ht (modelId, first) (Dict.get?_eq_some.mp hfirst)⟩

theorem nextBatch_of_runOut {now : Rat} (harmed : s.Armed) (hout : s.RunOut now)
    (hne : s.stored ≠ []) : (s.nextBatch now).1 ≠ [] := by
  rcases List.exists_mem_of_ne_nil _ hne with ⟨r, hr⟩
  rcases Dict.mem_flatten.mp hr with ⟨modelId, hmem⟩
  have hqueue : s.queueOf modelId ≠ [] := List.ne_nil_of_mem hmem
  rcases Option.isSome_iff_exists.mp (harmed modelId hqueue) with ⟨first, hfirst⟩
  have hready : s.ready now (modelId, s.queueOf modelId) = true := by
    refine Waiting.ready_iff.mpr ⟨hqueue, .inr ?_⟩
    rw [hfirst]
    exact hout modelId first hfirst
  exact Waiting.nextBatch_ne_nil hready

end BatchOptimizedScheduler

namespace AnyScheduler

def Armed : AnyScheduler ν → Prop
  | .batchOptimized s => s.Armed
  | _ => True

def RunOut (t : Rat) : AnyScheduler ν → Prop
  | .batchOptimized s => s.RunOut t
  | _ => True

variable {s : AnyScheduler ν}

/-! ## Every scheduler -/

theorem Armed.submit (h : s.Armed) (m : Moment ν) (r : InferenceRequest ν) :
    (Scheduler.submit m r s).state.Armed := by
  cases s with
  | batchOptimized s =>
      show (s.submit m.now r).state.Armed
      have harmed : s.Armed := h
      unfold BatchOptimizedScheduler.submit
      split
      · split
        · exact harmed.dropOldest.resubmit m.now r
        · exact harmed
      · exact harmed.resubmit m.now r
  | _ => trivial

theorem Armed.resubmit (h : s.Armed) (m : Moment ν) (r : InferenceRequest ν) :
    (Scheduler.resubmit m r s).state.Armed := by
  cases s with
  | batchOptimized s => exact BatchOptimizedScheduler.Armed.resubmit h m.now r
  | _ => trivial

theorem Armed.nextBatch (h : s.Armed) (now : Rat) : (Scheduler.nextBatch now s).2.Armed := by
  cases s with
  | batchOptimized s => exact BatchOptimizedScheduler.Armed.nextBatch h now
  | _ => trivial

theorem Armed.nextBatchForModel (h : s.Armed) (modelId : String) :
    (s.nextBatchForModel modelId).2.Armed := by
  cases s with
  | batchOptimized s => exact h
  | _ => trivial

theorem Armed.tick (h : s.Armed) (clock : InferenceRequest ν → Rat) :
    (Scheduler.tick clock s).2.Armed := by
  cases s with
  | batchOptimized s => exact BatchOptimizedScheduler.Armed.tick h clock
  | _ => trivial

theorem Armed.connected (h : s.Armed) (clientId : String) :
    (Scheduler.onClientConnected clientId s).Armed := by
  cases s with
  | batchOptimized s => exact h
  | _ => trivial

theorem Armed.disconnected (h : s.Armed) (clientId : String) :
    (Scheduler.onClientDisconnected clientId s).Armed := by
  cases s with
  | batchOptimized s => exact BatchOptimizedScheduler.Armed.disconnected h clientId
  | _ => trivial

/-- A fresh scheduler has nothing to wait for. -/
theorem createScheduler_armed {config : SchedulingConfig ν} (h : createScheduler config = .ok s) :
    s.Armed ∧ ∀ t, s.RunOut t := by
  rcases createScheduler_cases h with
    ⟨-, rfl⟩ | ⟨-, rfl⟩ | ⟨-, rfl⟩ | ⟨-, rfl⟩ | ⟨-, rfl⟩ | ⟨-, rfl⟩
  · exact ⟨BatchOptimizedScheduler.Armed.init config, fun _ _ _ hfirst => nomatch hfirst⟩
  all_goals exact ⟨trivial, fun _ => trivial⟩

theorem exists_runOut (s : AnyScheduler ν) : ∃ t, s.RunOut t := by
  cases s with
  | batchOptimized s => exact s.exists_runOut
  | _ => exact ⟨0, trivial⟩

theorem RunOut.mono {t t' : Rat} (h : s.RunOut t) (hle : t ≤ t') : s.RunOut t' := by
  cases s with
  | batchOptimized s => exact BatchOptimizedScheduler.RunOut.mono h hle
  | _ => trivial

/-! ### Timers that have run out -/

section RunOut

variable {t : Rat}

theorem RunOut.tick (h : s.RunOut t) (clock : InferenceRequest ν → Rat) :
    (Scheduler.tick clock s).2.RunOut t := by
  cases s with
  | batchOptimized s => exact BatchOptimizedScheduler.RunOut.tick h clock
  | _ => trivial

theorem RunOut.disconnected (h : s.RunOut t) (clientId : String) :
    (Scheduler.onClientDisconnected clientId s).RunOut t := by
  cases s with
  | batchOptimized s => exact h
  | _ => trivial

theorem RunOut.nextBatchForModel (h : s.RunOut t) (modelId : String) :
    (s.nextBatchForModel modelId).2.RunOut t := by
  cases s with
  | batchOptimized s => exact h
  | _ => trivial

/-- A turn that takes nothing starts no timer. -/
theorem RunOut.nextBatch_nil (h : s.RunOut t) {now : Rat}
    (hnil : (Scheduler.nextBatch now s).1 = []) : (Scheduler.nextBatch now s).2.RunOut t := by
  cases s with
  | batchOptimized s =>
      show (s.nextBatch now).2.RunOut t
      cases hflush : s.flushes now with
      | none =>
          rw [(BatchOptimizedScheduler.flushes_eq_none hflush).1]
          exact h
      | some flushed =>
          rcases BatchOptimizedScheduler.flushes_eq_some hflush with ⟨hready, -⟩
          exact absurd hnil (BatchOptimizedScheduler.Waiting.nextBatch_ne_nil hready)
  | _ => trivial

theorem RunOut.usePolicy {registered : String → Bool} {policyName : String} {s' : AnyScheduler ν}
    (huse : s.usePolicy registered policyName = .ok s') (h : s.RunOut t) : s'.RunOut t := by
  rcases usePolicy_cases huse with ⟨t, rfl, rfl⟩ | ⟨t, rfl, rfl⟩ | ⟨t, rfl, rfl⟩ | rfl
  · trivial
  · trivial
  · trivial
  · exact h

end RunOut

theorem Armed.usePolicy {registered : String → Bool} {policyName : String} {s' : AnyScheduler ν}
    (huse : s.usePolicy registered policyName = .ok s') (h : s.Armed) : s'.Armed := by
  rcases usePolicy_cases huse with ⟨t, rfl, rfl⟩ | ⟨t, rfl, rfl⟩ | ⟨t, rfl, rfl⟩ | rfl
  · trivial
  · trivial
  · trivial
  · exact h

/-- Once the timers have run out, only an empty scheduler returns nothing. -/
theorem nextBatch_of_runOut {now : Rat} (hinv : s.Inv) (harmed : s.Armed) (hout : s.RunOut now)
    (hne : s.stored ≠ []) : (Scheduler.nextBatch now s).1 ≠ [] := by
  cases s with
  | batchOptimized s => exact BatchOptimizedScheduler.nextBatch_of_runOut harmed hout hne
  | deadlineAware s => exact mt (DeadlineAwareScheduler.nextBatch_eq_nil s).mp hne
  | modelDeadline s =>
      show s.nextBatch.1 ≠ []
      rcases s.nextBatch_spec with ⟨hnil, -⟩ | ⟨modelId, hheap, heq⟩
      · exact absurd hnil hne
      · rcases ModelDeadlineScheduler.nextBatchForModel_spec modelId s with
          ⟨hnil, -⟩ | ⟨item, heap, -, hitem⟩
        · exact absurd hnil hheap
        · simp [heq, hitem]
  | priorityTiered s => exact mt (PriorityTieredScheduler.nextBatch_eq_nil hinv).mp hne
  | roundRobin s => exact mt (RoundRobinScheduler.nextBatch_eq_nil hinv).mp hne
  | tieredDeadline s =>
      show s.nextBatch.1 ≠ []
      rcases s.nextBatch_cases with ⟨hnil, -⟩ | ⟨item, s', heq, -⟩
      · exact absurd hnil hne
      · simp [heq]

end AnyScheduler
end Inferential
