import Inferential.Server.Calls
import Mathlib.Data.Fintype.EquivFin

/-!
# Ownership — which loops take requests

The single loop yields to the loops of the models only when the pipeline is enabled, but the loops
of the models are started, and take requests, whenever the scheduler is model-aware.
-/

namespace Inferential

open PyStd

variable {ν : Type} [Score ν]

namespace Server

/-- Exactly one mechanism owns the queue. -/
structure Owned (config : InferentialConfig ν) (s : Server ν) : Prop where
  disabled : config.scheduling.pipelineDispatch.enabled = false →
    s.loops = [] ∧ ∀ t ∈ s.taken, t.1 = .legacy
  pipelined : config.scheduling.pipelineDispatch.enabled = true →
    s.scheduler.isModelAware = true → ∀ t ∈ s.taken, t.1 = .model t.2.modelId
  notBoth : ¬ ((∃ t ∈ s.taken, t.1 = .legacy) ∧ ∃ t ∈ s.taken, t.1 ≠ .legacy)

section Runs

variable {config : InferentialConfig ν} {pb : Protobuf ν} {s : Server ν} {a : Action ν}

/-! ## A scheduler that is not model-aware -/

/-- The single loop is alone. -/
structure SingleLoop (s : Server ν) : Prop where
  aware : s.scheduler.isModelAware = false
  loops : s.loops = []
  taken : ∀ t ∈ s.taken, t.1 = .legacy
  inv : AccountedScheduler.Inv s.scheduler

theorem SingleLoop.step (h : SingleLoop s) (ha : ¬ a.IsSwap) :
    SingleLoop (step config pb s a) where
  aware := (step_called config pb s ha).isModelAware.trans h.aware
  loops := by
    have hlength := step_loops_length config pb s a fun _ => h.aware
    rw [h.loops, List.length_nil] at hlength
    exact List.length_eq_zero_iff.mp hlength
  taken := by
    intro t ht
    rcases step_taken config pb s a h.inv t ht with hold | ⟨howner, -⟩ | ⟨loop, hloop, -⟩
    · exact h.taken t hold
    · exact howner
    -- there is no loop of a model that could have taken it
    · simp [h.loops] at hloop
  inv := step_inv config pb s a h.inv

theorem SingleLoop.owned (h : SingleLoop s) : Owned config s where
  disabled _ := ⟨h.loops, h.taken⟩
  pipelined _ haware := by simp [h.aware] at haware
  notBoth := by
    rintro ⟨-, t, ht, hne⟩
    exact hne (h.taken t ht)

/-! ## An enabled pipeline and a model-aware scheduler -/

/-- The single loop yields, and the loops of the models take requests of their own. -/
structure ModelLoops (config : InferentialConfig ν) (s : Server ν) : Prop where
  enabled : config.scheduling.pipelineDispatch.enabled = true
  aware : s.scheduler.isModelAware = true
  taken : ∀ t ∈ s.taken, t.1 = .model t.2.modelId
  inv : AccountedScheduler.Inv s.scheduler

theorem ModelLoops.step (h : ModelLoops config s) (ha : ¬ a.IsSwap) :
    ModelLoops config (step config pb s a) where
  enabled := h.enabled
  aware := (step_called config pb s ha).isModelAware.trans h.aware
  taken := by
    intro t ht
    rcases step_taken config pb s a h.inv t ht with
      hold | ⟨-, hyields⟩ | ⟨loop, -, howner, hmodel⟩
    · exact h.taken t hold
    -- the single loop yields
    · simp [h.enabled, h.aware] at hyields
    · rw [howner, hmodel]
  inv := step_inv config pb s a h.inv

theorem ModelLoops.owned (h : ModelLoops config s) : Owned config s where
  disabled hdisabled := by simp [h.enabled] at hdisabled
  pipelined _ _ := h.taken
  notBoth := by
    rintro ⟨⟨t, ht, howner⟩, -⟩
    rw [h.taken t ht] at howner
    cases howner

end Runs

/-! ## A loop that nobody asked for -/

/-- The first accepted observation of a model starts its loop, whatever the pipeline option says. -/
theorem submitRequest_starts (config : InferentialConfig ν) (m : Moment ν) {s : Server ν}
    {r : InferenceRequest ν} (haware : s.scheduler.isModelAware = true)
    (hraised : (Scheduler.submit m r s.scheduler).raised = none)
    (hnew : s.modelEvents.contains r.modelId = false) :
    (s.submitRequest config m r).loops ≠ [] := by
  have hlength : (s.submitRequest config m r).loops.length = s.loops.length + 1 := by
    have haware' : (Scheduler.submit m r s.scheduler).state.isModelAware = true := by simp [haware]
    simp only [submitRequest, hraised, haware', if_true]
    rw [setEvent_length]
    simp [ensureModelDispatch, hnew]
  intro hnil
  simp [hnil] at hlength

/-- An observation without tensors. -/
def bareObservation (clientId : String) : Observation ν where
  client := some clientId
  timestampNs := 0
  urgency := ((0 : Rat) : ν)
  tensors := []
  modelId := "policy"
  stepsRemaining := none
  metadata := Dict.empty
  priority := 1

/-- Every envelope holds this observation. -/
def bareMessages (clientId : String) : Protobuf ν where
  parseObservation _ := .ok (bareObservation clientId)
  serializeResponse _ := []
  keyError := ""

/-- Some client is not listed, and has the default budget. -/
theorem exists_unlisted (config : InferentialConfig ν) :
    ∃ clientId : String, clientId ≠ "" ∧
      Score.isZero (config.getClientBudget clientId) = false := by
  -- the list of known clients is finite, and there are infinitely many names
  obtain ⟨clientId, hclient⟩ :=
    Infinite.exists_notMem_finset ("" :: config.clients.known.map ClientEntry.id).toFinset
  simp only [List.mem_toFinset, List.mem_cons, not_or, List.mem_map, not_exists, not_and] at hclient
  refine ⟨clientId, hclient.1, ?_⟩
  have hnone : config.clients.known.findSome? (fun entry =>
      if entry.id = clientId then entry.latencyBudgetMs else none) = none := by
    rw [List.findSome?_eq_none_iff]
    intro entry hentry
    rw [if_neg (hclient.2 entry hentry)]
  rw [InferentialConfig.getClientBudget, hnone]
  exact Score.isZero_of_pos config.clients.defaults.latencyBudgetMs_gt

/-- A request with a budget is queued by a fresh `model_deadline` scheduler. -/
theorem fresh_accepts (config : SchedulingConfig ν) (m : Moment ν) {r : InferenceRequest ν}
    (hbudget : Score.isZero r.latencyBudgetMs = false) :
    (Scheduler.submit m r
      (AnyScheduler.modelDeadline (ModelDeadlineScheduler.init config))).raised = none := by
  have hroom : Scheduler.queueLen
      (AnyScheduler.modelDeadline (ModelDeadlineScheduler.init config)) <
        (config.maxQueueSize : Int) := by
    have hempty : Scheduler.queueLen
      (AnyScheduler.modelDeadline (ModelDeadlineScheduler.init config)) = 0 := rfl
    rw [hempty]
    exact_mod_cast config.maxQueueSize_ge
  rw [AccountedScheduler.submit_room m r hroom]
  by_contra hraised
  obtain ⟨e, hscore⟩ := (AnyScheduler.resubmit_raised_iff m r _).mp hraised
  simp [ModelDeadlineScheduler.computeScore, ModelDeadlineScheduler.init, scoreWith, weightedScore,
    hbudget] at hscore

/-- With the `model_deadline` strategy some run starts a loop. -/
theorem exists_started (config : InferentialConfig ν)
    (hstrategy : config.scheduling.strategy = "model_deadline") :
    ∃ (pb : Protobuf ν) (s₀ : Server ν) (a : Action ν), init config = .ok s₀ ∧ ¬ a.IsSwap ∧
      (run config pb s₀ [a]).loops ≠ [] := by
  -- the budget must not be zero, or scoring raises and no loop is started
  obtain ⟨clientId, hclient, hbudget⟩ := exists_unlisted config
  have hcreate : createScheduler config.scheduling =
      .ok (.modelDeadline (ModelDeadlineScheduler.init config.scheduling)) := by
    simp [createScheduler, hstrategy]
  let msg : IncomingObservation := ⟨[], [], [], 0⟩
  let clock : ReceiveClock := ⟨0, 0, 0⟩
  let m : Moment ν := ⟨0, fun _ _ => .ok ((0 : Rat) : ν)⟩
  refine ⟨bareMessages clientId, _, .receive msg clock m, by rw [init, hcreate], by
    simp [Action.IsSwap], ?_⟩
  generalize hs₀ : ({ scheduler := .modelDeadline (ModelDeadlineScheduler.init config.scheduling)
                      cadence := _
                      metrics := _ } : Server ν) = s₀
  obtain ⟨decoded, hdecode, hdecoded⟩ : ∃ decoded : DecodedObservation ν,
      decode (bareMessages clientId) clock.nowNs msg.envelope msg.payload msg.receivedAt =
        .ok decoded ∧ decoded.clientId = clientId := by
    simp [decode, bareMessages, bareObservation, hclient, slotInfos, validateSlots]
  have hscheduler : (s₀.track msg decoded clock.tracked).scheduler =
      .modelDeadline (ModelDeadlineScheduler.init config.scheduling) := by
    cases hnew : (s₀.clients.onObservation decoded.clientId decoded.modelId).1 <;>
      simp [track, record, log, ← hs₀] <;> rfl
  obtain ⟨_, _, _, _, _, htrack⟩ := track_frame msg decoded clock.tracked s₀
  have hevents : (s₀.track msg decoded clock.tracked).modelEvents = Dict.empty :=
    (congrArg modelEvents htrack).trans (by simp [← hs₀])
  show (s₀.receive config (bareMessages clientId) msg clock m).loops ≠ []
  rw [receive_accepted config (bareMessages clientId) clock hdecode]
  refine submitRequest_starts config m ?_ ?_ ?_
  · simp [log, hscheduler, AnyScheduler.isModelAware]
  · simp only [log, hscheduler]
    refine fresh_accepts config.scheduling m ?_
    simpa [requestOf, buildRequest, hdecoded] using hbudget
  · simp only [log, hevents]
    rfl

/-! ## When there is one owner -/

theorem run_owned {config : InferentialConfig ν} {pb : Protobuf ν} {s₀ : Server ν}
    (hinit : init config = .ok s₀)
    (howner : config.scheduling.pipelineDispatch.enabled = true ∨
      config.scheduling.strategy ≠ "model_deadline")
    {actions : List (Action ν)} (hswapless : ∀ a ∈ actions, ¬ a.IsSwap) :
    Owned config (run config pb s₀ actions) := by
  have hfollows : Follows config pb (fun _ a => ¬ a.IsSwap) s₀ actions :=
    follows_of_forall hswapless s₀
  unfold init at hinit
  split at hinit
  · cases hinit
  · next scheduler hcreate =>
      have hinv := (AnyScheduler.createScheduler_fresh hcreate).1
      cases haware : scheduler.isModelAware with
      | false =>
          cases hinit
          have hsingle : SingleLoop (run config pb _ actions) :=
            run_keeps (fun s a ha h => h.step ha) hfollows ⟨haware, rfl, by simp [taken], hinv⟩
          exact hsingle.owned
      | true =>
          have henabled : config.scheduling.pipelineDispatch.enabled = true :=
            howner.resolve_right fun hne =>
              hne ((AnyScheduler.createScheduler_aware hcreate).mp haware)
          cases hinit
          have hmodels : ModelLoops config (run config pb _ actions) :=
            run_keeps (fun s a ha h => h.step ha) hfollows
              ⟨henabled, haware, by simp [taken], hinv⟩
          exact hmodels.owned

/-- Every run of a configuration without swaps has one owner of the queue exactly when the pipeline
is enabled or the strategy is not `model_deadline`. -/
theorem owned_iff (config : InferentialConfig ν) :
    (∀ (pb : Protobuf ν) (s₀ : Server ν) (actions : List (Action ν)), init config = .ok s₀ →
      (∀ a ∈ actions, ¬ a.IsSwap) → Owned config (run config pb s₀ actions)) ↔
    config.scheduling.pipelineDispatch.enabled = true ∨
      config.scheduling.strategy ≠ "model_deadline" := by
  constructor
  · intro howned
    by_contra hneither
    rw [not_or, Bool.not_eq_true, not_not] at hneither
    -- a run of one observation starts a loop although the pipeline is disabled
    obtain ⟨pb, s₀, a, hinit, ha, hloops⟩ := exists_started config hneither.2
    have hrun := howned pb s₀ [a] hinit (by simpa using ha)
    exact hloops (hrun.disabled hneither.1).1
  · intro howner pb s₀ actions hinit hswapless
    exact run_owned hinit howner hswapless

/-! ### Two owners -/

/-- With the default configuration the loop of a model takes one request and waits for the next,
which the single loop finds first. -/
theorem default_not_owned :
    let s := run plainConfig plainMessages plainServer [
      arriveAt 0 0, .loopAcquire 0, .loopProceed 0 0,
      -- no second request: the event of the first one is cleared, and the loop waits
      .loopAcquire 0, .loopProceed 0 0, .loopResume 0 true, .loopAcquire 0, .loopProceed 0 0,
      .taskStart 0, arriveAt 1 0, .legacyTop 1 (fun _ => 1) 1]
    init plainConfig = .ok plainServer ∧ s.loops.length = 1 ∧
      s.taken.map Prod.fst = [.model "policy", .legacy] ∧ ¬ Owned plainConfig s := by
  intro s
  have hloops : s.loops.length = 1 := by decide +kernel
  refine ⟨rfl, hloops, by decide +kernel, fun howned => ?_⟩
  rw [(howned.disabled rfl).1] at hloops
  cases hloops

end Server
end Inferential
