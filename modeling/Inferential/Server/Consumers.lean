import Inferential.Machine.Guarded
import Inferential.Server.Attempts
import Inferential.Server.Permits

/-!
# Consumers — who takes the requests of a model

Under a model-aware scheduler a request is taken by the loop of its model.  The loops are started by
the receive loop, but the single loop can queue a request again as well, after a swap.
-/

namespace Inferential

open PyStd

variable {ν : Type} [Score ν]

namespace Server

/-- The model has an event, and the loop that waits for it. -/
def HasLoop (modelId : String) (s : Server ν) : Prop :=
  ∃ i loop, s.modelEvents.get? modelId = some i ∧ s.loops[i]? = some loop ∧ loop.modelId = modelId

/-- Under a model-aware scheduler every queued request has a consumer. -/
def Consumed (s : Server ν) : Prop :=
  s.scheduler.isModelAware = true → ∀ r ∈ stored s.scheduler, s.HasLoop r.modelId

/-- The single loop queues a failed request again, and no loop takes the requests of its model. -/
def Orphans (config : InferentialConfig ν) (s : Server ν) : Action ν → Prop
  | .legacyResult _ _ m => s.scheduler.isModelAware = true ∧ ∃ batch result results req,
      s.legacy = .processing batch (result :: results) ∧ result.success = false ∧
        originalOf batch result.reqId = some req ∧ mayRetry config req = true ∧
        ¬ s.scheduler.ScoreRaises m (retried req) ∧ s.modelEvents.contains req.modelId = false
  | _ => False

/-! ## The queue after a step -/

section Queues

variable (config : InferentialConfig ν) (pb : Protobuf ν)

theorem modelId_of_unstamped {queued r : InferenceRequest ν}
    (h : queued.unstamped = r.unstamped) : queued.modelId = r.modelId := by
  have hmodel := congrArg InferenceRequest.modelId h
  simpa [InferenceRequest.unstamped] using hmodel

/-- After a call of `resubmit` only the request itself is new. -/
theorem resubmit_stored (m : Moment ν) (r : InferenceRequest ν) {q : AnyScheduler ν}
    (hinv : AccountedScheduler.Inv q) {queued : InferenceRequest ν}
    (hqueued : queued ∈ stored (Scheduler.resubmit m r q).state) :
    queued ∈ stored q ∨ (Scheduler.resubmit m r q).raised = none ∧ queued.modelId = r.modelId := by
  rcases AccountedScheduler.resubmit_spec m r hinv with ⟨-, -, hrequeues⟩
  cases hraised : (Scheduler.resubmit m r q).raised with
  | some e =>
      have hsame := hrequeues.refused (by simp [hraised])
      exact Or.inl (hsame ▸ hqueued)
  | none =>
      rcases hrequeues.accepted hraised with ⟨new, hunstamped, hperm⟩
      rcases List.mem_cons.mp (hperm.mem_iff.mp hqueued) with rfl | hold
      · exact Or.inr ⟨rfl, modelId_of_unstamped hunstamped⟩
      · exact Or.inl hold

theorem submit_stored (m : Moment ν) (r : InferenceRequest ν) {q : AnyScheduler ν}
    (hinv : AccountedScheduler.Inv q) {queued : InferenceRequest ν}
    (hqueued : queued ∈ stored (Scheduler.submit m r q).state) :
    queued ∈ stored q ∨ (Scheduler.submit m r q).raised = none ∧ queued.modelId = r.modelId := by
  rcases submit_spec m r hinv with ⟨-, -, kept, hdrop, haccept, hrefuse⟩
  have hkept : ∀ r' ∈ kept, r' ∈ stored q := by
    intro r' hr'
    exact hdrop.mem_iff.mpr (List.mem_append_right _ hr')
  cases hraised : (Scheduler.submit m r q).raised with
  | some e =>
      have hperm := hrefuse (by simp [hraised])
      exact Or.inl (hkept queued (hperm.mem_iff.mp hqueued))
  | none =>
      rcases haccept hraised with ⟨new, hunstamped, hperm⟩
      rcases List.mem_cons.mp (hperm.mem_iff.mp hqueued) with rfl | hold
      · exact Or.inr ⟨rfl, modelId_of_unstamped hunstamped⟩
      · exact Or.inl (hkept queued hold)

/-- A batch is taken out of the queue. -/
theorem nextBatch_stored (now : Rat) {q : AnyScheduler ν} (hinv : AccountedScheduler.Inv q) :
    stored (Scheduler.nextBatch now q).2 ⊆ stored q := by
  intro r hr
  rcases AccountedScheduler.nextBatch_spec now hinv with ⟨-, -, hperm⟩
  exact hperm.mem_iff.mpr (List.mem_append_right _ hr)

theorem collectBatch_stored (maxConcurrent : Nat) (first : Rat) (clock : Nat → Rat)
    {q : AnyScheduler ν} (hinv : AccountedScheduler.Inv q) :
    stored (collectBatch maxConcurrent first clock q).2 ⊆ stored q := by
  intro r hr
  have hperm := (collectBatch_spec maxConcurrent first clock hinv).2
  exact hperm.mem_iff.mpr (List.mem_append_right _ hr)

theorem tick_stored (expiry : InferenceRequest ν → Rat) (now : String → Rat) {s : Server ν}
    (hinv : AccountedScheduler.Inv s.scheduler) :
    stored (s.tick config expiry now).scheduler ⊆ stored s.scheduler := by
  -- each client that is silent takes more requests away
  have hchecks : ∀ (clientIds : List String) (s₁ : Server ν),
      AccountedScheduler.Inv s₁.scheduler → stored (clientIds.foldl
        (fun s clientId => s.checkClient config (now clientId) clientId) s₁).scheduler ⊆
          stored s₁.scheduler := by
    intro clientIds
    induction clientIds with
    | nil => exact fun _ _ _ hr => hr
    | cons clientId clientIds ih =>
        intro s₁ hinv₁
        have hcheck : AccountedScheduler.Inv
            (s₁.checkClient config (now clientId) clientId).scheduler ∧
              stored (s₁.checkClient config (now clientId) clientId).scheduler ⊆
                stored s₁.scheduler := by
          unfold checkClient
          split
          · rcases AccountedScheduler.disconnected_spec clientId hinv₁ with ⟨hinv', -, hperm⟩
            refine ⟨hinv', ?_⟩
            intro r hr
            exact List.mem_of_mem_filter (hperm.mem_iff.mp hr)
          · exact ⟨hinv₁, fun _ hr => hr⟩
        exact fun r hr => hcheck.2 (ih _ hcheck.1 hr)
  rcases AccountedScheduler.tick_spec expiry hinv with ⟨hinv', -, hperm, -⟩
  have hexpired : stored (Scheduler.tick expiry s.scheduler).2 ⊆ stored s.scheduler := by
    intro r hr
    exact List.mem_of_mem_filter (hperm.mem_iff.mp hr)
  unfold tick
  dsimp only
  split
  · exact fun r hr => hexpired (hchecks _ _ hinv' hr)
  · exact fun r hr => hexpired (hchecks _ _ hinv' hr)

/-- The request that a step queues again is of this model. -/
def Requeues (s : Server ν) (modelId : String) : Action ν → Prop
  | .legacyResult _ _ m => ∃ batch result results req,
      s.legacy = .processing batch (result :: results) ∧ result.success = false ∧
        originalOf batch result.reqId = some req ∧ mayRetry config req = true ∧
        ¬ s.scheduler.ScoreRaises m (retried req) ∧ req.modelId = modelId
  | .taskResult _ _ _ _ => ∃ task ∈ s.tasks, task.request.modelId = modelId
  | _ => False

theorem requeue_stored (m : Moment ν) (r : InferenceRequest ν) {s : Server ν}
    (hinv : AccountedScheduler.Inv s.scheduler) {queued : InferenceRequest ν}
    (hqueued : queued ∈ stored (Scheduler.resubmit m (retried r) s.scheduler).state) :
    queued ∈ stored s.scheduler ∨
      ¬ s.scheduler.ScoreRaises m (retried r) ∧ r.modelId = queued.modelId := by
  rcases resubmit_stored m (retried r) hinv hqueued with hold | ⟨hraised, hmodel⟩
  · exact Or.inl hold
  · refine Or.inr ⟨?_, hmodel.symm⟩
    intro hscore
    exact (AnyScheduler.resubmit_raised_iff m (retried r) s.scheduler).mpr hscore hraised

/-- Among what the dispatch loops do, only a retry brings a request into the queue. -/
theorem Effect.stored {config : InferentialConfig ν} {s : Server ν} {a : Action ν}
    {scheduler : AnyScheduler ν} {events : List (Event ν)}
    (h : Effect config s a scheduler events) (hinv : AccountedScheduler.Inv s.scheduler) :
    ∀ r ∈ AccountedScheduler.stored scheduler,
      r ∈ AccountedScheduler.stored s.scheduler ∨ Requeues config s r.modelId a := by
  intro r hr
  cases h with
  | progress _ _ _ => exact Or.inl hr
  | collect first clock dispatchTime batch howns =>
      exact Or.inl (collectBatch_stored _ first clock hinv hr)
  | take i now loop batch hloop hbatch =>
      have hperm := (AnyScheduler.nextBatchForModel_spec loop.modelId hinv).2.1
      exact Or.inl (hperm.mem_iff.mpr (List.mem_append_right _ hr))
  | requeue issuedAt now m hlegacy hfailed horiginal hretry ids =>
      rcases requeue_stored m _ hinv hr with hold | ⟨hscore, hmodel⟩
      · exact Or.inl hold
      · exact Or.inr ⟨_, _, _, _, hlegacy, hfailed, horiginal, hretry, hscore, hmodel⟩
  | requeueTask i issuedAt now m htask ids =>
      rcases requeue_stored m _ hinv hr with hold | ⟨-, hmodel⟩
      · exact Or.inl hold
      · exact Or.inr ⟨_, htask, hmodel⟩

/-- Apart from the receive loop and a swap, only a retry brings a request into the queue. -/
theorem step_stored {s : Server ν} {a : Action ν} (hreceive : ¬ a.IsReceive) (hswap : ¬ a.IsSwap)
    (hinv : AccountedScheduler.Inv s.scheduler) :
    ∀ r ∈ stored (step config pb s a).scheduler,
      r ∈ stored s.scheduler ∨ Requeues config s r.modelId a := by
  by_cases htick : a.IsTick
  · cases a with
    | tick expiry now => exact fun r hr => Or.inl (tick_stored config expiry now hinv hr)
    | _ => exact absurd htick id
  · rcases step_works config pb s hreceive htick hswap with ⟨events, -, heffect⟩
    exact heffect.stored hinv

end Queues

/-! ## Runs without orphans -/

/-- Every queued request of a model-aware scheduler is of a model that has an event, and events and
loops belong together. -/
structure Supplied (config : InferentialConfig ν) (s : Server ν) : Prop where
  inv : AccountedScheduler.Inv s.scheduler
  pooled : Pooled config s
  known : s.scheduler.isModelAware = true →
    ∀ r ∈ stored s.scheduler, s.modelEvents.contains r.modelId = true

theorem ensureModelDispatch_known (config : InferentialConfig ν) (modelId other : String)
    (s : Server ν) :
    (s.ensureModelDispatch config modelId).modelEvents.contains other = true ↔
      other = modelId ∨ s.modelEvents.contains other = true := by
  unfold ensureModelDispatch
  split
  · next hknown =>
      refine ⟨Or.inr, ?_⟩
      rintro (rfl | hother)
      · exact hknown
      · exact hother
  · simp only [Dict.contains_iff]
    exact Dict.mem_keys_assign

namespace Supplied

variable {config : InferentialConfig ν} {pb : Protobuf ν} {s : Server ν} {a : Action ν}

theorem hasLoop_iff (h : Supplied config s) (modelId : String) :
    s.HasLoop modelId ↔ s.modelEvents.contains modelId = true := by
  constructor
  · rintro ⟨i, loop, hevent, -, -⟩
    exact Dict.contains_iff.mpr (Dict.mem_keys.mpr ⟨i, hevent⟩)
  · intro hknown
    rcases Dict.mem_keys.mp (Dict.contains_iff.mp hknown) with ⟨i, hevent⟩
    have hmodel := (h.pooled.registered modelId i).mp hevent
    simp only [loopModels, List.getElem?_map, Option.map_eq_some_iff] at hmodel
    rcases hmodel with ⟨loop, hloop, hid⟩
    exact ⟨i, loop, hevent, hloop, hid⟩

theorem consumed (h : Supplied config s) : Consumed s := by
  intro haware r hr
  exact (h.hasLoop_iff r.modelId).mpr (h.known haware r hr)

/-- After a submission the model of a queued request is that of an old one, or has been seen to. -/
theorem submitRequest (m : Moment ν) (request : InferenceRequest ν)
    (hinv : AccountedScheduler.Inv s.scheduler)
    (hknown : s.scheduler.isModelAware = true →
      ∀ r ∈ stored s.scheduler, s.modelEvents.contains r.modelId = true)
    (haware : (s.submitRequest config m request).scheduler.isModelAware = true) :
    ∀ r ∈ stored (s.submitRequest config m request).scheduler,
      (s.submitRequest config m request).modelEvents.contains r.modelId = true := by
  let q := (Scheduler.submit m request s.scheduler).state
  have haware' : q.isModelAware = s.scheduler.isModelAware := by simp [q]
  rw [submitRequest_scheduler] at haware
  rw [submitRequest_scheduler]
  intro r hr
  cases hraised : (Scheduler.submit m request s.scheduler).raised with
  | some e =>
      have hevents : (s.submitRequest config m request).modelEvents = s.modelEvents := by
        cases e <;> simp [Server.submitRequest, hraised, record]
      rw [hevents]
      rcases submit_stored m request hinv hr with hold | ⟨hnone, -⟩
      · exact hknown (haware' ▸ haware) r hold
      · simp [hraised] at hnone
  | none =>
      let s₁ : Server ν := { s with scheduler := q }
      have hstart : s.submitRequest config m request =
          (s₁.ensureModelDispatch config request.modelId).setEvent request.modelId := by
        simp [Server.submitRequest, hraised, s₁, q, show s.scheduler.isModelAware = true from
          haware' ▸ haware]
      rcases setEvent_frame request.modelId (s₁.ensureModelDispatch config request.modelId) with
        ⟨_, hset⟩
      have hevents : (s.submitRequest config m request).modelEvents =
          (s₁.ensureModelDispatch config request.modelId).modelEvents := by
        simp only [hstart, hset]
      rw [hevents, ensureModelDispatch_known]
      rcases submit_stored m request hinv hr with hold | ⟨-, hmodel⟩
      · exact Or.inr (hknown (haware' ▸ haware) r hold)
      · exact Or.inl hmodel

/-- The receive loop starts the loop of the model that it queues a request for. -/
theorem receive (h : Supplied config s) (msg : IncomingObservation) (clock : ReceiveClock)
    (m : Moment ν) : Supplied config (step config pb s (.receive msg clock m)) := by
  refine ⟨step_inv config pb s _ h.inv, h.pooled.step pb _ h.inv, ?_⟩
  show (s.receive config pb msg clock m).scheduler.isModelAware = true →
    ∀ r ∈ stored (s.receive config pb msg clock m).scheduler,
      (s.receive config pb msg clock m).modelEvents.contains r.modelId = true
  cases hdecode : decode pb clock.nowNs msg.envelope msg.payload msg.receivedAt with
  | error e =>
      rcases receive_rejected_frame config pb clock hdecode m s with ⟨_, hreceive⟩
      simpa only [hreceive] using h.known
  | ok decoded =>
      have htracked := track_queue msg decoded clock.tracked h.inv
      rcases track_frame msg decoded clock.tracked s with ⟨_, _, _, _, _, htrack⟩
      have hevents : (s.track msg decoded clock.tracked).modelEvents = s.modelEvents :=
        (congrArg modelEvents htrack).trans rfl
      rw [receive_accepted config pb clock hdecode]
      apply submitRequest
      · exact htracked.1
      · intro haware r hr
        simp only [log, hevents]
        exact h.known (htracked.2.1 ▸ haware) r (htracked.2.2.subset hr)

/-- A swap leaves no requests, or the scheduler that was there. -/
theorem swap (h : Supplied config s) (registered : String → Bool) (strategy : String)
    (policy : Option String) (weights : Option (DeadlineAwareConfig ν)) :
    Supplied config (step config pb s (.useScheduler registered strategy policy weights)) := by
  refine ⟨step_inv config pb s _ h.inv, h.pooled.step pb _ h.inv, ?_⟩
  show (s.useScheduler config registered strategy policy weights).2.scheduler.isModelAware = true →
    ∀ r ∈ stored (s.useScheduler config registered strategy policy weights).2.scheduler,
      (s.useScheduler config registered strategy policy weights).2.modelEvents.contains
        r.modelId = true
  unfold useScheduler
  split
  · exact h.known
  · next scheduler hcreate =>
      rcases AnyScheduler.createScheduler_fresh hcreate with ⟨hfresh, hempty⟩
      have hempty' : stored scheduler = [] := hempty
      split
      · simp [hempty']
      · split
        · simp [hempty']
        · next replaced hpolicy =>
            have hkept : stored replaced = [] :=
              (AnyScheduler.usePolicy_spec hpolicy hfresh).2.1.trans hempty
            simp [hkept]

theorem step (h : Supplied config s) (horphan : ¬ Orphans config s a) :
    Supplied config (step config pb s a) := by
  by_cases hreceive : a.IsReceive
  · cases a with
    | receive msg clock m => exact h.receive msg clock m
    | _ => exact absurd hreceive id
  by_cases hswap : a.IsSwap
  · cases a with
    | useScheduler registered strategy policy weights =>
        exact h.swap registered strategy policy weights
    | _ => exact absurd hswap id
  refine ⟨step_inv config pb s a h.inv, h.pooled.step pb a h.inv, ?_⟩
  have haware := (step_called config pb s hswap).isModelAware
  rcases step_frame config pb s hreceive with ⟨_, _, _, _, _, _, _, hframe⟩
  have hevents : (Server.step config pb s a).modelEvents = s.modelEvents :=
    (congrArg modelEvents hframe).trans rfl
  intro hmodels r hr
  simp only [hevents]
  rw [haware] at hmodels
  rcases step_stored config pb hreceive hswap h.inv r hr with hold | hrequeued
  · exact h.known hmodels r hold
  · cases a with
    | legacyResult issuedAt now m =>
        -- the guard excludes a model without an event
        rcases hrequeued with ⟨batch, result, results, req, hpc, hfailed, hreq, hretry, hscore, hid⟩
        by_contra hunknown
        refine horphan ⟨hmodels, batch, result, results, req, hpc, hfailed, hreq, hretry, hscore, ?_⟩
        simpa [hid] using hunknown
    | taskResult i issuedAt now m =>
        -- the task belongs to a loop of its own model
        rcases hrequeued with ⟨task, htask, hid⟩
        rcases h.pooled.owned task htask with ⟨hrequest, hloop⟩
        have hevent := (h.pooled.registered task.modelId task.loop).mpr hloop
        rw [← hid, hrequest]
        exact Dict.contains_iff.mpr (Dict.mem_keys.mpr ⟨task.loop, hevent⟩)
    | _ => exact absurd hrequeued id

/-- A request that is queued again for a model without a loop has no consumer. -/
theorem orphaned (horphan : Orphans config s a) (h : Supplied config s) :
    ¬ Consumed (Server.step config pb s a) := by
  intro hconsumed
  cases a with
  | legacyResult issuedAt now m =>
      rcases horphan with
        ⟨haware, batch, result, results, req, hpc, hfailed, hreq, hretry, hscore, hunknown⟩
      have hraised : (Scheduler.resubmit m (retried req) s.scheduler).raised = none := by
        by_contra hsome
        exact hscore ((AnyScheduler.resubmit_raised_iff m (retried req) s.scheduler).mp hsome)
      have hstep : (s.legacyResult config issuedAt now m).scheduler =
          (Scheduler.resubmit m (retried req) s.scheduler).state := by
        simp [legacyResult, hpc, hfailed, hreq, Option.filter_some, hretry, hraised, log, record]
      rcases legacyResult_frame config issuedAt now m s with ⟨_, _, _, _, _, hframe⟩
      have hevents : (s.legacyResult config issuedAt now m).modelEvents = s.modelEvents :=
        (congrArg modelEvents hframe).trans rfl
      rcases AccountedScheduler.resubmit_spec m (retried req) h.inv with ⟨-, -, hrequeues⟩
      rcases hrequeues.accepted hraised with ⟨queued, hunstamped, hperm⟩
      have hqueued : queued ∈ stored (s.legacyResult config issuedAt now m).scheduler := by
        rw [hstep]
        exact hperm.mem_iff.mpr List.mem_cons_self
      have haware' : (s.legacyResult config issuedAt now m).scheduler.isModelAware = true := by
        simp [hstep, haware]
      rcases hconsumed haware' queued hqueued with ⟨i, -, hevent, -, -⟩
      have hid : queued.modelId = req.modelId := (modelId_of_unstamped hunstamped).trans rfl
      have hevent' : s.modelEvents.get? req.modelId = some i := by
        rw [← hid, ← hevents]
        exact hevent
      simp [Dict.contains, hevent'] at hunknown
  | _ => exact horphan

end Supplied

theorem init_supplied {config : InferentialConfig ν} {s : Server ν} (hinit : init config = .ok s) :
    Supplied config s := by
  unfold init at hinit
  split at hinit
  · cases hinit
  · next scheduler hcreate =>
      cases hinit
      rcases AnyScheduler.createScheduler_fresh hcreate with ⟨hinv, hempty⟩
      have hempty' : stored scheduler = [] := hempty
      exact ⟨hinv, ⟨Dict.indexes_empty, by simp, by simp⟩, by simp [hempty']⟩

theorem orphans_guards (config : InferentialConfig ν) (pb : Protobuf ν) :
    Machine.Guards (step config pb) (Supplied config) (fun s a => ¬ Orphans config s a)
      fun s a => Consumed (step config pb s a) where
  keeps h horphan := h.step horphan
  holds h horphan := (h.step horphan).consumed
  needs := by
    intro s a h hconsumed horphan
    exact Supplied.orphaned horphan h hconsumed

/-- Every queued request has a consumer throughout a run exactly when the single loop never queues a
request again for a model without a loop, under a model-aware scheduler. -/
theorem consumed_iff (config : InferentialConfig ν) (pb : Protobuf ν) (s₀ : Server ν)
    (actions : List (Action ν)) (hinit : init config = .ok s₀) :
    Machine.Throughout (step config pb) Consumed s₀ actions ↔
      Machine.Along (step config pb) (fun s a => ¬ Orphans config s a) s₀ actions := by
  have hsupplied := init_supplied hinit
  exact (orphans_guards config pb).throughout_iff hsupplied hsupplied.consumed

/-! ### A swap during a dispatch -/

theorem pipelined_consumed :
    Machine.Throughout (step pipelineConfig plainMessages) Consumed pipelineServer pipelined :=
  (consumed_iff pipelineConfig plainMessages pipelineServer pipelined rfl).mpr
    ⟨id, id, id, id, id, id, trivial⟩

/-- A pipeline that starts with a strategy that is not model-aware. -/
def swappedConfig : InferentialConfig Rat :=
  { plainConfig with
    scheduling := { plainConfig.scheduling with
      strategy := "round_robin"
      pipelineDispatch := { enabled := true }
      maxRetries := 1 } }

def swappedServer : Server Rat :=
  { plainServer with scheduler := .roundRobin (.init swappedConfig.scheduling) }

/-- The scheduler is swapped while the single loop waits for the dispatcher, and the attempt fails. -/
def swappedAttempt : List (Action Rat) :=
  [arriveAt 0 0, .legacyTop 0 (fun _ => 0) 0,
    .useScheduler (fun _ => false) "model_deadline" none none, .legacyReturned (.ok [failedResult]),
    .legacyResult 0 0 (plainMoment 0)]

theorem swapped_not_consumed :
    let s := run swappedConfig plainMessages swappedServer swappedAttempt
    swappedConfig.scheduling.pipelineDispatch.enabled = true ∧
      init swappedConfig = .ok swappedServer ∧ s.scheduler.isModelAware = true ∧
      (stored s.scheduler).map InferenceRequest.modelId = ["policy"] ∧
      s.modelEvents.keys = [] ∧ s.loops = [] ∧
      ¬ Machine.Throughout (step swappedConfig plainMessages) Consumed swappedServer
        swappedAttempt := by
  intro s
  have haware : s.scheduler.isModelAware = true := by decide +kernel
  have hmodels : (stored s.scheduler).map InferenceRequest.modelId = ["policy"] := by decide +kernel
  have hkeys : s.modelEvents.keys = [] := by decide +kernel
  refine ⟨rfl, rfl, haware, hmodels, hkeys, by decide +kernel, ?_⟩
  rintro ⟨-, -, -, -, -, hconsumed⟩
  have hqueued : "policy" ∈ (stored s.scheduler).map InferenceRequest.modelId := by simp [hmodels]
  rcases List.mem_map.mp hqueued with ⟨r, hr, -⟩
  rcases hconsumed haware r hr with ⟨i, -, hevent, -, -⟩
  have hknown : r.modelId ∈ s.modelEvents.keys := Dict.mem_keys.mpr ⟨i, hevent⟩
  simp [hkeys] at hknown

end Server
end Inferential
