import Inferential.Server.Consumers
import Inferential.Server.Sends
import Inferential.Server.Swap

/-!
# Wakeups — no submission is slept over

The loop of a model that finds nothing to do waits for the event of its model, with a timeout.  Each
submission sets the event, so that what a sleeping loop has overlooked can only be a retry.
-/

namespace Inferential

open PyStd

variable {ν : Type} [Score ν]

/-- A model-aware scheduler gives nothing out for a model only when nothing of it is queued. -/
theorem AnyScheduler.nextBatchForModel_nil {modelId : String} {s : AnyScheduler ν}
    (haware : s.isModelAware = true) (hinv : AccountedScheduler.Inv s)
    (hnil : (s.nextBatchForModel modelId).1 = []) :
    ∀ r ∈ AccountedScheduler.stored s, r.modelId ≠ modelId := by
  cases s with
  | modelDeadline s =>
      have hown : ModelDeadlineScheduler.Inv s := hinv
      rcases ModelDeadlineScheduler.nextBatchForModel_spec modelId s with
        ⟨hempty, -⟩ | ⟨item, heap, -, heq⟩
      · intro r hr hmodel
        rcases ModelDeadlineScheduler.mem_stored.mp hr with ⟨other, hother⟩
        have hid : other = modelId := (hown.own other r hother).symm.trans hmodel
        rw [hid, hempty] at hother
        cases hother
      · simp [nextBatchForModel, heq] at hnil
  | _ => cases haware

namespace Server

/-- The loop of the model is not waiting, or its event is set. -/
def Awake (modelId : String) (s : Server ν) : Prop :=
  ∃ i loop, s.modelEvents.get? modelId = some i ∧ s.loops[i]? = some loop ∧
    loop.modelId = modelId ∧ (loop.pc = .waiting → loop.event = true)

section Steps

variable {config : InferentialConfig ν} {pb : Protobuf ν} {modelId : String} {s s' : Server ν}

theorem Awake.same (h : s.Awake modelId) (hevents : s'.modelEvents = s.modelEvents)
    (hloops : s'.loops = s.loops) : s'.Awake modelId := by
  rcases h with ⟨i, loop, hevent, hloop, hmodel, hawake⟩
  exact ⟨i, loop, hevents ▸ hevent, hloops ▸ hloop, hmodel, hawake⟩

/-- One loop goes on, and not to sleep if it is the loop of the model. -/
theorem Awake.modify (h : s.Awake modelId) {j : Nat} {f : ModelLoop → ModelLoop}
    (hmodel : ∀ loop, (f loop).modelId = loop.modelId)
    (hawake : ∀ loop, s.loops[j]? = some loop → loop.modelId = modelId →
      (loop.pc = .waiting → loop.event = true) → (f loop).pc = .waiting → (f loop).event = true)
    (hevents : s'.modelEvents = s.modelEvents) (hloops : s'.loops = s.loops.modify j f) :
    s'.Awake modelId := by
  rcases h with ⟨i, loop, hevent, hloop, hid, hpc⟩
  by_cases hj : j = i
  · subst hj
    refine ⟨j, f loop, hevents ▸ hevent, ?_, (hmodel loop).trans hid, hawake loop hloop hid hpc⟩
    simp [hloops, hloop]
  · refine ⟨i, loop, hevents ▸ hevent, ?_, hid, hpc⟩
    simp [hloops, hj, hloop]

/-! ## Starting and waking loops -/

theorem setEvent_awake (other : String) (h : s.Awake modelId) :
    (s.setEvent other).Awake modelId := by
  unfold setEvent
  split
  · exact h
  · exact h.modify (f := fun l => { l with event := true }) (fun _ => rfl) (fun _ _ _ _ _ => rfl)
      rfl rfl

theorem ensureModelDispatch_awake (other : String) (h : s.Awake modelId) :
    (s.ensureModelDispatch config other).Awake modelId := by
  unfold ensureModelDispatch
  split
  · exact h
  · next hnew =>
      rcases h with ⟨i, loop, hevent, hloop, hid, hpc⟩
      -- the model of the new loop has no event yet
      have hother : modelId ≠ other := by
        rintro rfl
        exact hnew (Dict.contains_iff.mpr (Dict.mem_keys.mpr ⟨i, hevent⟩))
      refine ⟨i, loop, ?_, ?_, hid, hpc⟩
      · simpa [Dict.get?_set, hother] using hevent
      · exact (List.getElem?_append_left (List.getElem?_eq_some_iff.mp hloop).1).trans hloop

/-- The model of a submission is seen to. -/
theorem woken_awake (hpooled : Pooled config s) (modelId : String) :
    ((s.ensureModelDispatch config modelId).setEvent modelId).Awake modelId := by
  have hensured := hpooled.ensureModelDispatch modelId
  have hknown : (s.ensureModelDispatch config modelId).modelEvents.contains modelId = true :=
    (ensureModelDispatch_known config modelId modelId s).mpr (Or.inl rfl)
  rcases Dict.mem_keys.mp (Dict.contains_iff.mp hknown) with ⟨i, hevent⟩
  have hregistered := (hensured.registered modelId i).mp hevent
  simp only [loopModels, List.getElem?_map, Option.map_eq_some_iff] at hregistered
  rcases hregistered with ⟨loop, hloop, hid⟩
  unfold setEvent
  simp only [hevent]
  exact ⟨i, { loop with event := true }, hevent, by simp [updateLoop, hloop], hid, fun _ => rfl⟩

theorem predictiveWake_awake (now : String → Rat) (h : s.Awake modelId) :
    (s.predictiveWake config now).Awake modelId :=
  predictiveWake_rel config (fun s s' => s.Awake modelId → s'.Awake modelId) (fun _ h => h)
    (fun _ _ _ h h' hs => h' (h hs)) (fun _ other hs => setEvent_awake other hs) now s h

/-- A submission that succeeds wakes the loop of its model. -/
theorem submitted_awake (hpooled : Pooled config s) (haware : s.scheduler.isModelAware = true)
    {m : Moment ν} {request : InferenceRequest ν}
    (hraised : (Scheduler.submit m request s.scheduler).raised = none) :
    (s.submitRequest config m request).Awake request.modelId := by
  let s₁ : Server ν := { s with scheduler := (Scheduler.submit m request s.scheduler).state }
  have hpooled₁ : Pooled config s₁ := hpooled.frame rfl rfl rfl
  have hwoken : s.submitRequest config m request =
      (s₁.ensureModelDispatch config request.modelId).setEvent request.modelId := by
    simp [submitRequest, hraised, haware, s₁]
  rw [hwoken]
  exact woken_awake hpooled₁ request.modelId

theorem submitRequest_awake (m : Moment ν) (request : InferenceRequest ν) (h : s.Awake modelId) :
    (s.submitRequest config m request).Awake modelId := by
  unfold submitRequest
  dsimp only
  split
  · exact h.same rfl rfl
  · exact h.same rfl rfl
  · split
    · exact setEvent_awake _ (ensureModelDispatch_awake _ (h.same rfl rfl))
    · exact h.same rfl rfl

/-! ## The loops -/

theorem loopAcquire_awake (i : Nat) (h : s.Awake modelId) : (s.loopAcquire i).Awake modelId := by
  unfold loopAcquire
  split
  · exact h
  · split
    · exact h.modify (f := fun l => { l with permits := l.permits - 1, pc := .holding })
        (fun _ => rfl) (by simp) rfl rfl
    · exact h

theorem loopResume_awake (i : Nat) (woken : Bool) (h : s.Awake modelId) :
    (s.loopResume i woken).Awake modelId := by
  unfold loopResume
  split
  · exact h
  · split
    · exact h.modify (f := fun l => { l with pc := .acquiring }) (fun _ => rfl) (by simp) rfl rfl
    · split
      · split
        · exact h.modify (f := fun l => { l with event := false, pc := .acquiring }) (fun _ => rfl)
            (by simp) rfl rfl
        · exact h
      · exact h.modify (f := fun l => { l with pc := .acquiring }) (fun _ => rfl) (by simp) rfl rfl
    · exact h

/-- A loop goes to sleep when it has looked into the queue of its model and has found nothing. -/
theorem loopProceed_awake (hinv : AccountedScheduler.Inv s.scheduler) (i : Nat) (now : Rat)
    (h : s.Awake modelId)
    (hqueued : ∃ r ∈ stored (s.loopProceed i now).scheduler, r.modelId = modelId) :
    (s.loopProceed i now).Awake modelId := by
  cases hloop : s.loops[i]? with
  | none =>
      simp only [loopProceed, hloop]
      exact h
  | some loop =>
      by_cases hpc : loop.pc = .holding
      · by_cases haware : s.scheduler.isModelAware = true
        · cases hbatch : (s.scheduler.nextBatchForModel loop.modelId).1 with
          | nil =>
              simp only [loopProceed, hloop, hpc, haware, hbatch, if_true] at hqueued ⊢
              refine h.modify (f := fun l => { l with permits := l.permits + 1, pc := .waiting })
                (fun _ => rfl) ?_ rfl rfl
              intro other hother hid
              cases hloop.symm.trans hother
              -- what is queued for another model is not looked for
              have hempty := AnyScheduler.nextBatchForModel_nil haware hinv hbatch
              have hperm := (AnyScheduler.nextBatchForModel_spec loop.modelId hinv).2.1
              rcases hqueued with ⟨r, hr, hmodel⟩
              have hr' : r ∈ stored s.scheduler :=
                hperm.mem_iff.mpr (List.mem_append_right _ hr)
              exact absurd (hmodel.trans hid.symm) (hempty r hr')
          | cons request more =>
              simp only [loopProceed, hloop, hpc, haware, hbatch, if_true]
              exact h.modify (f := fun l => { l with pc := .acquiring }) (fun _ => rfl) (by simp)
                rfl rfl
        · simp only [loopProceed, hloop, hpc, haware, if_true]
          exact h.modify (f := fun l => { l with permits := l.permits + 1, pc := .sleeping })
            (fun _ => rfl) (by simp) rfl rfl
      · simp only [loopProceed, hloop, hpc, if_false]
        exact h

/-! ## Tasks -/

theorem finishTask_awake (i : Nat) (task : DispatchTask ν) (h : s.Awake modelId) :
    (s.finishTask i task).Awake modelId :=
  h.modify (f := fun l => { l with permits := l.permits + 1 }) (fun _ => rfl)
    (fun _ _ _ hpc => hpc) rfl rfl

theorem taskReturned_awake (i : Nat) (result : Except PyError (List DispatchResult))
    (h : s.Awake modelId) : (s.taskReturned i result).Awake modelId := by
  unfold taskReturned
  split
  · exact h
  · split
    · split
      · exact finishTask_awake i _ h
      · exact h.same rfl rfl
    · exact h

theorem taskResult_awake (i : Nat) (issuedAt now : Rat) (m : Moment ν) (h : s.Awake modelId) :
    (s.taskResult config i issuedAt now m).Awake modelId := by
  unfold taskResult
  split
  · exact h
  · split
    · exact finishTask_awake i _ h
    · split
      · exact h.same rfl rfl
      · split
        · dsimp only
          split
          · exact finishTask_awake i _ (h.same rfl rfl)
          · exact h.same rfl rfl
        · exact h.same rfl rfl
    · exact h

theorem taskSent_awake (i : Nat) (outcome : SendOutcome) (h : s.Awake modelId) :
    (s.taskSent i outcome).Awake modelId := by
  unfold taskSent
  split
  · exact h
  · split
    · split
      · exact h.same rfl rfl
      · exact h.same rfl rfl
      · exact finishTask_awake i _ h
    · exact h

/-! ## All steps -/

theorem receive_awake (msg : IncomingObservation) (clock : ReceiveClock) (m : Moment ν)
    (h : s.Awake modelId) : (s.receive config pb msg clock m).Awake modelId := by
  cases hdecode : decode pb clock.nowNs msg.envelope msg.payload msg.receivedAt with
  | error e =>
      rcases receive_rejected_frame config pb clock hdecode m s with ⟨_, hreceive⟩
      rw [hreceive]
      exact h.same rfl rfl
  | ok decoded =>
      rcases track_frame msg decoded clock.tracked s with ⟨_, _, _, _, _, htrack⟩
      rw [receive_accepted config pb clock hdecode, htrack]
      exact submitRequest_awake m _ (h.same rfl rfl)

/-- The model of a queued request stays awake. -/
theorem step_awake (hinv : AccountedScheduler.Inv s.scheduler) (a : Action ν)
    (h : s.Awake modelId)
    (hqueued : ∃ r ∈ stored (step config pb s a).scheduler, r.modelId = modelId) :
    (step config pb s a).Awake modelId := by
  by_cases hlegacy : a.IsLegacy
  · rcases legacy_frame config pb s hlegacy with ⟨_, _, _, _, _, hframe⟩
    rw [hframe]
    exact h.same rfl rfl
  cases a with
  | receive msg clock m => exact receive_awake msg clock m h
  | tick expiry now =>
      rcases tick_frame config expiry now s with ⟨_, _, _, hframe⟩
      exact h.same ((congrArg modelEvents hframe).trans rfl) ((congrArg loops hframe).trans rfl)
  | predictiveWake now => exact predictiveWake_awake now h
  | useScheduler registered strategy policy weights =>
      rcases useScheduler_frame config registered strategy policy weights s with ⟨_, hframe⟩
      exact h.same ((congrArg modelEvents hframe).trans rfl) ((congrArg loops hframe).trans rfl)
  | loopAcquire i => exact loopAcquire_awake i h
  | loopProceed i now => exact loopProceed_awake hinv i now h hqueued
  | loopResume i woken => exact loopResume_awake i woken h
  | taskStart i =>
      rcases taskStart_frame i s with ⟨_, _, hframe⟩
      exact h.same ((congrArg modelEvents hframe).trans rfl) ((congrArg loops hframe).trans rfl)
  | taskReturned i result => exact taskReturned_awake i result h
  | taskResult i issuedAt now m => exact taskResult_awake i issuedAt now m h
  | taskSent i outcome => exact taskSent_awake i outcome h
  | _ => exact absurd trivial hlegacy

/-! ## New requests in the queue -/

/-- After a call of `resubmit` only the request itself is new. -/
theorem resubmit_retried (m : Moment ν) (r : InferenceRequest ν) {q : AnyScheduler ν}
    (hinv : AccountedScheduler.Inv q) {queued : InferenceRequest ν}
    (hqueued : queued ∈ stored (Scheduler.resubmit m (retried r) q).state) :
    queued ∈ stored q ∨ 0 < queued.retryCount := by
  rcases AccountedScheduler.resubmit_spec m (retried r) hinv with ⟨-, -, hrequeues⟩
  cases hraised : (Scheduler.resubmit m (retried r) q).raised with
  | some e =>
      have hsame := hrequeues.refused (by simp [hraised])
      exact Or.inl (hsame ▸ hqueued)
  | none =>
      rcases hrequeues.accepted hraised with ⟨new, hunstamped, hperm⟩
      rcases List.mem_cons.mp (hperm.mem_iff.mp hqueued) with rfl | hold
      · have hcount := congrArg InferenceRequest.retryCount hunstamped
        have hretried : queued.retryCount = r.retryCount + 1 := hcount
        exact Or.inr (hretried ▸ Nat.succ_pos _)
      · exact Or.inl hold

/-- The dispatch loops bring nothing into the queue that has not been retried. -/
theorem Effect.retried {a : Action ν} {scheduler : AnyScheduler ν} {events : List (Event ν)}
    (h : Effect config s a scheduler events) (hinv : AccountedScheduler.Inv s.scheduler) :
    ∀ r ∈ AccountedScheduler.stored scheduler,
      r ∈ AccountedScheduler.stored s.scheduler ∨ 0 < r.retryCount := by
  intro r hr
  cases h with
  | progress _ _ _ => exact Or.inl hr
  | collect first clock dispatchTime batch howns =>
      exact Or.inl (collectBatch_stored _ first clock hinv hr)
  | take i now loop batch hloop hbatch =>
      have hperm := (AnyScheduler.nextBatchForModel_spec loop.modelId hinv).2.1
      exact Or.inl (hperm.mem_iff.mpr (List.mem_append_right _ hr))
  | requeue issuedAt now m hlegacy hfailed horiginal hretry ids =>
      exact resubmit_retried m _ hinv hr
  | requeueTask i issuedAt now m htask ids => exact resubmit_retried m _ hinv hr

theorem step_retried {a : Action ν} (hreceive : ¬ a.IsReceive)
    (hinv : AccountedScheduler.Inv s.scheduler) :
    ∀ r ∈ stored (step config pb s a).scheduler,
      r ∈ stored s.scheduler ∨ 0 < r.retryCount ∨ a.IsSwap := by
  intro r hr
  by_cases hswap : a.IsSwap
  · exact Or.inr (Or.inr hswap)
  by_cases htick : a.IsTick
  · cases a with
    | tick expiry now => exact Or.inl (tick_stored config expiry now hinv hr)
    | _ => exact absurd htick id
  · rcases step_works config pb s hreceive htick hswap with ⟨events, -, heffect⟩
    exact (heffect.retried hinv r hr).imp_right Or.inl

end Steps

/-! ## Runs -/

/-- Every queued request that has not been retried is of a model that is awake. -/
structure Alert (config : InferentialConfig ν) (s : Server ν) : Prop where
  inv : AccountedScheduler.Inv s.scheduler
  pooled : Pooled config s
  awake : s.scheduler.isModelAware = true →
    ∀ r ∈ stored s.scheduler, r.retryCount = 0 → s.Awake r.modelId

namespace Alert

variable {config : InferentialConfig ν} {pb : Protobuf ν} {s : Server ν}

theorem receive (h : Alert config s) (msg : IncomingObservation) (clock : ReceiveClock)
    (m : Moment ν) : Alert config (step config pb s (.receive msg clock m)) := by
  refine ⟨step_inv config pb s _ h.inv, h.pooled.step pb _ h.inv, ?_⟩
  intro haware r hr hfresh
  have haware' : s.scheduler.isModelAware = true :=
    (step_called config pb s (a := .receive msg clock m) id).isModelAware ▸ haware
  by_cases hold : r ∈ stored s.scheduler
  · exact receive_awake msg clock m (h.awake haware' r hold hfresh)
  -- a request that is new has been submitted, and its model was woken
  show (s.receive config pb msg clock m).Awake r.modelId
  change r ∈ stored (s.receive config pb msg clock m).scheduler at hr
  cases hdecode : decode pb clock.nowNs msg.envelope msg.payload msg.receivedAt with
  | error e =>
      rcases receive_rejected_frame config pb clock hdecode m s with ⟨_, hreceive⟩
      rw [hreceive] at hr
      exact absurd hr hold
  | ok decoded =>
      have htracked := track_queue msg decoded clock.tracked h.inv
      rcases track_frame msg decoded clock.tracked s with ⟨_, _, _, _, _, htrack⟩
      rw [receive_accepted config pb clock hdecode] at hr ⊢
      rw [submitRequest_scheduler] at hr
      rcases submit_stored m _ htracked.1 hr with hkept | ⟨hraised, hmodel⟩
      · exact absurd (htracked.2.2.subset hkept) hold
      · have hpooled : Pooled config (s.track msg decoded clock.tracked) :=
          h.pooled.frame ((congrArg modelEvents htrack).trans rfl)
            ((congrArg loops htrack).trans rfl) ((congrArg tasks htrack).trans rfl)
        have hpooled' : Pooled config (log [.accepted (s.requestOf config msg clock decoded)]
            { s.track msg decoded clock.tracked with nextObj := s.nextObj + 1 }) :=
          hpooled.frame rfl rfl rfl
        have hwoken := submitted_awake hpooled' (htracked.2.1.trans haware') hraised
        rw [hmodel]
        exact hwoken

/-- A swap leaves no requests, or changes nothing. -/
theorem swap (h : Alert config s) (registered : String → Bool) (strategy : String)
    (policy : Option String) (weights : Option (DeadlineAwareConfig ν)) :
    Alert config (Server.step config pb s (.useScheduler registered strategy policy weights)) := by
  refine ⟨step_inv config pb s _ h.inv, h.pooled.step pb _ h.inv, ?_⟩
  show (s.useScheduler config registered strategy policy weights).2.scheduler.isModelAware = true →
    ∀ r ∈ stored (s.useScheduler config registered strategy policy weights).2.scheduler,
      r.retryCount = 0 →
        (s.useScheduler config registered strategy policy weights).2.Awake r.modelId
  cases hcreate : createScheduler (swapConfig config.scheduling strategy weights) with
  | error e =>
      rw [useScheduler_refused registered policy hcreate]
      exact h.awake
  | ok scheduler =>
      rw [useScheduler_stored registered policy hcreate]
      simp

theorem step (h : Alert config s) (a : Action ν) : Alert config (step config pb s a) := by
  by_cases hreceive : a.IsReceive
  · cases a with
    | receive msg clock m => exact h.receive msg clock m
    | _ => exact absurd hreceive id
  by_cases hswap : a.IsSwap
  · cases a with
    | useScheduler registered strategy policy weights =>
        exact h.swap registered strategy policy weights
    | _ => exact absurd hswap id
  refine ⟨step_inv config pb s a h.inv, h.pooled.step pb a h.inv, ?_⟩
  intro haware r hr hfresh
  rw [(step_called config pb s hswap).isModelAware] at haware
  rcases step_retried hreceive h.inv r hr with hold | hretried | hswapped
  · exact step_awake h.inv a (h.awake haware r hold hfresh) ⟨r, hr, rfl⟩
  · omega
  · exact absurd hswapped hswap

theorem run (h : Alert config s) (pb : Protobuf ν) (actions : List (Action ν)) :
    Alert config (Server.run config pb s actions) := by
  induction actions generalizing s with
  | nil => exact h
  | cons a actions ih => exact ih (h.step a)

end Alert

theorem init_alert {config : InferentialConfig ν} {s : Server ν} (hinit : init config = .ok s) :
    Alert config s := by
  have hsupplied := init_supplied hinit
  refine ⟨hsupplied.inv, hsupplied.pooled, ?_⟩
  intro haware r hr
  -- there is nothing in the queue, as no model has an event yet
  have hknown := hsupplied.known haware r hr
  unfold init at hinit
  split at hinit
  · cases hinit
  · cases hinit
    simp [Dict.contains] at hknown

/-- In every run, with any configuration and any swaps: under a model-aware scheduler only a request
that was queued again can wait for the timeout of a sleeping loop. -/
theorem run_awake (config : InferentialConfig ν) (pb : Protobuf ν) (s₀ : Server ν)
    (hinit : init config = .ok s₀) (actions : List (Action ν))
    (haware : (run config pb s₀ actions).scheduler.isModelAware = true) :
    ∀ r ∈ stored (run config pb s₀ actions).scheduler, r.retryCount = 0 →
      (run config pb s₀ actions).Awake r.modelId :=
  ((init_alert hinit).run pb actions).awake haware

/-! ### A loop that waits -/

/-- The loop takes the one request that there is, and goes to sleep. -/
def restless : List (Action Rat) :=
  [arriveAt 0 0, .loopAcquire 0, .loopProceed 0 0, .loopAcquire 0, .loopProceed 0 0,
    .loopResume 0 true, .loopAcquire 0, .loopProceed 0 0]

theorem restless_awake :
    let s := run pipelineConfig plainMessages pipelineServer (restless ++ [arriveAt 0 0])
    s.loops.map ModelLoop.pc = [.waiting] ∧
      (stored s.scheduler).map InferenceRequest.modelId = ["policy"] ∧
      ∀ r ∈ stored s.scheduler, s.Awake r.modelId := by
  intro s
  have hfresh : ∀ r ∈ stored s.scheduler, r.retryCount = 0 := by decide +kernel
  refine ⟨by decide +kernel, by decide +kernel, ?_⟩
  intro r hr
  exact run_awake pipelineConfig plainMessages pipelineServer rfl _ (by decide +kernel) r hr
    (hfresh r hr)

/-- A retry does not set the event. -/
example :
    let config := { pipelineConfig with
      scheduling := { pipelineConfig.scheduling with maxRetries := 1 } }
    let failed := { answeredResult with success := false }
    let s := run config plainMessages pipelineServer
      (restless ++ [.taskStart 0, .taskReturned 0 (.ok [failed]), .taskResult 0 0 0 (plainMoment 0)])
    s.loops.map (fun loop => (loop.pc, loop.event)) = [(.waiting, false)] ∧
      (stored s.scheduler).map InferenceRequest.retryCount = [1] := by decide +kernel

end Server
end Inferential
