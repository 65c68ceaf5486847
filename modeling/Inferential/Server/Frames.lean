import Inferential.Server.Step

/-!
# Frames — which fields a step can change

One lemma for each step; a field that the lemma does not name is unchanged.
-/

namespace Inferential

open PyStd

variable {ν : Type} [Score ν] (config : InferentialConfig ν) (pb : Protobuf ν)

namespace Server

/-- A relation that is reflexive and transitive holds along a loop if it holds for each round. -/
theorem foldl_rel {β : Type} (rel : Server ν → Server ν → Prop) (hrefl : ∀ s, rel s s)
    (htrans : ∀ s₁ s₂ s₃, rel s₁ s₂ → rel s₂ s₃ → rel s₁ s₃) {f : Server ν → β → Server ν}
    (hf : ∀ s b, rel s (f s b)) (s : Server ν) (l : List β) : rel s (l.foldl f s) := by
  induction l generalizing s with
  | nil => exact hrefl s
  | cons b l ih => exact htrans _ _ _ (hf s b) (ih (f s b))

/-! ## Waking loops -/

theorem setEvent_frame (modelId : String) (s : Server ν) :
    ∃ loops, s.setEvent modelId = { s with loops := loops } := by
  unfold setEvent
  split
  · exact ⟨s.loops, rfl⟩
  · exact ⟨_, rfl⟩

theorem ensureModelDispatch_frame (modelId : String) (s : Server ν) :
    ∃ modelEvents loops,
      s.ensureModelDispatch config modelId = { s with modelEvents := modelEvents, loops := loops } := by
  unfold ensureModelDispatch
  split
  · exact ⟨s.modelEvents, s.loops, rfl⟩
  · exact ⟨_, _, rfl⟩

/-- The loop of the model is started, and then woken. -/
theorem woken_frame (modelId : String) (s : Server ν) :
    ∃ modelEvents loops, (s.ensureModelDispatch config modelId).setEvent modelId =
      { s with modelEvents := modelEvents, loops := loops } := by
  rcases ensureModelDispatch_frame config modelId s with ⟨modelEvents, loops, hensure⟩
  rcases setEvent_frame modelId (s.ensureModelDispatch config modelId) with ⟨loops', hset⟩
  rw [hset, hensure]
  exact ⟨modelEvents, loops', rfl⟩

/-- Both loops of the body only set events, so what each setting of an event does, the body does. -/
theorem predictiveWake_rel (rel : Server ν → Server ν → Prop) (hrefl : ∀ s, rel s s)
    (htrans : ∀ s₁ s₂ s₃, rel s₁ s₂ → rel s₂ s₃ → rel s₁ s₃)
    (hset : ∀ s modelId, rel s (s.setEvent modelId)) (now : String → Rat) (s : Server ν) :
    rel s (s.predictiveWake config now) := by
  unfold predictiveWake
  split
  · refine foldl_rel rel hrefl htrans (fun s clientId => ?_) s _
    unfold wakeClient
    dsimp only
    split
    · exact hrefl s
    · split
      · exact foldl_rel rel hrefl htrans hset s _
      · exact hrefl s
  · exact hrefl s

theorem predictiveWake_frame (now : String → Rat) (s : Server ν) :
    ∃ loops, s.predictiveWake config now = { s with loops := loops } := by
  refine predictiveWake_rel config (fun s s' => ∃ loops, s' = { s with loops := loops })
    (fun s => ⟨s.loops, rfl⟩) ?_ (fun s modelId => setEvent_frame modelId s) now s
  rintro s₁ _ _ ⟨loops, rfl⟩ ⟨loops', rfl⟩
  exact ⟨loops', rfl⟩

/-! ## Receiving -/

theorem submitRequest_frame (m : Moment ν) (request : InferenceRequest ν) (s : Server ν) :
    ∃ scheduler metrics modelEvents loops, s.submitRequest config m request =
      { s with
        scheduler := scheduler
        metrics := metrics
        modelEvents := modelEvents
        loops := loops } := by
  unfold submitRequest
  dsimp only
  split
  · exact ⟨_, _, _, _, rfl⟩
  · exact ⟨_, _, _, _, rfl⟩
  · split
    · rcases woken_frame config request.modelId
        { s with scheduler := (Scheduler.submit m request s.scheduler).state } with ⟨_, _, hwoken⟩
      rw [hwoken]
      exact ⟨_, _, _, _, rfl⟩
    · exact ⟨_, _, _, _, rfl⟩

/-- Waking the loop of the model does not touch the scheduler. -/
theorem submitRequest_scheduler (m : Moment ν) (request : InferenceRequest ν) (s : Server ν) :
    (s.submitRequest config m request).scheduler =
      (Scheduler.submit m request s.scheduler).state := by
  unfold submitRequest
  dsimp only
  split
  · rfl
  · rfl
  · split
    · rcases woken_frame config request.modelId
        { s with scheduler := (Scheduler.submit m request s.scheduler).state } with ⟨_, _, hwoken⟩
      rw [hwoken]
    · rfl

theorem track_frame (msg : IncomingObservation) (decoded : DecodedObservation ν) (tracked : Rat)
    (s : Server ν) :
    ∃ scheduler responses clients metrics history, s.track msg decoded tracked =
      { s with
        scheduler := scheduler
        cadence := s.cadence.onRequest tracked decoded.clientId
        responses := responses
        clients := clients
        metrics := metrics
        history := history } := by
  unfold track
  dsimp only
  split <;> exact ⟨_, _, _, _, _, rfl⟩

/-- A client that connects brings no requests. -/
theorem track_queue (msg : IncomingObservation) (decoded : DecodedObservation ν) (tracked : Rat)
    {s : Server ν} (hinv : AccountedScheduler.Inv s.scheduler) :
    AccountedScheduler.Inv (s.track msg decoded tracked).scheduler ∧
      (s.track msg decoded tracked).scheduler.isModelAware = s.scheduler.isModelAware ∧
      (stored (s.track msg decoded tracked).scheduler).Perm (stored s.scheduler) := by
  cases hnew : (s.clients.onObservation decoded.clientId decoded.modelId).1 with
  | false => simpa [track, hnew, record] using hinv
  | true =>
      rcases AccountedScheduler.connected_spec decoded.clientId hinv with ⟨hinv', -, hperm⟩
      simpa [track, hnew, record, log] using ⟨hinv', hperm⟩

/-- The request that a pass builds of an accepted observation. -/
def requestOf (msg : IncomingObservation) (clock : ReceiveClock) (decoded : DecodedObservation ν)
    (s : Server ν) : InferenceRequest ν :=
  buildRequest config msg decoded
    ((s.cadence.onRequest clock.tracked decoded.clientId).timeUntilNext clock.built
      decoded.clientId) s.nextObj

/-- A pass that accepts an observation tracks it, builds the request and submits it. -/
theorem receive_accepted {msg : IncomingObservation} (clock : ReceiveClock)
    {decoded : DecodedObservation ν}
    (hdecode : decode pb clock.nowNs msg.envelope msg.payload msg.receivedAt = .ok decoded)
    (m : Moment ν) (s : Server ν) :
    s.receive config pb msg clock m =
      (log [.accepted (s.requestOf config msg clock decoded)]
        { s.track msg decoded clock.tracked with nextObj := s.nextObj + 1 }).submitRequest
        config m (s.requestOf config msg clock decoded) := by
  obtain ⟨_, _, _, _, _, htrack⟩ := track_frame msg decoded clock.tracked s
  simp only [receive, hdecode, htrack, requestOf]

theorem receive_frame {msg : IncomingObservation} (clock : ReceiveClock)
    {decoded : DecodedObservation ν}
    (hdecode : decode pb clock.nowNs msg.envelope msg.payload msg.receivedAt = .ok decoded)
    (m : Moment ν) (s : Server ν) :
    ∃ scheduler metrics modelEvents loops, s.receive config pb msg clock m =
      { log [.accepted (s.requestOf config msg clock decoded)]
          { s.track msg decoded clock.tracked with nextObj := s.nextObj + 1 } with
        scheduler := scheduler
        metrics := metrics
        modelEvents := modelEvents
        loops := loops } := by
  rw [receive_accepted config pb clock hdecode]
  exact submitRequest_frame config m _ _

/-- A rejected observation is counted, or only logged by the program. -/
theorem receive_rejected {msg : IncomingObservation} (clock : ReceiveClock) {e : PyError}
    (hdecode : decode pb clock.nowNs msg.envelope msg.payload msg.receivedAt = .error e)
    (m : Moment ν) (s : Server ν) :
    s.receive config pb msg clock m = s ∨
      s.receive config pb msg clock m = s.record "observation_errors" 1 [] := by
  cases e with
  | observationError message =>
      apply Or.inr
      simp only [receive, hdecode]
  | _ =>
      apply Or.inl
      simp only [receive, hdecode]

theorem receive_rejected_frame {msg : IncomingObservation} (clock : ReceiveClock) {e : PyError}
    (hdecode : decode pb clock.nowNs msg.envelope msg.payload msg.receivedAt = .error e)
    (m : Moment ν) (s : Server ν) :
    ∃ metrics, s.receive config pb msg clock m = { s with metrics := metrics } := by
  rcases receive_rejected config pb clock hdecode m s with h | h
  · exact ⟨s.metrics, h⟩
  · exact ⟨_, h⟩

/-! ## Ticking and swapping -/

theorem checkClient_frame (now : Rat) (clientId : String) (s : Server ν) :
    ∃ scheduler metrics history, s.checkClient config now clientId =
      { s with scheduler := scheduler, metrics := metrics, history := history } := by
  unfold checkClient
  split
  · exact ⟨_, _, _, rfl⟩
  · exact ⟨s.scheduler, s.metrics, s.history, rfl⟩

theorem tick_frame (expiry : InferenceRequest ν → Rat) (now : String → Rat) (s : Server ν) :
    ∃ scheduler metrics history, s.tick config expiry now =
      { s with scheduler := scheduler, metrics := metrics, history := history } := by
  -- the loop over the clients
  have hloop : ∀ (s : Server ν) (clientIds : List String), ∃ scheduler metrics history,
      clientIds.foldl (fun s clientId => s.checkClient config (now clientId) clientId) s =
        { s with scheduler := scheduler, metrics := metrics, history := history } := by
    refine foldl_rel (fun s s' => ∃ scheduler metrics history,
        s' = { s with scheduler := scheduler, metrics := metrics, history := history })
      (fun s => ⟨s.scheduler, s.metrics, s.history, rfl⟩) ?_
      fun s clientId => checkClient_frame config (now clientId) clientId s
    rintro s₁ _ _ ⟨_, _, _, rfl⟩ ⟨scheduler, metrics, history, rfl⟩
    exact ⟨scheduler, metrics, history, rfl⟩
  unfold tick
  dsimp only
  split
  · obtain ⟨scheduler, metrics, history, heq⟩ := hloop
      (record "active_clients" s.clients.activeCount []
        { s with scheduler := (Scheduler.tick expiry s.scheduler).2 }) s.clients.clients.keys
    exact ⟨scheduler, metrics, history, heq⟩
  · obtain ⟨scheduler, metrics, history, heq⟩ := hloop
      (record "active_clients" s.clients.activeCount []
        (record "requests_expired" (Scheduler.tick expiry s.scheduler).1 []
          { s with scheduler := (Scheduler.tick expiry s.scheduler).2 })) s.clients.clients.keys
    exact ⟨scheduler, metrics, history, heq⟩

theorem useScheduler_frame (registered : String → Bool) (strategy : String)
    (policy : Option String) (weights : Option (DeadlineAwareConfig ν)) (s : Server ν) :
    ∃ scheduler, (s.useScheduler config registered strategy policy weights).2 =
      { s with scheduler := scheduler } := by
  unfold useScheduler
  split
  · exact ⟨s.scheduler, rfl⟩
  · split
    · exact ⟨_, rfl⟩
    · split <;> exact ⟨_, rfl⟩

/-! ## The single loop -/

theorem legacyTop_frame (first : Rat) (clock : Nat → Rat) (dispatchTime : Rat) (s : Server ν) :
    ∃ scheduler metrics legacy history, s.legacyTop config first clock dispatchTime =
      { s with scheduler := scheduler, metrics := metrics, legacy := legacy, history := history } := by
  unfold legacyTop
  split
  · split
    · exact ⟨s.scheduler, s.metrics, s.legacy, s.history, rfl⟩
    · dsimp only
      split <;> exact ⟨_, _, _, _, rfl⟩
  · exact ⟨s.scheduler, s.metrics, s.legacy, s.history, rfl⟩

theorem legacyReturned_frame (result : Except PyError (List DispatchResult)) (s : Server ν) :
    ∃ legacy history, s.legacyReturned result = { s with legacy := legacy, history := history } := by
  unfold legacyReturned
  split
  · split <;> exact ⟨_, _, rfl⟩
  · exact ⟨s.legacy, s.history, rfl⟩

theorem legacyResult_frame (issuedAt now : Rat) (m : Moment ν) (s : Server ν) :
    ∃ scheduler responses metrics legacy history, s.legacyResult config issuedAt now m =
      { s with
        scheduler := scheduler
        responses := responses
        metrics := metrics
        legacy := legacy
        history := history } := by
  unfold legacyResult
  split
  · exact ⟨_, _, _, _, _, rfl⟩
  · split
    · exact ⟨_, _, _, _, _, rfl⟩
    · split
      · dsimp only
        split <;> exact ⟨_, _, _, _, _, rfl⟩
      · exact ⟨_, _, _, _, _, rfl⟩
  · exact ⟨s.scheduler, s.responses, s.metrics, s.legacy, s.history, rfl⟩

theorem legacySent_frame (outcome : SendOutcome) (s : Server ν) :
    ∃ metrics legacy history, s.legacySent outcome =
      { s with metrics := metrics, legacy := legacy, history := history } := by
  unfold legacySent
  split
  · split <;> exact ⟨_, _, _, rfl⟩
  · exact ⟨s.metrics, s.legacy, s.history, rfl⟩

/-! ## The loops and tasks of the models -/

theorem loopAcquire_frame (i : Nat) (s : Server ν) :
    ∃ loops, s.loopAcquire i = { s with loops := loops } := by
  unfold loopAcquire
  split
  · exact ⟨s.loops, rfl⟩
  · split
    · exact ⟨_, rfl⟩
    · exact ⟨s.loops, rfl⟩

theorem loopProceed_frame (i : Nat) (now : Rat) (s : Server ν) :
    ∃ scheduler metrics loops tasks history, s.loopProceed i now =
      { s with
        scheduler := scheduler
        metrics := metrics
        loops := loops
        tasks := tasks
        history := history } := by
  unfold loopProceed
  split
  · exact ⟨s.scheduler, s.metrics, s.loops, s.tasks, s.history, rfl⟩
  · split
    · split
      · dsimp only
        split <;> exact ⟨_, _, _, _, _, rfl⟩
      · exact ⟨_, _, _, _, _, rfl⟩
    · exact ⟨s.scheduler, s.metrics, s.loops, s.tasks, s.history, rfl⟩

theorem loopResume_frame (i : Nat) (woken : Bool) (s : Server ν) :
    ∃ loops, s.loopResume i woken = { s with loops := loops } := by
  unfold loopResume
  split
  · exact ⟨s.loops, rfl⟩
  · split
    · exact ⟨_, rfl⟩
    · split
      · split
        · exact ⟨_, rfl⟩
        · exact ⟨s.loops, rfl⟩
      · exact ⟨_, rfl⟩
    · exact ⟨s.loops, rfl⟩

theorem taskStart_frame (i : Nat) (s : Server ν) :
    ∃ tasks history, s.taskStart i = { s with tasks := tasks, history := history } := by
  unfold taskStart
  split
  · exact ⟨s.tasks, s.history, rfl⟩
  · split
    · exact ⟨_, _, rfl⟩
    · exact ⟨s.tasks, s.history, rfl⟩

theorem taskReturned_frame (i : Nat) (result : Except PyError (List DispatchResult))
    (s : Server ν) :
    ∃ loops tasks history, s.taskReturned i result =
      { s with loops := loops, tasks := tasks, history := history } := by
  unfold taskReturned
  split
  · exact ⟨s.loops, s.tasks, s.history, rfl⟩
  · split
    · split <;> exact ⟨_, _, _, rfl⟩
    · exact ⟨s.loops, s.tasks, s.history, rfl⟩

theorem taskResult_frame (i : Nat) (issuedAt now : Rat) (m : Moment ν) (s : Server ν) :
    ∃ scheduler responses metrics loops tasks history, s.taskResult config i issuedAt now m =
      { s with
        scheduler := scheduler
        responses := responses
        metrics := metrics
        loops := loops
        tasks := tasks
        history := history } := by
  unfold taskResult
  split
  · exact ⟨s.scheduler, s.responses, s.metrics, s.loops, s.tasks, s.history, rfl⟩
  · split
    · exact ⟨_, _, _, _, _, _, rfl⟩
    · split
      · exact ⟨_, _, _, _, _, _, rfl⟩
      · split
        · dsimp only
          split <;> exact ⟨_, _, _, _, _, _, rfl⟩
        · exact ⟨_, _, _, _, _, _, rfl⟩
    · exact ⟨s.scheduler, s.responses, s.metrics, s.loops, s.tasks, s.history, rfl⟩

theorem taskSent_frame (i : Nat) (outcome : SendOutcome) (s : Server ν) :
    ∃ metrics loops tasks history, s.taskSent i outcome =
      { s with metrics := metrics, loops := loops, tasks := tasks, history := history } := by
  unfold taskSent
  split
  · exact ⟨s.metrics, s.loops, s.tasks, s.history, rfl⟩
  · split
    · split <;> exact ⟨_, _, _, _, rfl⟩
    · exact ⟨s.metrics, s.loops, s.tasks, s.history, rfl⟩

/-! ## Kinds of steps -/

def Action.IsReceive : Action ν → Prop
  | .receive _ _ _ => True
  | _ => False

/-- The steps of the single loop. -/
def Action.IsLegacy : Action ν → Prop
  | .legacyTop _ _ _ => True
  | .legacyReturned _ => True
  | .legacyResult _ _ _ => True
  | .legacySent _ => True
  | _ => False

/-- The single loop touches neither the loops of the models nor their tasks. -/
theorem legacy_frame (s : Server ν) {a : Action ν} (ha : a.IsLegacy) :
    ∃ scheduler responses metrics legacy history, step config pb s a =
      { s with
        scheduler := scheduler
        responses := responses
        metrics := metrics
        legacy := legacy
        history := history } := by
  cases a with
  | legacyTop first clock dispatchTime =>
      obtain ⟨_, _, _, _, h⟩ := legacyTop_frame config first clock dispatchTime s
      exact ⟨_, _, _, _, _, h⟩
  | legacyReturned result =>
      obtain ⟨_, _, h⟩ := legacyReturned_frame result s
      exact ⟨_, _, _, _, _, h⟩
  | legacyResult issuedAt now m =>
      obtain ⟨_, _, _, _, _, h⟩ := legacyResult_frame config issuedAt now m s
      exact ⟨_, _, _, _, _, h⟩
  | legacySent outcome =>
      obtain ⟨_, _, _, h⟩ := legacySent_frame outcome s
      exact ⟨_, _, _, _, _, h⟩
  | _ => exact absurd ha id

/-- The steps that are not of the single loop leave it where it stands. -/
theorem other_frame (s : Server ν) {a : Action ν} (hreceive : ¬ a.IsReceive)
    (hlegacy : ¬ a.IsLegacy) :
    ∃ scheduler responses metrics loops tasks history, step config pb s a =
      { s with
        scheduler := scheduler
        responses := responses
        metrics := metrics
        loops := loops
        tasks := tasks
        history := history } := by
  cases a with
  | tick expiry now =>
      obtain ⟨_, _, _, h⟩ := tick_frame config expiry now s
      exact ⟨_, _, _, _, _, _, h⟩
  | predictiveWake now =>
      obtain ⟨_, h⟩ := predictiveWake_frame config now s
      exact ⟨_, _, _, _, _, _, h⟩
  | useScheduler registered strategy policy weights =>
      obtain ⟨_, h⟩ := useScheduler_frame config registered strategy policy weights s
      exact ⟨_, _, _, _, _, _, h⟩
  | loopAcquire i =>
      obtain ⟨_, h⟩ := loopAcquire_frame i s
      exact ⟨_, _, _, _, _, _, h⟩
  | loopProceed i now =>
      obtain ⟨_, _, _, _, _, h⟩ := loopProceed_frame i now s
      exact ⟨_, _, _, _, _, _, h⟩
  | loopResume i woken =>
      obtain ⟨_, h⟩ := loopResume_frame i woken s
      exact ⟨_, _, _, _, _, _, h⟩
  | taskStart i =>
      obtain ⟨_, _, h⟩ := taskStart_frame i s
      exact ⟨_, _, _, _, _, _, h⟩
  | taskReturned i result =>
      obtain ⟨_, _, _, h⟩ := taskReturned_frame i result s
      exact ⟨_, _, _, _, _, _, h⟩
  | taskResult i issuedAt now m =>
      obtain ⟨_, _, _, _, _, _, h⟩ := taskResult_frame config i issuedAt now m s
      exact ⟨_, _, _, _, _, _, h⟩
  | taskSent i outcome =>
      obtain ⟨_, _, _, _, h⟩ := taskSent_frame i outcome s
      exact ⟨_, _, _, _, _, _, h⟩
  | receive msg clock m => exact absurd trivial hreceive
  | _ => exact absurd trivial hlegacy

/-- Only a received message changes the trackers, the events of the models, and the objects. -/
theorem step_frame (s : Server ν) {a : Action ν} (ha : ¬ a.IsReceive) :
    ∃ scheduler responses metrics loops legacy tasks history, step config pb s a =
      { s with
        scheduler := scheduler
        responses := responses
        metrics := metrics
        loops := loops
        legacy := legacy
        tasks := tasks
        history := history } := by
  -- the union of what the two kinds of steps may change
  by_cases hlegacy : a.IsLegacy
  · obtain ⟨_, _, _, _, _, h⟩ := legacy_frame config pb s hlegacy
    exact ⟨_, _, _, _, _, _, _, h⟩
  · obtain ⟨_, _, _, _, _, _, h⟩ := other_frame config pb s ha hlegacy
    exact ⟨_, _, _, _, _, _, _, h⟩

end Server
end Inferential
