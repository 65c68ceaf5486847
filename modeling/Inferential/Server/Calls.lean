import Inferential.Server.Work

/-!
# Calls — what the steps ask of the scheduler

Without a swap the scheduler after a step is the one before it, after some calls; and only the
single loop and the loops of the models take requests out of it.
-/

namespace Inferential

open PyStd

variable {ν : Type} [Score ν]

/-! ## Calls of the scheduler -/

/-- The second scheduler is the first one after any number of calls. -/
inductive Called (s : AnyScheduler ν) : AnyScheduler ν → Prop
  | start : Called s s
  | submit {s' : AnyScheduler ν} (m : Moment ν) (r : InferenceRequest ν) (h : Called s s') :
      Called s (Scheduler.submit m r s').state
  | resubmit {s' : AnyScheduler ν} (m : Moment ν) (r : InferenceRequest ν) (h : Called s s') :
      Called s (Scheduler.resubmit m r s').state
  | nextBatch {s' : AnyScheduler ν} (now : Rat) (h : Called s s') :
      Called s (Scheduler.nextBatch now s').2
  | nextBatchForModel {s' : AnyScheduler ν} (modelId : String) (h : Called s s') :
      Called s (s'.nextBatchForModel modelId).2
  | tick {s' : AnyScheduler ν} (clock : InferenceRequest ν → Rat) (h : Called s s') :
      Called s (Scheduler.tick clock s').2
  | connected {s' : AnyScheduler ν} (clientId : String) (h : Called s s') :
      Called s (Scheduler.onClientConnected clientId s')
  | disconnected {s' : AnyScheduler ν} (clientId : String) (h : Called s s') :
      Called s (Scheduler.onClientDisconnected clientId s')

namespace Called

variable {s s' : AnyScheduler ν}

theorem isModelAware (h : Called s s') : s'.isModelAware = s.isModelAware := by
  induction h with
  | start => rfl
  | _ => simp_all

theorem inv (h : Called s s') (hinv : AccountedScheduler.Inv s) : AccountedScheduler.Inv s' := by
  induction h with
  | start => exact hinv
  | submit m r _ ih => exact (submit_spec m r ih).1
  | resubmit m r _ ih => exact (AccountedScheduler.resubmit_spec m r ih).1
  | nextBatch now _ ih => exact (AccountedScheduler.nextBatch_spec now ih).1
  | nextBatchForModel modelId _ ih => exact (AnyScheduler.nextBatchForModel_spec modelId ih).1
  | tick clock _ ih => exact (AccountedScheduler.tick_spec clock ih).1
  | connected clientId _ ih => exact (AccountedScheduler.connected_spec clientId ih).1
  | disconnected clientId _ ih => exact (AccountedScheduler.disconnected_spec clientId ih).1

end Called

namespace Server

section Steps

variable (config : InferentialConfig ν) (pb : Protobuf ν)

theorem receive_called (msg : IncomingObservation) (clock : ReceiveClock) (m : Moment ν)
    (s : Server ν) : Called s.scheduler (s.receive config pb msg clock m).scheduler := by
  have htrack : ∀ decoded, Called s.scheduler (s.track msg decoded clock.tracked).scheduler := by
    intro decoded
    cases hnew : (s.clients.onObservation decoded.clientId decoded.modelId).1 with
    | false => simpa [track, hnew, record] using Called.start
    | true => simpa [track, hnew, record, log] using Called.start.connected decoded.clientId
  cases hdecode : decode pb clock.nowNs msg.envelope msg.payload msg.receivedAt with
  | error e =>
      rcases receive_rejected_frame config pb clock hdecode m s with ⟨_, hreceive⟩
      rw [hreceive]
      exact Called.start
  | ok decoded =>
      rw [receive_accepted config pb clock hdecode, submitRequest_scheduler]
      exact (htrack decoded).submit m _

theorem tick_called (expiry : InferenceRequest ν → Rat) (now : String → Rat) (s : Server ν) :
    Called s.scheduler (s.tick config expiry now).scheduler := by
  -- each silent client is one more call
  have hcheck : ∀ (clientIds : List String) (s₁ : Server ν), Called s.scheduler s₁.scheduler →
      Called s.scheduler (clientIds.foldl
        (fun s clientId => s.checkClient config (now clientId) clientId) s₁).scheduler := by
    intro clientIds
    induction clientIds with
    | nil => exact fun _ h => h
    | cons clientId clientIds ih =>
        intro s₁ h
        refine ih _ ?_
        show Called s.scheduler (s₁.checkClient config (now clientId) clientId).scheduler
        unfold checkClient
        split
        · exact h.disconnected clientId
        · exact h
  unfold tick
  dsimp only
  split <;> exact hcheck _ _ (Called.start.tick expiry)

theorem collectBatch_called (maxConcurrent : Nat) (first : Rat) (clock : Nat → Rat)
    (scheduler : AnyScheduler ν) :
    Called scheduler (collectBatch maxConcurrent first clock scheduler).2 := by
  -- each round of the loop is one more call
  have hmore : ∀ (fuel : Nat) (batch : List (InferenceRequest ν)) (s : AnyScheduler ν),
      Called scheduler s → Called scheduler (collectMore maxConcurrent clock fuel batch s).2 := by
    intro fuel
    induction fuel with
    | zero => exact fun _ _ h => h
    | succ fuel ih =>
        intro batch s h
        unfold collectMore
        split
        · dsimp only
          split
          · exact h.nextBatch _
          · exact ih _ _ (h.nextBatch _)
        · exact h
  unfold collectBatch
  dsimp only
  split
  · exact Called.start.nextBatch first
  · exact hmore _ _ _ (Called.start.nextBatch first)

/-- What the dispatch loops do to the queue are calls. -/
theorem Effect.called {config : InferentialConfig ν} {s : Server ν} {a : Action ν}
    {scheduler : AnyScheduler ν} {events : List (Event ν)}
    (h : Effect config s a scheduler events) : Called s.scheduler scheduler := by
  cases h with
  | progress _ _ _ => exact Called.start
  | collect first clock dispatchTime batch howns =>
      exact collectBatch_called _ first clock s.scheduler
  | take i now loop batch hloop hbatch => exact Called.start.nextBatchForModel loop.modelId
  | requeue issuedAt now m hlegacy hfailed horiginal hretry ids =>
      exact Called.start.resubmit m _
  | requeueTask i issuedAt now m htask ids => exact Called.start.resubmit m _

theorem step_called (s : Server ν) {a : Action ν} (ha : ¬ a.IsSwap) :
    Called s.scheduler (step config pb s a).scheduler := by
  by_cases hother : ¬ a.IsReceive ∧ ¬ a.IsTick
  · rcases step_works config pb s hother.1 hother.2 ha with ⟨events, -, heffect⟩
    exact heffect.called
  · cases a with
    | receive msg clock m => exact receive_called config pb msg clock m s
    | tick expiry now => exact tick_called config expiry now s
    | _ => exact absurd ⟨id, id⟩ hother

/-- A swap starts from a fresh scheduler; the rest are calls. -/
theorem step_inv (s : Server ν) (a : Action ν) (hinv : AccountedScheduler.Inv s.scheduler) :
    AccountedScheduler.Inv (step config pb s a).scheduler := by
  cases a with
  | useScheduler registered strategy policy weights =>
      show AccountedScheduler.Inv
        (s.useScheduler config registered strategy policy weights).2.scheduler
      unfold useScheduler
      split
      · exact hinv
      · next scheduler hcreate =>
          have hfresh := (AnyScheduler.createScheduler_fresh hcreate).1
          split
          · exact hfresh
          · split
            · exact hfresh
            · next hpolicy => exact (AnyScheduler.usePolicy_spec hpolicy hfresh).1
  | _ => exact (step_called config pb s (by simp [Action.IsSwap])).inv hinv

end Steps

/-! ## Who takes requests -/

end Server

def Event.taker : Event ν → Option (Owner × InferenceRequest ν)
  | .taken owner r => some (owner, r)
  | _ => none

namespace Server

/-- The requests that have been taken out of the scheduler, and who took them. -/
def taken (s : Server ν) : List (Owner × InferenceRequest ν) := s.history.filterMap Event.taker

section Takers

variable (config : InferentialConfig ν) (pb : Protobuf ν)

theorem taken_log {s s' : Server ν} (events : List (Event ν))
    (hhistory : s'.history = s.history ++ events) (hevents : events.filterMap Event.taker = []) :
    s'.taken = s.taken := by
  rw [taken, hhistory, List.filterMap_append, hevents, List.append_nil]
  rfl

theorem receive_taken (msg : IncomingObservation) (clock : ReceiveClock) (m : Moment ν)
    (s : Server ν) : (s.receive config pb msg clock m).taken = s.taken := by
  cases hdecode : decode pb clock.nowNs msg.envelope msg.payload msg.receivedAt with
  | error e =>
      rcases receive_rejected_frame config pb clock hdecode m s with ⟨_, hreceive⟩
      rw [hreceive]
      rfl
  | ok decoded =>
      have htrack : (s.track msg decoded clock.tracked).taken = s.taken := by
        cases hnew : (s.clients.onObservation decoded.clientId decoded.modelId).1 <;>
          simp [track, hnew, record, log, taken, Event.taker]
      obtain ⟨_, _, _, _, hreceive⟩ := receive_frame config pb clock hdecode m s
      rw [hreceive, ← htrack]
      exact taken_log [.accepted _] rfl rfl

theorem tick_taken (expiry : InferenceRequest ν → Rat) (now : String → Rat) (s : Server ν) :
    (s.tick config expiry now).taken = s.taken := by
  have hcheck : ∀ (s : Server ν) (clientIds : List String), (clientIds.foldl
      (fun s clientId => s.checkClient config (now clientId) clientId) s).taken = s.taken := by
    refine foldl_rel (fun s s' => s'.taken = s.taken) (fun _ => rfl)
      (fun _ _ _ h h' => h'.trans h) fun s clientId => ?_
    unfold checkClient
    split
    · exact taken_log [.disconnected _ _] rfl rfl
    · rfl
  unfold tick
  dsimp only
  split <;> exact (hcheck _ _).trans rfl

/-- The single loop takes requests when it does not yield, and the loop of a model those of its own
model. -/
theorem Effect.taken {config : InferentialConfig ν} {s : Server ν} {a : Action ν}
    {scheduler : AnyScheduler ν} {events : List (Event ν)}
    (h : Effect config s a scheduler events) (hinv : AccountedScheduler.Inv s.scheduler) :
    ∀ t ∈ events.filterMap Event.taker, (t.1 = .legacy ∧
        (config.scheduling.pipelineDispatch.enabled && s.scheduler.isModelAware) = false) ∨
      ∃ loop ∈ s.loops, t.1 = .model loop.modelId ∧ t.2.modelId = loop.modelId := by
  intro t ht
  rcases List.mem_filterMap.mp ht with ⟨e, he, htaker⟩
  cases h with
  | progress _ _ hprogress =>
      have hnone := hprogress e he
      cases e with
      | taken owner r => exact absurd hnone id
      | _ => cases htaker
  | collect first clock dispatchTime batch howns =>
      rcases List.mem_append.mp he with htaken | hdispatched
      · rcases List.mem_map.mp htaken with ⟨req, -, rfl⟩
        cases htaker
        exact Or.inl ⟨rfl, howns⟩
      · rcases List.mem_map.mp hdispatched with ⟨req, -, rfl⟩
        cases htaker
  | take i now loop batch hloop hbatch =>
      rcases List.mem_map.mp he with ⟨req, hreq, rfl⟩
      cases htaker
      rcases AnyScheduler.nextBatchForModel_spec loop.modelId hinv with ⟨-, -, -, hmodel⟩
      exact Or.inr ⟨loop, hloop, rfl, hmodel req (hbatch hreq)⟩
  | requeue issuedAt now m hlegacy hfailed horiginal hretry ids =>
      rcases List.mem_map.mp he with ⟨id, -, rfl⟩
      cases htaker
  | requeueTask i issuedAt now m htask ids =>
      rcases List.mem_map.mp he with ⟨id, -, rfl⟩
      cases htaker

/-- What a step takes, the single loop takes when it does not yield, or the loop of a model takes
of its own model. -/
theorem step_taken (s : Server ν) (a : Action ν) (hinv : AccountedScheduler.Inv s.scheduler) :
    ∀ t ∈ (step config pb s a).taken, t ∈ s.taken ∨
      (t.1 = .legacy ∧
        (config.scheduling.pipelineDispatch.enabled && s.scheduler.isModelAware) = false) ∨
      ∃ loop ∈ s.loops, t.1 = .model loop.modelId ∧ t.2.modelId = loop.modelId := by
  intro t ht
  by_cases hother : ¬ a.IsReceive ∧ ¬ a.IsTick ∧ ¬ a.IsSwap
  · rcases step_works config pb s hother.1 hother.2.1 hother.2.2 with ⟨events, hhistory, heffect⟩
    rw [Server.taken, hhistory, List.filterMap_append] at ht
    exact (List.mem_append.mp ht).imp_right (heffect.taken hinv t)
  · -- the other steps take nothing
    left
    cases a with
    | receive msg clock m => exact receive_taken config pb msg clock m s ▸ ht
    | tick expiry now => exact tick_taken config expiry now s ▸ ht
    | useScheduler registered strategy policy weights =>
        rcases useScheduler_frame config registered strategy policy weights s with ⟨_, h⟩
        exact (congrArg Server.taken h).trans rfl ▸ ht
    | _ => exact absurd ⟨id, id, id⟩ hother

/-! ## Who stands where -/

theorem setEvent_length (modelId : String) (s : Server ν) :
    (s.setEvent modelId).loops.length = s.loops.length := by
  unfold setEvent
  split
  · rfl
  · simp [updateLoop]

theorem predictiveWake_length (now : String → Rat) (s : Server ν) :
    (s.predictiveWake config now).loops.length = s.loops.length :=
  predictiveWake_rel config (fun s s' => s'.loops.length = s.loops.length) (fun _ => rfl)
    (fun _ _ _ h h' => h'.trans h) (fun s modelId => setEvent_length modelId s) now s

/-- Only an observation can start a loop, and only under a model-aware scheduler. -/
theorem receive_loops (msg : IncomingObservation) (clock : ReceiveClock) (m : Moment ν)
    {s : Server ν} (haware : s.scheduler.isModelAware = false) :
    (s.receive config pb msg clock m).loops = s.loops := by
  cases hdecode : decode pb clock.nowNs msg.envelope msg.payload msg.receivedAt with
  | error e =>
      rcases receive_rejected_frame config pb clock hdecode m s with ⟨_, hreceive⟩
      rw [hreceive]
  | ok decoded =>
      obtain ⟨_, _, _, _, _, htrack⟩ := track_frame msg decoded clock.tracked s
      have hloops : (s.track msg decoded clock.tracked).loops = s.loops :=
        (congrArg loops htrack).trans rfl
      -- connecting a client does not change the kind of the scheduler
      have haware' : (s.track msg decoded clock.tracked).scheduler.isModelAware = false := by
        cases hnew : (s.clients.onObservation decoded.clientId decoded.modelId).1 <;>
          simp [track, hnew, record, log, haware]
      rw [receive_accepted config pb clock hdecode]
      unfold submitRequest
      dsimp only
      split
      · exact hloops
      · exact hloops
      · rw [if_neg (by simpa [log] using haware')]
        exact hloops

theorem loopAcquire_length (i : Nat) (s : Server ν) :
    (s.loopAcquire i).loops.length = s.loops.length := by
  unfold loopAcquire
  split
  · rfl
  · split <;> simp [updateLoop]

theorem loopProceed_length (i : Nat) (now : Rat) (s : Server ν) :
    (s.loopProceed i now).loops.length = s.loops.length := by
  unfold loopProceed
  split
  · rfl
  · split
    · split
      · dsimp only
        split <;> simp [updateLoop, loopRelease, log, record]
      · simp [updateLoop, loopRelease]
    · rfl

theorem loopResume_length (i : Nat) (woken : Bool) (s : Server ν) :
    (s.loopResume i woken).loops.length = s.loops.length := by
  unfold loopResume
  split
  · rfl
  · split
    · simp [updateLoop]
    · split
      · split <;> simp [updateLoop]
      · simp [updateLoop]
    · rfl

theorem finishTask_length (i : Nat) (task : DispatchTask ν) (s : Server ν) :
    (s.finishTask i task).loops.length = s.loops.length := by
  simp [finishTask, updateLoop]

theorem taskReturned_length (i : Nat) (result : Except PyError (List DispatchResult))
    (s : Server ν) : (s.taskReturned i result).loops.length = s.loops.length := by
  unfold taskReturned
  split
  · rfl
  · split
    · split
      · exact finishTask_length i _ s
      · rfl
    · rfl

theorem taskResult_length (i : Nat) (issuedAt now : Rat) (m : Moment ν) (s : Server ν) :
    (s.taskResult config i issuedAt now m).loops.length = s.loops.length := by
  unfold taskResult
  split
  · rfl
  · split
    · exact finishTask_length i _ s
    · split
      · rfl
      · split
        · dsimp only
          split
          · exact finishTask_length i _ _
          · rfl
        · rfl
    · rfl

theorem taskSent_length (i : Nat) (outcome : SendOutcome) (s : Server ν) :
    (s.taskSent i outcome).loops.length = s.loops.length := by
  unfold taskSent
  split
  · rfl
  · split
    · split
      · rfl
      · rfl
      · exact finishTask_length i _ s
    · rfl

theorem step_loops_length (s : Server ν) (a : Action ν)
    (ha : a.IsReceive → s.scheduler.isModelAware = false) :
    (step config pb s a).loops.length = s.loops.length := by
  by_cases hlegacy : a.IsLegacy
  · obtain ⟨_, _, _, _, _, h⟩ := legacy_frame config pb s hlegacy
    exact (congrArg (fun s => s.loops.length) h).trans rfl
  cases a with
  | receive msg clock m =>
      exact congrArg List.length (receive_loops config pb msg clock m (ha trivial))
  | tick expiry now =>
      obtain ⟨_, _, _, h⟩ := tick_frame config expiry now s
      exact (congrArg (fun s => s.loops.length) h).trans rfl
  | predictiveWake now => exact predictiveWake_length config now s
  | useScheduler registered strategy policy weights =>
      obtain ⟨_, h⟩ := useScheduler_frame config registered strategy policy weights s
      exact (congrArg (fun s => s.loops.length) h).trans rfl
  | loopAcquire i => exact loopAcquire_length i s
  | loopProceed i now => exact loopProceed_length i now s
  | loopResume i woken => exact loopResume_length i woken s
  | taskStart i =>
      obtain ⟨_, _, h⟩ := taskStart_frame i s
      exact (congrArg (fun s => s.loops.length) h).trans rfl
  | taskReturned i result => exact taskReturned_length i result s
  | taskResult i issuedAt now m => exact taskResult_length config i issuedAt now m s
  | taskSent i outcome => exact taskSent_length i outcome s
  | _ => exact absurd trivial hlegacy

/-- The single loop stays at its top while it yields. -/
theorem step_legacy_top {s : Server ν} (a : Action ν)
    (hyields : (config.scheduling.pipelineDispatch.enabled && s.scheduler.isModelAware) = true)
    (htop : s.legacy = .top) : (step config pb s a).legacy = .top := by
  by_cases hother : ¬ a.IsReceive ∧ ¬ a.IsLegacy
  · obtain ⟨_, _, _, _, _, _, h⟩ := other_frame config pb s hother.1 hother.2
    exact ((congrArg legacy h).trans rfl).trans htop
  cases a with
  | receive msg clock m =>
      show (s.receive config pb msg clock m).legacy = .top
      cases hdecode : decode pb clock.nowNs msg.envelope msg.payload msg.receivedAt with
      | error e =>
          rcases receive_rejected_frame config pb clock hdecode m s with ⟨_, hreceive⟩
          rw [hreceive]
          exact htop
      | ok decoded =>
          obtain ⟨_, _, _, _, _, htrack⟩ := track_frame msg decoded clock.tracked s
          obtain ⟨_, _, _, _, hreceive⟩ := receive_frame config pb clock hdecode m s
          rw [hreceive]
          exact ((congrArg legacy htrack).trans rfl).trans htop
  | legacyTop first clock dispatchTime =>
      show (s.legacyTop config first clock dispatchTime).legacy = .top
      simp [legacyTop, htop, hyields]
  | legacyReturned result => simp [step, legacyReturned, htop]
  | legacyResult issuedAt now m => simp [step, legacyResult, htop]
  | legacySent outcome => simp [step, legacySent, htop]
  | _ => exact absurd ⟨id, id⟩ hother

end Takers

end Server
end Inferential
