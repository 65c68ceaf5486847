import Inferential.Server.Frames

/-!
# Sends — what is recorded of the responses that are sent

Both loops write a response into the tracker and into the metrics before they await
`transport.send`.  So at any time the recorded responses are those whose send has ended, in whatever
way, and those whose send is still awaited.
-/

namespace Inferential

open PyStd

variable {ν : Type} [Score ν]

namespace MetricsCollector

/-- The number of recorded points of a metric. -/
def count (name : String) (c : MetricsCollector) : Nat := c.log.countP fun p => p.name = name

theorem count_record (counted name : String) (value : Rat) (labels : List (String × String))
    (c : MetricsCollector) :
    (c.record name value labels).count counted =
      c.count counted + if c.enabled = true ∧ name = counted then 1 else 0 := by
  unfold record count
  by_cases henabled : c.enabled = true <;> by_cases hname : name = counted <;>
    simp [henabled, hname]

theorem count_recordAll {counted : String} {points : List MetricPoint}
    (hother : ∀ p ∈ points, p.name ≠ counted) (c : MetricsCollector) :
    (c.recordAll points).count counted = c.count counted := by
  induction points generalizing c with
  | nil => rfl
  | cons p points ih =>
      obtain ⟨hp, hpoints⟩ := List.forall_mem_cons.mp hother
      have hrest := ih hpoints (c.record p.name p.value p.labels)
      simpa [recordAll, count_record, hp] using hrest

end MetricsCollector

/-! ## Calls of send -/

/-- The response whose send the loop awaits. -/
def LegacyLoop.awaited : LegacyLoop ν → List DispatchResult
  | .sending _ result _ => [result]
  | _ => []

def DispatchTask.awaited (task : DispatchTask ν) : List DispatchResult :=
  match task.pc with
  | .sending result _ => [result]
  | _ => []

/-- A call of `transport.send` that has ended. -/
structure SendCall where
  response : DispatchResult
  outcome : Server.SendOutcome
  deriving DecidableEq

namespace Server

/-- The sends in progress. -/
def sending (s : Server ν) : List DispatchResult :=
  s.legacy.awaited ++ s.tasks.flatMap DispatchTask.awaited

/-- The send that a step ends. -/
def endedBy (s : Server ν) : Action ν → List SendCall
  | .legacySent outcome => s.legacy.awaited.map (⟨·, outcome⟩)
  | .taskSent i outcome => (s.tasks[i]?.toList.flatMap DispatchTask.awaited).map (⟨·, outcome⟩)
  | _ => []

section Runs

variable (config : InferentialConfig ν) (pb : Protobuf ν)

/-- The sends that a run ends, in order. -/
def sendsEnded : Server ν → List (Action ν) → List SendCall
  | _, [] => []
  | s, a :: actions => s.endedBy a ++ sendsEnded (step config pb s a) actions

end Runs

/-- The tracker knows no response that was not handed to `send`, and there is one point for each
response that was. -/
structure Recorded (enabled : Bool) (s : Server ν) (ended : List SendCall) : Prop where
  enabled_eq : s.metrics.enabled = enabled
  handed : ∀ clientId record, s.responses.active.get? clientId = some record →
    ∃ response ∈ s.sending ++ ended.map SendCall.response,
      response.responseId = record.responseId
  points : s.metrics.count "e2e_latency_ms" =
    if enabled then s.sending.length + ended.length else 0

/-! ## Steps that send nothing -/

/-- Neither the sends nor their metric change. -/
structure Silent (s s' : Server ν) : Prop where
  sending : s'.sending.Perm s.sending
  enabled : s'.metrics.enabled = s.metrics.enabled
  points : s'.metrics.count "e2e_latency_ms" = s.metrics.count "e2e_latency_ms"
  responses : s'.responses = s.responses

namespace Silent

variable {s s' s'' : Server ν}

theorem refl (s : Server ν) : Silent s s := ⟨List.Perm.refl _, rfl, rfl, rfl⟩

theorem trans (h : Silent s s') (h' : Silent s' s'') : Silent s s'' where
  sending := h'.sending.trans h.sending
  enabled := h'.enabled.trans h.enabled
  points := h'.points.trans h.points
  responses := h'.responses.trans h.responses

/-- The loops stand where they stood, and the metrics are the same. -/
theorem same (hlegacy : s'.legacy = s.legacy) (htasks : s'.tasks = s.tasks)
    (hmetrics : s'.metrics = s.metrics) (hresponses : s'.responses = s.responses) :
    Silent s s' where
  sending := by simp only [Server.sending, hlegacy, htasks, List.Perm.refl]
  enabled := congrArg MetricsCollector.enabled hmetrics
  points := congrArg (MetricsCollector.count _) hmetrics
  responses := hresponses

theorem record (h : Silent s s') {name : String} (hname : name ≠ "e2e_latency_ms") (value : Rat)
    (labels : List (String × String)) : Silent s (s'.record name value labels) where
  sending := h.sending
  enabled := (MetricsCollector.record_enabled name value labels s'.metrics).trans h.enabled
  points := by simpa [Server.record, MetricsCollector.count_record, hname] using h.points
  responses := h.responses

theorem recordAll (h : Silent s s') {points : List MetricPoint}
    (hother : ∀ p ∈ points, p.name ≠ "e2e_latency_ms") : Silent s (s'.recordAll points) where
  sending := h.sending
  enabled := (MetricsCollector.recordAll_enabled points s'.metrics).trans h.enabled
  points := (MetricsCollector.count_recordAll hother s'.metrics).trans h.points
  responses := h.responses

theorem log (h : Silent s s') (events : List (Event ν)) : Silent s (s'.log events) :=
  h.trans (same rfl rfl rfl rfl)

end Silent

/-! ## What a step does to the sends -/

/-- A step hands over a response, ends a send, or does neither. -/
inductive SendStep (s s' : Server ν) : List SendCall → Prop
  | silent (h : Silent s s') : SendStep s s' []
  | request (clientId : String) (h : Silent { s with responses := s.responses.onRequest clientId } s') :
      SendStep s s' []
  | issued (issuedAt : Rat) (response : DispatchResult)
      (hsending : s'.sending.Perm (response :: s.sending))
      (henabled : s'.metrics.enabled = s.metrics.enabled)
      (hpoints : s'.metrics.count "e2e_latency_ms" =
        s.metrics.count "e2e_latency_ms" + if s.metrics.enabled then 1 else 0)
      (hresponses : s'.responses = s.responses.onResponseSent issuedAt response.clientId
        response.responseId response.latencyMs) : SendStep s s' []
  | ended (call : SendCall) (hsending : s.sending.Perm (call.response :: s'.sending))
      (henabled : s'.metrics.enabled = s.metrics.enabled)
      (hpoints : s'.metrics.count "e2e_latency_ms" = s.metrics.count "e2e_latency_ms")
      (hresponses : s'.responses = s.responses) : SendStep s s' [call]

section Tasks

variable {s : Server ν} {i : Nat} {task : DispatchTask ν}

theorem sending_set (s' : Server ν) (htask : s.tasks[i]? = some task) (task' : DispatchTask ν)
    (hlegacy : s'.legacy = s.legacy) (htasks : s'.tasks = s.tasks.set i task') :
    (s'.sending ++ task.awaited).Perm (s.sending ++ task'.awaited) := by
  obtain ⟨hi, rfl⟩ := List.getElem?_eq_some_iff.mp htask
  have hset := (List.set_perm_cons_eraseIdx hi task').flatMap_right DispatchTask.awaited
  have hget := (List.getElem_cons_eraseIdx_perm hi).flatMap_right DispatchTask.awaited
  rw [List.flatMap_cons] at hset hget
  simp only [sending, hlegacy, htasks, List.append_assoc]
  refine List.Perm.append_left _ ?_
  calc
    List.Perm _ ((task'.awaited ++ (s.tasks.eraseIdx i).flatMap DispatchTask.awaited) ++
        s.tasks[i].awaited) := hset.append_right _
    List.Perm _ ((s.tasks[i].awaited ++ (s.tasks.eraseIdx i).flatMap DispatchTask.awaited) ++
        task'.awaited) := by
      rw [List.append_assoc]
      exact List.perm_append_comm.trans ((List.perm_append_comm).append_right _)
    List.Perm _ (s.tasks.flatMap DispatchTask.awaited ++ task'.awaited) := hget.append_right _

theorem sending_erase (s' : Server ν) (htask : s.tasks[i]? = some task) (hlegacy : s'.legacy = s.legacy)
    (htasks : s'.tasks = s.tasks.eraseIdx i) : s.sending.Perm (task.awaited ++ s'.sending) := by
  obtain ⟨hi, rfl⟩ := List.getElem?_eq_some_iff.mp htask
  have hget := (List.getElem_cons_eraseIdx_perm hi).flatMap_right DispatchTask.awaited
  rw [List.flatMap_cons] at hget
  simp only [sending, hlegacy, htasks]
  calc
    List.Perm _ (s.legacy.awaited ++ (s.tasks[i].awaited ++
        (s.tasks.eraseIdx i).flatMap DispatchTask.awaited)) := hget.symm.append_left _
    List.Perm _ (s.tasks[i].awaited ++ (s.legacy.awaited ++
        (s.tasks.eraseIdx i).flatMap DispatchTask.awaited)) := by
      rw [← List.append_assoc, ← List.append_assoc]
      exact List.perm_append_comm.append_right _

end Tasks

namespace Silent

variable {s : Server ν} {i : Nat} {task : DispatchTask ν}

/-- The single loop goes on to a place that awaits the same sends. -/
theorem legacy {s' : Server ν} (hs : Silent s s') {legacy : LegacyLoop ν}
    (h : legacy.awaited = s'.legacy.awaited) : Silent s { s' with legacy := legacy } where
  sending := by
    have hsame : Server.sending { s' with legacy := legacy } = s'.sending := by
      simp only [Server.sending, h]
    rw [hsame]
    exact hs.sending
  enabled := hs.enabled
  points := hs.points
  responses := hs.responses

theorem setTask {s' : Server ν} (hs : Silent s s') (htask : s'.tasks[i]? = some task)
    (task' : DispatchTask ν) (h : task'.awaited = task.awaited) :
    Silent s (s'.setTask i task') where
  sending := by
    have hset := sending_set (s'.setTask i task') htask task' rfl rfl
    rw [h] at hset
    exact ((List.perm_append_right_iff _).mp hset).trans hs.sending
  enabled := hs.enabled
  points := hs.points
  responses := hs.responses

theorem finishTask (htask : s.tasks[i]? = some task) (h : task.awaited = []) :
    Silent s (s.finishTask i task) where
  sending := by
    have herase := sending_erase (s.finishTask i task) htask rfl rfl
    rw [h, List.nil_append] at herase
    exact herase.symm
  enabled := rfl
  points := rfl
  responses := rfl

end Silent

/-! ## Step by step -/

section Steps

variable (config : InferentialConfig ν) (pb : Protobuf ν) {s : Server ν}

theorem tick_silent (expiry : InferenceRequest ν → Rat) (now : String → Rat) (s : Server ν) :
    Silent s (s.tick config expiry now) := by
  have hcheck : ∀ (s : Server ν) (clientId : String),
      Silent s (s.checkClient config (now clientId) clientId) := by
    intro s clientId
    unfold checkClient
    split
    · apply Silent.log
      apply Silent.record _ (by decide)
      exact Silent.same rfl rfl rfl rfl
    · exact Silent.refl s
  have hloop := foldl_rel Silent Silent.refl (fun _ _ _ => Silent.trans) hcheck
  unfold tick
  dsimp only
  refine Silent.trans ?_ (hloop _ _)
  apply Silent.record _ (by decide)
  split
  · exact Silent.same rfl rfl rfl rfl
  · apply Silent.record _ (by decide)
    exact Silent.same rfl rfl rfl rfl

theorem submitRequest_silent (m : Moment ν) (request : InferenceRequest ν) (s : Server ν) :
    Silent s (s.submitRequest config m request) := by
  unfold submitRequest
  dsimp only
  split
  · apply Silent.record _ (by decide)
    exact Silent.same rfl rfl rfl rfl
  · exact Silent.same rfl rfl rfl rfl
  · split
    -- starting and waking the loop of the model touches neither the sends nor the metrics
    · rcases woken_frame config request.modelId
        { s with scheduler := (Scheduler.submit m request s.scheduler).state } with ⟨_, _, hwoken⟩
      rw [hwoken]
      exact Silent.same rfl rfl rfl rfl
    · exact Silent.same rfl rfl rfl rfl

/-- An accepted observation consumes the response of its client, any other one changes nothing. -/
theorem receive_sends (msg : IncomingObservation) (clock : ReceiveClock) (m : Moment ν)
    (s : Server ν) : SendStep s (s.receive config pb msg clock m) [] := by
  cases hdecode : decode pb clock.nowNs msg.envelope msg.payload msg.receivedAt with
  | error e =>
      refine SendStep.silent ?_
      rcases receive_rejected config pb clock hdecode m s with hreceive | hreceive
      · rw [hreceive]
        exact Silent.refl s
      · rw [hreceive]
        exact (Silent.refl s).record (by decide) _ _
  | ok decoded =>
      refine SendStep.request decoded.clientId ?_
      rw [receive_accepted config pb clock hdecode]
      refine Silent.trans ?_ (submitRequest_silent config m _ _)
      apply Silent.log
      have htrack : Silent { s with responses := s.responses.onRequest decoded.clientId }
          (s.track msg decoded clock.tracked) := by
        unfold track
        dsimp only
        apply Silent.record _ (by decide)
        apply Silent.record _ (by decide)
        split <;> exact Silent.same rfl rfl rfl rfl
      exact htrack.trans (Silent.same rfl rfl rfl rfl)

theorem legacyTop_silent (first : Rat) (clock : Nat → Rat) (dispatchTime : Rat) (s : Server ν) :
    Silent s (s.legacyTop config first clock dispatchTime) := by
  unfold legacyTop
  split
  · next htop =>
      split
      · exact Silent.refl s
      · dsimp only
        split
        · exact Silent.same rfl rfl rfl rfl
        · apply Silent.legacy _ (by simp [LegacyLoop.awaited, htop, log, Server.recordAll, Server.record])
          apply Silent.log
          apply Silent.recordAll _ (by simp)
          apply Silent.record _ (by decide)
          apply Silent.record _ (by decide)
          exact Silent.same rfl rfl rfl rfl
  · exact Silent.refl s

theorem legacyReturned_silent (result : Except PyError (List DispatchResult)) (s : Server ν) :
    Silent s (s.legacyReturned result) := by
  unfold legacyReturned
  split
  · next batch hdispatching =>
      cases result with
      | error e => exact (Silent.refl s).legacy (by simp [LegacyLoop.awaited, hdispatching])
      | ok results =>
          exact ((Silent.refl s).log _).legacy (by simp [LegacyLoop.awaited, log, hdispatching])
  · exact Silent.refl s

/-- A success is recorded as sent, and its send is awaited from then on. -/
theorem legacyResult_sends (issuedAt now : Rat) (m : Moment ν) (s : Server ν) :
    SendStep s (s.legacyResult config issuedAt now m) [] := by
  unfold legacyResult
  split
  · next hprocessing =>
      exact SendStep.silent ((Silent.refl s).legacy (by simp [LegacyLoop.awaited, hprocessing]))
  · next batch result results hprocessing =>
      split
      · refine SendStep.issued issuedAt result ?_ ?_ ?_ rfl
        · simp [sending, LegacyLoop.awaited, hprocessing, log, Server.record]
        · simp [log, Server.record]
        · simp [log, Server.record, MetricsCollector.count_record]
      · refine SendStep.silent ?_
        split
        · next original _ =>
            dsimp only
            split
            · have hresubmit : Silent s
                  { s with scheduler := (Scheduler.resubmit m (retried original) s.scheduler).state } :=
                Silent.same rfl rfl rfl rfl
              exact hresubmit.legacy (by simp [LegacyLoop.awaited, hprocessing])
            · apply Silent.legacy _ (by simp [LegacyLoop.awaited, hprocessing, log, Server.record])
              apply Silent.log
              apply Silent.record _ (by decide)
              exact Silent.same rfl rfl rfl rfl
        · apply Silent.legacy _ (by simp [LegacyLoop.awaited, hprocessing, Server.record])
          exact (Silent.refl s).record (by decide) _ _
  · exact SendStep.silent (Silent.refl s)

theorem legacySent_sends (outcome : SendOutcome) (s : Server ν) :
    SendStep s (s.legacySent outcome) (s.endedBy (.legacySent outcome)) := by
  unfold legacySent endedBy
  split
  · next batch result results hsending =>
      have hperm : s.sending.Perm (result :: s.tasks.flatMap DispatchTask.awaited) := by
        simp [sending, LegacyLoop.awaited, hsending]
      simp only [LegacyLoop.awaited, hsending, List.map_cons, List.map_nil]
      cases outcome with
      | sent => exact SendStep.ended ⟨result, _⟩ hperm rfl rfl rfl
      -- a failure is counted, and nothing else is taken back
      | zmqError message =>
          refine SendStep.ended ⟨result, _⟩ hperm ?_ ?_ rfl
          · simp [Server.record]
          · simp [Server.record, MetricsCollector.count_record]
      | raised message => exact SendStep.ended ⟨result, _⟩ hperm rfl rfl rfl
  · next hother =>
      have hnone : s.legacy.awaited = [] := by
        unfold LegacyLoop.awaited
        split
        · next batch result results hsending => exact absurd hsending (hother batch result results)
        · rfl
      rw [hnone]
      exact SendStep.silent (Silent.refl s)

theorem loopProceed_silent (i : Nat) (now : Rat) (s : Server ν) :
    Silent s (s.loopProceed i now) := by
  unfold loopProceed
  split
  · exact Silent.refl s
  · next loop _ =>
      split
      · split
        · dsimp only
          split
          · exact Silent.same rfl rfl rfl rfl
          · next request _ _ =>
              have hrecorded : Silent s (log [.taken (.model loop.modelId) request]
                  (record "queue_depth" ((s.scheduler.nextBatchForModel loop.modelId).2.queueLenForModel
                    loop.modelId) [("model", loop.modelId)]
                  (record "scheduling_wait_ms" ((now - request.receivedAt) * 1000)
                    [("client", request.clientId), ("model", loop.modelId)]
                    { s with scheduler := (s.scheduler.nextBatchForModel loop.modelId).2 }))) := by
                apply Silent.log
                apply Silent.record _ (by decide)
                apply Silent.record _ (by decide)
                exact Silent.same rfl rfl rfl rfl
              -- the new task has not called the dispatcher yet
              refine ⟨?_, hrecorded.enabled, hrecorded.points, rfl⟩
              simp [sending, updateLoop, log, Server.record, DispatchTask.awaited]
        · exact Silent.same rfl rfl rfl rfl
      · exact Silent.refl s

theorem taskStart_silent (i : Nat) (s : Server ν) : Silent s (s.taskStart i) := by
  unfold taskStart
  split
  · exact Silent.refl s
  · next task htask =>
      split
      · next hpc =>
          apply Silent.setTask ((Silent.refl s).log _) htask
          simp [DispatchTask.awaited, hpc]
      · exact Silent.refl s

theorem taskReturned_silent (i : Nat) (result : Except PyError (List DispatchResult))
    (s : Server ν) : Silent s (s.taskReturned i result) := by
  unfold taskReturned
  split
  · exact Silent.refl s
  · next task htask =>
      split
      · next hpc =>
          have hnone : task.awaited = [] := by simp [DispatchTask.awaited, hpc]
          cases result with
          | error e => exact Silent.finishTask htask hnone
          | ok results =>
              apply Silent.setTask ((Silent.refl s).log _) htask
              simp [DispatchTask.awaited, hpc]
      · exact Silent.refl s

theorem taskResult_sends (i : Nat) (issuedAt now : Rat) (m : Moment ν) (s : Server ν) :
    SendStep s (s.taskResult config i issuedAt now m) [] := by
  unfold taskResult
  split
  · exact SendStep.silent (Silent.refl s)
  · next task htask =>
      split
      · next hpc =>
          exact SendStep.silent (Silent.finishTask htask (by simp [DispatchTask.awaited, hpc]))
      · next result results hpc =>
          have hnone : task.awaited = [] := by simp [DispatchTask.awaited, hpc]
          split
          · refine SendStep.issued issuedAt result ?_ ?_ ?_ rfl
            · have hset := sending_set (s.setTask i { task with pc := .sending result results })
                htask { task with pc := .sending result results } rfl rfl
              rw [hnone, List.append_nil] at hset
              exact hset.trans (List.perm_append_singleton result s.sending)
            · simp [setTask, log, Server.record]
            · simp [setTask, log, Server.record, MetricsCollector.count_record]
          · refine SendStep.silent ?_
            split
            · dsimp only
              have hresubmit : Silent s { s with
                  scheduler := (Scheduler.resubmit m (retried task.request) s.scheduler).state } :=
                Silent.same rfl rfl rfl rfl
              split
              · exact hresubmit.trans (Silent.finishTask htask hnone)
              · exact ((hresubmit.record (by decide) _ _).log _).setTask htask _ (by rw [hnone]; rfl)
            · exact ((Silent.refl s).record (by decide) _ _).setTask htask _ (by rw [hnone]; rfl)
      · exact SendStep.silent (Silent.refl s)

theorem taskSent_sends (i : Nat) (outcome : SendOutcome) (s : Server ν) :
    SendStep s (s.taskSent i outcome) (s.endedBy (.taskSent i outcome)) := by
  cases htask : s.tasks[i]? with
  | none =>
      simp only [taskSent, endedBy, htask]
      exact SendStep.silent (Silent.refl s)
  | some task =>
      have hended : s.endedBy (.taskSent i outcome) = task.awaited.map (⟨·, outcome⟩) := by
        simp [endedBy, htask]
      simp only [taskSent, htask, hended]
      split
      · next result results hpc =>
          have hone : task.awaited = [result] := by simp [DispatchTask.awaited, hpc]
          have hset := sending_set (s.setTask i { task with pc := .processing results })
            htask { task with pc := .processing results } rfl rfl
          rw [hone, DispatchTask.awaited, List.append_nil] at hset
          have hsent : s.sending.Perm
              (result :: (s.setTask i { task with pc := .processing results }).sending) :=
            hset.symm.trans (List.perm_append_singleton result _)
          rw [hone, List.map_singleton]
          -- the task goes on, or the exception ends it
          cases outcome with
          | sent => exact SendStep.ended ⟨result, _⟩ hsent rfl rfl rfl
          | zmqError message =>
              refine SendStep.ended ⟨result, _⟩ hsent ?_ ?_ rfl
              · simp [setTask, Server.record]
              · simp [setTask, Server.record, MetricsCollector.count_record]
          | raised message =>
              have herase := sending_erase (s.finishTask i task) htask rfl rfl
              rw [hone] at herase
              exact SendStep.ended ⟨result, _⟩ herase rfl rfl rfl
      · next hother =>
          have hnone : task.awaited = [] := by
            unfold DispatchTask.awaited
            split
            · next result results hsending => exact absurd hsending (hother result results)
            · rfl
          rw [hnone]
          exact SendStep.silent (Silent.refl s)

/-- What any step does to the sends. -/
theorem step_sends (s : Server ν) (a : Action ν) :
    SendStep s (step config pb s a) (s.endedBy a) := by
  cases a with
  | receive msg clock m => exact receive_sends config pb msg clock m s
  | tick expiry now => exact SendStep.silent (tick_silent config expiry now s)
  | predictiveWake now =>
      obtain ⟨_, h⟩ := predictiveWake_frame config now s
      refine SendStep.silent ?_
      rw [step, h]
      exact Silent.same rfl rfl rfl rfl
  | useScheduler registered strategy policy weights =>
      obtain ⟨_, h⟩ := useScheduler_frame config registered strategy policy weights s
      refine SendStep.silent ?_
      rw [step, h]
      exact Silent.same rfl rfl rfl rfl
  | legacyTop first clock dispatchTime =>
      exact SendStep.silent (legacyTop_silent config first clock dispatchTime s)
  | legacyReturned result => exact SendStep.silent (legacyReturned_silent result s)
  | legacyResult issuedAt now m => exact legacyResult_sends config issuedAt now m s
  | legacySent outcome => exact legacySent_sends outcome s
  | loopAcquire i =>
      obtain ⟨_, h⟩ := loopAcquire_frame i s
      refine SendStep.silent ?_
      rw [step, h]
      exact Silent.same rfl rfl rfl rfl
  | loopProceed i now => exact SendStep.silent (loopProceed_silent i now s)
  | loopResume i woken =>
      obtain ⟨_, h⟩ := loopResume_frame i woken s
      refine SendStep.silent ?_
      rw [step, h]
      exact Silent.same rfl rfl rfl rfl
  | taskStart i => exact SendStep.silent (taskStart_silent i s)
  | taskReturned i result => exact SendStep.silent (taskReturned_silent i result s)
  | taskResult i issuedAt now m => exact taskResult_sends config i issuedAt now m s
  | taskSent i outcome => exact taskSent_sends i outcome s

end Steps

/-! ## Along a run -/

section Recorded

variable {enabled : Bool} {s s' : Server ν} {ended : List SendCall}

theorem Recorded.silent (h : Recorded enabled s ended) (hs : Silent s s') :
    Recorded enabled s' ended where
  enabled_eq := hs.enabled.trans h.enabled_eq
  handed clientId record hrecord := by
    rw [hs.responses] at hrecord
    obtain ⟨response, hresponse, hid⟩ := h.handed clientId record hrecord
    exact ⟨response, (hs.sending.append_right _).mem_iff.mpr hresponse, hid⟩
  points := by
    rw [hs.points, hs.sending.length_eq]
    exact h.points

/-- A new request may consume a response, but it stays the same response. -/
theorem Recorded.request (h : Recorded enabled s ended) (clientId : String) :
    Recorded enabled { s with responses := s.responses.onRequest clientId } ended where
  enabled_eq := h.enabled_eq
  handed clientId' record hrecord := by
    obtain ⟨record', hrecord', hid⟩ : ∃ record', s.responses.active.get? clientId' = some record' ∧
        record'.responseId = record.responseId := by
      revert hrecord
      simp only [ResponseTracker.onRequest]
      cases hprev : s.responses.active.get? clientId with
      | none => exact fun hrecord => ⟨record, hrecord, rfl⟩
      | some prev =>
          dsimp only
          split
          · rw [Dict.get?_set]
            split
            · next heq =>
                rintro hrecord
                cases hrecord
                exact ⟨prev, heq ▸ hprev, rfl⟩
            · exact fun hrecord => ⟨record, hrecord, rfl⟩
          · exact fun hrecord => ⟨record, hrecord, rfl⟩
    rw [← hid]
    exact h.handed clientId' record' hrecord'
  points := h.points

theorem Recorded.issued (h : Recorded enabled s ended) {issuedAt : Rat} {response : DispatchResult}
    (hsending : s'.sending.Perm (response :: s.sending))
    (henabled : s'.metrics.enabled = s.metrics.enabled)
    (hpoints : s'.metrics.count "e2e_latency_ms" =
      s.metrics.count "e2e_latency_ms" + if s.metrics.enabled then 1 else 0)
    (hresponses : s'.responses = s.responses.onResponseSent issuedAt response.clientId
      response.responseId response.latencyMs) : Recorded enabled s' ended where
  enabled_eq := henabled.trans h.enabled_eq
  handed clientId record hrecord := by
    have hperm := hsending.append_right (ended.map SendCall.response)
    rw [hresponses, ResponseTracker.onResponseSent, Dict.get?_set] at hrecord
    split at hrecord
    -- the record of this client is the new one
    · cases hrecord
      exact ⟨response, hperm.mem_iff.mpr (by simp), rfl⟩
    · obtain ⟨response', hresponse', hid⟩ := h.handed clientId record hrecord
      exact ⟨response', hperm.mem_iff.mpr (List.mem_cons_of_mem response hresponse'), hid⟩
  points := by
    have hbefore := h.points
    have hlength := hsending.length_eq
    rw [h.enabled_eq] at hpoints
    cases enabled with
    | true =>
        simp only [if_true, List.length_cons] at hpoints hbefore hlength ⊢
        omega
    | false => simpa [hpoints] using hbefore

theorem Recorded.finish {call : SendCall} (h : Recorded enabled s ended)
    (hsending : s.sending.Perm (call.response :: s'.sending))
    (henabled : s'.metrics.enabled = s.metrics.enabled)
    (hpoints : s'.metrics.count "e2e_latency_ms" = s.metrics.count "e2e_latency_ms")
    (hresponses : s'.responses = s.responses) : Recorded enabled s' (ended ++ [call]) where
  enabled_eq := henabled.trans h.enabled_eq
  handed clientId record hrecord := by
    rw [hresponses] at hrecord
    obtain ⟨response, hresponse, hid⟩ := h.handed clientId record hrecord
    refine ⟨response, ?_, hid⟩
    -- the response of the call moves from the sends in progress to the ended ones
    rcases List.mem_append.mp hresponse with hnow | hbefore
    · rcases List.mem_cons.mp (hsending.mem_iff.mp hnow) with rfl | hstill
      · simp
      · exact List.mem_append_left _ hstill
    · simp only [List.map_append, List.mem_append]
      exact Or.inr (Or.inl hbefore)
  points := by
    have hbefore := h.points
    have hlength := hsending.length_eq
    rw [hpoints, hbefore, hlength, List.length_cons, List.length_append, List.length_singleton,
      Nat.add_right_comm, Nat.add_assoc]

theorem Recorded.step {calls : List SendCall} (h : Recorded enabled s ended)
    (hstep : SendStep s s' calls) : Recorded enabled s' (ended ++ calls) := by
  cases hstep with
  | silent hs => simpa using h.silent hs
  | request clientId hs => simpa using (h.request clientId).silent hs
  | issued issuedAt response hsending henabled hpoints hresponses =>
      simpa using h.issued hsending henabled hpoints hresponses
  | ended call hsending henabled hpoints hresponses =>
      exact h.finish hsending henabled hpoints hresponses

theorem Recorded.run (config : InferentialConfig ν) (pb : Protobuf ν)
    (h : Recorded enabled s ended) (actions : List (Action ν)) :
    Recorded enabled (run config pb s actions) (ended ++ sendsEnded config pb s actions) := by
  induction actions generalizing s ended with
  | nil => simpa [Server.run, sendsEnded] using h
  | cons a actions ih =>
      have hrest := ih (h.step (step_sends config pb s a))
      rwa [List.append_assoc] at hrest

end Recorded

theorem init_recorded {config : InferentialConfig ν} {s : Server ν} (hinit : init config = .ok s) :
    Recorded config.metrics.enabled s [] := by
  unfold init at hinit
  split at hinit
  · cases hinit
  · cases hinit
    exact ⟨rfl, by simp, by simp [MetricsCollector.count, MetricsCollector.init, sending,
      LegacyLoop.awaited]⟩

/-- Only delivered responses are recorded as sent. -/
structure DeliveredOnly (s : Server ν) (ended : List SendCall) : Prop where
  active : ∀ clientId record, s.responses.active.get? clientId = some record →
    record.state = .issued ∨ record.state = .consumed →
      ∃ call ∈ ended, call.response.responseId = record.responseId ∧ call.outcome = .sent
  points : s.metrics.count "e2e_latency_ms" = ended.countP fun call => call.outcome = .sent

/-- In every run, when no send is in progress: the send of an active response has ended, there is
one point for each send that has ended in whatever way, and as long as no send has failed only
delivered responses are recorded. -/
theorem run_recorded (config : InferentialConfig ν) (pb : Protobuf ν) (s₀ : Server ν)
    (hinit : init config = .ok s₀) (actions : List (Action ν))
    (hquiet : (run config pb s₀ actions).sending = []) :
    let s := run config pb s₀ actions
    let ended := sendsEnded config pb s₀ actions
    (∀ clientId record, s.responses.active.get? clientId = some record →
        record.state = .issued ∨ record.state = .consumed →
          ∃ call ∈ ended, call.response.responseId = record.responseId) ∧
      s.metrics.count "e2e_latency_ms" =
        (if config.metrics.enabled then ended.length else 0) ∧
      (config.metrics.enabled = true → (∀ call ∈ ended, call.outcome = .sent) →
        DeliveredOnly s ended) := by
  intro s ended
  have hrecorded : Recorded config.metrics.enabled s ended := by
    simpa using (init_recorded hinit).run config pb actions
  have hactive : ∀ clientId record, s.responses.active.get? clientId = some record →
      ∃ call ∈ ended, call.response.responseId = record.responseId := by
    intro clientId record hrecord
    obtain ⟨response, hresponse, hid⟩ := hrecorded.handed clientId record hrecord
    rw [show s.sending = [] from hquiet, List.nil_append, List.mem_map] at hresponse
    obtain ⟨call, hcall, rfl⟩ := hresponse
    exact ⟨call, hcall, hid⟩
  have hpoints := hrecorded.points
  rw [show s.sending = [] from hquiet, List.length_nil, Nat.zero_add] at hpoints
  refine ⟨fun clientId record hrecord _ => hactive clientId record hrecord, hpoints, ?_⟩
  intro henabled hsent
  refine ⟨?_, ?_⟩
  · intro clientId record hrecord _
    obtain ⟨call, hcall, hid⟩ := hactive clientId record hrecord
    exact ⟨call, hcall, hid, hsent call hcall⟩
  · have hall : (ended.countP fun call => call.outcome = .sent) = ended.length :=
      List.countP_eq_length.mpr (by simpa using hsent)
    rw [hall, hpoints, if_pos henabled]

/-! ### One response -/

def answeredResult : DispatchResult where
  clientId := "robot-01"
  responseId := "r"
  identity := [1]
  envelope := []
  payload := []
  latencyMs := 1
  success := true

/-- The single loop answers a request, and the send ends like this. -/
def answering (outcome : SendOutcome) : List (Action Rat) :=
  [arriveAt 0 0, .legacyTop 0 (fun _ => 0) 0, .legacyReturned (.ok [answeredResult]),
    .legacyResult 0 0 (plainMoment 0), .legacySent outcome]

theorem answered_recorded :
    let s := run plainConfig plainMessages plainServer (answering .sent)
    s.metrics.count "e2e_latency_ms" = 1 ∧
      DeliveredOnly s (sendsEnded plainConfig plainMessages plainServer (answering .sent)) := by
  obtain ⟨-, hpoints, honly⟩ := run_recorded plainConfig plainMessages plainServer rfl
    (answering .sent) (by decide +kernel)
  have hended : sendsEnded plainConfig plainMessages plainServer (answering .sent) =
      [⟨answeredResult, .sent⟩] := by decide +kernel
  rw [hended] at hpoints honly ⊢
  exact ⟨hpoints, honly rfl (by simp)⟩

/-- The client has gone, and its response counts as issued all the same. -/
theorem unreachable_recorded :
    let outcome : SendOutcome := .zmqError "Host unreachable"
    let s := run plainConfig plainMessages plainServer (answering outcome)
    let ended := sendsEnded plainConfig plainMessages plainServer (answering outcome)
    init plainConfig = .ok plainServer ∧ s.sending = [] ∧
      (s.responses.active.get? "robot-01").map ResponseRecord.state = some .issued ∧
      s.metrics.count "e2e_latency_ms" = 1 ∧ ended = [⟨answeredResult, outcome⟩] ∧
      ¬ DeliveredOnly s ended := by
  intro outcome s ended
  have hended : ended = [⟨answeredResult, outcome⟩] := by decide +kernel
  have hpoints : s.metrics.count "e2e_latency_ms" = 1 := by decide +kernel
  refine ⟨rfl, by decide +kernel, by decide +kernel, hpoints, hended, ?_⟩
  intro honly
  have hsent := honly.points
  rw [hpoints, hended] at hsent
  exact absurd hsent (by decide +kernel)

end Server
end Inferential
