import Inferential.Server.Frames

/-!
# Work — what the loops do to the queue, and what they log

Each step of the dispatch loops does one of a few things to the queue: it leaves the queue alone, it
takes requests out, or it queues one request again.  With that come the events that it adds to the
history; only the receive loop and the tick loop log arrivals and reports about clients.
-/

namespace Inferential

variable {ν : Type} [Score ν]

/-- The events of a request on its way, once it is accepted. -/
def Event.IsWork : Event ν → Prop
  | .accepted _ => False
  | .connected _ => False
  | .disconnected _ _ => False
  | _ => True

/-- The events of a request that is out of the queue. -/
def Event.IsProgress : Event ν → Prop
  | .dispatched _ => True
  | .returned _ _ => True
  | .responded _ _ => True
  | .sent _ => True
  | _ => False

omit [Score ν] in
theorem Event.IsProgress.isWork {e : Event ν} (h : e.IsProgress) : e.IsWork := by
  cases e with
  | dispatched objId => trivial
  | returned objId success => trivial
  | responded objId identity => trivial
  | sent objId => trivial
  | _ => exact absurd h id

namespace Server

def Action.IsTick : Action ν → Prop
  | .tick _ _ => True
  | _ => False

def Action.IsSwap : Action ν → Prop
  | .useScheduler _ _ _ _ => True
  | _ => False

/-! ## One step -/

/-- What a step of the dispatch loops makes of the queue, and the events that it adds. -/
inductive Effect (config : InferentialConfig ν) (s : Server ν) :
    Action ν → AnyScheduler ν → List (Event ν) → Prop
  | progress (a : Action ν) (events : List (Event ν)) (h : ∀ e ∈ events, e.IsProgress) :
      Effect config s a s.scheduler events
  | collect (first : Rat) (clock : Nat → Rat) (dispatchTime : Rat)
      (batch : List (InferenceRequest ν))
      (howns : (config.scheduling.pipelineDispatch.enabled && s.scheduler.isModelAware) = false) :
      Effect config s (.legacyTop first clock dispatchTime)
        (collectBatch config.scheduling.maxConcurrentDispatch first clock s.scheduler).2
        (batch.map (.taken .legacy) ++ batch.map fun req => .dispatched req.objId)
  | take (i : Nat) (now : Rat) (loop : ModelLoop) (batch : List (InferenceRequest ν))
      (hloop : loop ∈ s.loops)
      (hbatch : batch ⊆ (s.scheduler.nextBatchForModel loop.modelId).1) :
      Effect config s (.loopProceed i now) (s.scheduler.nextBatchForModel loop.modelId).2
        (batch.map (.taken (.model loop.modelId)))
  | requeue (issuedAt now : Rat) (m : Moment ν) {batch : List (InferenceRequest ν)}
      {result : DispatchResult} {results : List DispatchResult} {req : InferenceRequest ν}
      (hlegacy : s.legacy = .processing batch (result :: results))
      (hfailed : result.success = false) (horiginal : originalOf batch result.reqId = some req)
      (hretry : mayRetry config req = true) (ids : List Nat) :
      Effect config s (.legacyResult issuedAt now m)
        (Scheduler.resubmit m (retried req) s.scheduler).state (ids.map .requeued)
  | requeueTask (i : Nat) (issuedAt now : Rat) (m : Moment ν) {task : DispatchTask ν}
      (htask : task ∈ s.tasks) (ids : List Nat) :
      Effect config s (.taskResult i issuedAt now m)
        (Scheduler.resubmit m (retried task.request) s.scheduler).state (ids.map .requeued)

theorem Effect.isWork {config : InferentialConfig ν} {s : Server ν} {a : Action ν}
    {scheduler : AnyScheduler ν} {events : List (Event ν)}
    (h : Effect config s a scheduler events) : ∀ e ∈ events, e.IsWork := by
  intro e he
  cases h with
  | progress _ _ hprogress => exact (hprogress e he).isWork
  | collect first clock dispatchTime batch =>
      rcases List.mem_append.mp he with htaken | hdispatched
      · rcases List.mem_map.mp htaken with ⟨req, -, rfl⟩
        trivial
      · rcases List.mem_map.mp hdispatched with ⟨req, -, rfl⟩
        trivial
  | take i now loop batch =>
      rcases List.mem_map.mp he with ⟨req, -, rfl⟩
      trivial
  | requeue issuedAt now m hlegacy hfailed horiginal hretry ids =>
      rcases List.mem_map.mp he with ⟨id, -, rfl⟩
      trivial
  | requeueTask i issuedAt now m htask ids =>
      rcases List.mem_map.mp he with ⟨id, -, rfl⟩
      trivial

/-- The step from `s` to `s'` has such an effect. -/
def Works (config : InferentialConfig ν) (s : Server ν) (a : Action ν) (s' : Server ν) : Prop :=
  ∃ events, s'.history = s.history ++ events ∧ Effect config s a s'.scheduler events

namespace Works

variable {config : InferentialConfig ν} {s s' : Server ν} {a : Action ν}

theorem of_effect {scheduler : AnyScheduler ν} {events : List (Event ν)}
    (h : Effect config s a scheduler events) (hscheduler : s'.scheduler = scheduler)
    (hhistory : s'.history = s.history ++ events) : Works config s a s' :=
  ⟨events, hhistory, hscheduler.symm ▸ h⟩

theorem same (hscheduler : s'.scheduler = s.scheduler) (hhistory : s'.history = s.history) :
    Works config s a s' :=
  of_effect (.progress a [] (by simp)) hscheduler (by simp [hhistory])

theorem one {e : Event ν} (hscheduler : s'.scheduler = s.scheduler)
    (hhistory : s'.history = s.history ++ [e]) (he : e.IsProgress) : Works config s a s' :=
  of_effect (.progress a [e] (by simpa using he)) hscheduler hhistory

/-- The dispatcher returns. -/
theorem returned {results : List DispatchResult} (hscheduler : s'.scheduler = s.scheduler)
    (hhistory : s'.history =
      s.history ++ results.map fun result => .returned result.reqId result.success) :
    Works config s a s' := by
  refine of_effect (.progress a _ ?_) hscheduler hhistory
  intro e he
  rcases List.mem_map.mp he with ⟨result, -, rfl⟩
  trivial

end Works

variable (config : InferentialConfig ν) (pb : Protobuf ν)

theorem legacyTop_works (first : Rat) (clock : Nat → Rat) (dispatchTime : Rat) (s : Server ν) :
    Works config s (.legacyTop first clock dispatchTime)
      (s.legacyTop config first clock dispatchTime) := by
  unfold legacyTop
  split
  · split
    · exact .same rfl rfl
    · next howns =>
        have howns' := Bool.not_eq_true _ ▸ howns
        dsimp only
        split
        · exact .of_effect (.collect first clock dispatchTime [] howns') rfl (by simp)
        · exact .of_effect (.collect first clock dispatchTime _ howns') rfl rfl
  · exact .same rfl rfl

theorem legacyReturned_works (result : Except PyError (List DispatchResult)) (s : Server ν) :
    Works config s (.legacyReturned result) (s.legacyReturned result) := by
  unfold legacyReturned
  split
  · split
    · exact .same rfl rfl
    · exact .returned rfl rfl
  · exact .same rfl rfl

theorem legacyResult_works (issuedAt now : Rat) (m : Moment ν) (s : Server ν) :
    Works config s (.legacyResult issuedAt now m) (s.legacyResult config issuedAt now m) := by
  unfold legacyResult
  split
  · exact .same rfl rfl
  · next batch result results hlegacy =>
      split
      · exact .one rfl rfl trivial
      · next hfailed =>
          split
          · next req hreq =>
              rcases Option.filter_eq_some_iff.mp hreq with ⟨horiginal, hretry⟩
              have heffect := Effect.requeue issuedAt now m hlegacy (Bool.not_eq_true _ ▸ hfailed)
                horiginal hretry
              dsimp only
              split
              · exact .of_effect (heffect []) rfl (by simp)
              · exact .of_effect (heffect [req.objId]) rfl rfl
          · exact .same rfl rfl
  · exact .same rfl rfl

theorem legacySent_works (outcome : SendOutcome) (s : Server ν) :
    Works config s (.legacySent outcome) (s.legacySent outcome) := by
  unfold legacySent
  split
  · next batch result results hlegacy =>
      split
      · exact .one rfl rfl trivial
      · exact .same rfl rfl
      · exact .same rfl rfl
  · exact .same rfl rfl

theorem loopProceed_works (i : Nat) (now : Rat) (s : Server ν) :
    Works config s (.loopProceed i now) (s.loopProceed i now) := by
  unfold loopProceed
  split
  · exact .same rfl rfl
  · next loop hloop =>
      split
      · split
        · have hmem := List.mem_of_getElem? hloop
          dsimp only
          split
          · exact .of_effect (.take i now loop [] hmem (by simp)) rfl
              (by simp [loopRelease, updateLoop])
          · next request more hbatch =>
              exact .of_effect (.take i now loop [request] hmem (by simp [hbatch])) rfl rfl
        · exact .same rfl rfl
      · exact .same rfl rfl

theorem taskStart_works (i : Nat) (s : Server ν) :
    Works config s (.taskStart i) (s.taskStart i) := by
  unfold taskStart
  split
  · exact .same rfl rfl
  · next task htask =>
      split
      · exact .one rfl rfl trivial
      · exact .same rfl rfl

theorem taskReturned_works (i : Nat) (result : Except PyError (List DispatchResult))
    (s : Server ν) : Works config s (.taskReturned i result) (s.taskReturned i result) := by
  unfold taskReturned
  split
  · exact .same rfl rfl
  · split
    · split
      · exact .same rfl rfl
      · exact .returned rfl rfl
    · exact .same rfl rfl

theorem taskResult_works (i : Nat) (issuedAt now : Rat) (m : Moment ν) (s : Server ν) :
    Works config s (.taskResult i issuedAt now m) (s.taskResult config i issuedAt now m) := by
  unfold taskResult
  split
  · exact .same rfl rfl
  · next task htask =>
      split
      · exact .same rfl rfl
      · next result results hpc =>
          split
          · exact .one rfl rfl trivial
          · split
            · have hmem := List.mem_of_getElem? htask
              dsimp only
              split
              · exact .of_effect (.requeueTask i issuedAt now m hmem []) rfl
                  (by simp [finishTask, updateLoop])
              · exact .of_effect (.requeueTask i issuedAt now m hmem [task.request.objId]) rfl rfl
            · exact .same rfl rfl
      · exact .same rfl rfl

theorem taskSent_works (i : Nat) (outcome : SendOutcome) (s : Server ν) :
    Works config s (.taskSent i outcome) (s.taskSent i outcome) := by
  unfold taskSent
  split
  · exact .same rfl rfl
  · split
    · next result results hpc =>
        split
        · exact .one rfl rfl trivial
        · exact .same rfl rfl
        · exact .same rfl rfl
    · exact .same rfl rfl

/-- The step is one of the dispatch loops, or touches neither the queue nor the history. -/
theorem step_works (s : Server ν) {a : Action ν} (hreceive : ¬ a.IsReceive) (htick : ¬ a.IsTick)
    (hswap : ¬ a.IsSwap) : Works config s a (step config pb s a) := by
  cases a with
  | predictiveWake now =>
      rcases predictiveWake_frame config now s with ⟨_, h⟩
      exact .same ((congrArg scheduler h).trans rfl) ((congrArg history h).trans rfl)
  | legacyTop first clock dispatchTime => exact legacyTop_works config first clock dispatchTime s
  | legacyReturned result => exact legacyReturned_works config result s
  | legacyResult issuedAt now m => exact legacyResult_works config issuedAt now m s
  | legacySent outcome => exact legacySent_works config outcome s
  | loopAcquire i =>
      rcases loopAcquire_frame i s with ⟨_, h⟩
      exact .same ((congrArg scheduler h).trans rfl) ((congrArg history h).trans rfl)
  | loopProceed i now => exact loopProceed_works config i now s
  | loopResume i woken =>
      rcases loopResume_frame i woken s with ⟨_, h⟩
      exact .same ((congrArg scheduler h).trans rfl) ((congrArg history h).trans rfl)
  | taskStart i => exact taskStart_works config i s
  | taskReturned i result => exact taskReturned_works config i result s
  | taskResult i issuedAt now m => exact taskResult_works config i issuedAt now m s
  | taskSent i outcome => exact taskSent_works config i outcome s
  | receive msg clock m => exact absurd trivial hreceive
  | tick expiry now => exact absurd trivial htick
  | useScheduler registered strategy policy weights => exact absurd trivial hswap

/-- A swap adds nothing to the history, and the dispatch loops add work on requests. -/
theorem step_logs (s : Server ν) {a : Action ν} (hreceive : ¬ a.IsReceive) (htick : ¬ a.IsTick) :
    ∃ events, (step config pb s a).history = s.history ++ events ∧ ∀ e ∈ events, e.IsWork := by
  by_cases hswap : a.IsSwap
  · cases a with
    | useScheduler registered strategy policy weights =>
        rcases useScheduler_frame config registered strategy policy weights s with ⟨_, h⟩
        exact ⟨[], ((congrArg history h).trans rfl).trans (List.append_nil _).symm, by simp⟩
    | _ => exact absurd hswap id
  · rcases step_works config pb s hreceive htick hswap with ⟨events, hhistory, heffect⟩
    exact ⟨events, hhistory, heffect.isWork⟩

end Server
end Inferential
