import Inferential.Server.Calls
import Inferential.Server.Sends

/-!
# Holdings — the requests and results that the server has

Requests wait in the scheduler, in the batch of the single loop and in the tasks; results wait to be
processed and sent.  What is true of every request and every result stays true as long as it is true
of what comes in: of the observations that are accepted and of the results that the dispatcher
returns.
-/

namespace Inferential

open PyStd

variable {ν : Type} [Score ν]

/-! ## What the loops hold -/

def LegacyLoop.batch : LegacyLoop ν → List (InferenceRequest ν)
  | .dispatching batch => batch
  | .processing batch _ => batch
  | .sending batch _ _ => batch
  | _ => []

def LegacyLoop.results : LegacyLoop ν → List DispatchResult
  | .processing _ results => results
  | .sending _ result results => result :: results
  | _ => []

def DispatchTask.results (task : DispatchTask ν) : List DispatchResult :=
  match task.pc with
  | .processing results => results
  | .sending result results => result :: results
  | _ => []

namespace Server

/-- A property of requests that neither queueing nor retrying can change. -/
structure Copies (P : InferenceRequest ν → Prop) : Prop where
  stamp {r r' : InferenceRequest ν} : r'.unstamped = r.unstamped → P r → P r'
  retried {r : InferenceRequest ν} : P r → P (retried r)

structure Holding (P : InferenceRequest ν → Prop) (Q : DispatchResult → Prop)
    (s : Server ν) : Prop where
  queued : ∀ r ∈ stored s.scheduler, P r
  batch : ∀ r ∈ s.legacy.batch, P r
  results : ∀ result ∈ s.legacy.results, Q result
  /-- only a success is sent -/
  awaited : ∀ result ∈ s.legacy.awaited, result.success = true
  tasks : ∀ task ∈ s.tasks, P task.request ∧ (∀ result ∈ task.results, Q result) ∧
    ∀ result ∈ task.awaited, result.success = true

/-- What comes in with a step: the request of an accepted observation, the results of a dispatch. -/
def Brings (config : InferentialConfig ν) (pb : Protobuf ν) (P : InferenceRequest ν → Prop)
    (Q : DispatchResult → Prop) (s : Server ν) : Action ν → Prop
  | .receive msg clock _ => ∀ decoded,
      decode pb clock.nowNs msg.envelope msg.payload msg.receivedAt = .ok decoded →
        P (s.requestOf config msg clock decoded)
  | .legacyReturned (.ok results) => ∀ batch, s.legacy = .dispatching batch →
      ∀ result ∈ results, Q result
  | .taskReturned i (.ok results) => ∀ task, s.tasks[i]? = some task → task.pc = .dispatching →
      ∀ result ∈ results, Q result
  | _ => True

/-! ## The queue -/

section Queue

variable {P : InferenceRequest ν → Prop} (hcopies : Copies P) {scheduler : AnyScheduler ν}
  (hinv : AccountedScheduler.Inv scheduler) (hall : ∀ r ∈ stored scheduler, P r)

include hinv hall

theorem nextBatch_queued (now : Rat) :
    (∀ r ∈ (Scheduler.nextBatch now scheduler).1, P r) ∧
      ∀ r ∈ stored (Scheduler.nextBatch now scheduler).2, P r := by
  have hperm := (AccountedScheduler.nextBatch_spec now hinv).2.2
  constructor
  · intro r hr
    exact hall r (hperm.mem_iff.mpr (List.mem_append_left _ hr))
  · intro r hr
    exact hall r (hperm.mem_iff.mpr (List.mem_append_right _ hr))

theorem collectMore_queued (maxConcurrent : Nat) (clock : Nat → Rat) (fuel : Nat)
    {batch : List (InferenceRequest ν)} (hbatch : ∀ r ∈ batch, P r) :
    (∀ r ∈ (collectMore maxConcurrent clock fuel batch scheduler).1, P r) ∧
      ∀ r ∈ stored (collectMore maxConcurrent clock fuel batch scheduler).2, P r := by
  induction fuel generalizing batch scheduler with
  | zero => exact ⟨hbatch, hall⟩
  | succ fuel ih =>
      rcases nextBatch_queued hinv hall (clock fuel) with ⟨hmore, hrest⟩
      unfold collectMore
      split
      · dsimp only
        split
        · exact ⟨hbatch, hrest⟩
        · refine ih (AccountedScheduler.nextBatch_spec (clock fuel) hinv).1 hrest ?_
          intro r hr
          rcases List.mem_append.mp hr with hold | hnew
          · exact hbatch r hold
          · exact hmore r hnew
      · exact ⟨hbatch, hall⟩

theorem collectBatch_queued (maxConcurrent : Nat) (first : Rat) (clock : Nat → Rat) :
    (∀ r ∈ (collectBatch maxConcurrent first clock scheduler).1, P r) ∧
      ∀ r ∈ stored (collectBatch maxConcurrent first clock scheduler).2, P r := by
  have hfirst := nextBatch_queued hinv hall first
  unfold collectBatch
  dsimp only
  split
  · exact hfirst
  · exact collectMore_queued (AccountedScheduler.nextBatch_spec first hinv).1 hfirst.2 maxConcurrent
      clock maxConcurrent hfirst.1

theorem disconnected_queued (clientId : String) :
    ∀ r ∈ stored (Scheduler.onClientDisconnected clientId scheduler), P r := by
  intro r hr
  have hperm := (AccountedScheduler.disconnected_spec clientId hinv).2.2
  exact hall r (List.mem_of_mem_filter (hperm.mem_iff.mp hr))

include hcopies

theorem resubmit_queued (m : Moment ν) {request : InferenceRequest ν} (hrequest : P request) :
    ∀ r ∈ stored (Scheduler.resubmit m request scheduler).state, P r := by
  have hrequeues := (AccountedScheduler.resubmit_spec m request hinv).2.2
  intro r hr
  by_cases hraised : (Scheduler.resubmit m request scheduler).raised = none
  · rcases hrequeues.accepted hraised with ⟨queued, hunstamped, hstored⟩
    rcases List.mem_cons.mp (hstored.mem_iff.mp hr) with rfl | hold
    · exact hcopies.stamp hunstamped hrequest
    · exact hall r hold
  · rw [hrequeues.refused hraised] at hr
    exact hall r hr

theorem submit_queued (m : Moment ν) {request : InferenceRequest ν} (hrequest : P request) :
    ∀ r ∈ stored (Scheduler.submit m request scheduler).state, P r := by
  rcases submit_spec m request hinv with ⟨-, -, kept, hperm, haccepted, hrefused⟩
  have hkept : ∀ r ∈ kept, P r := by
    intro r hr
    exact hall r (hperm.mem_iff.mpr (List.mem_append_right _ hr))
  intro r hr
  by_cases hraised : (Scheduler.submit m request scheduler).raised = none
  · rcases haccepted hraised with ⟨queued, hunstamped, hstored⟩
    rcases List.mem_cons.mp (hstored.mem_iff.mp hr) with rfl | hold
    · exact hcopies.stamp hunstamped hrequest
    · exact hkept r hold
  · exact hkept r ((hrefused hraised).mem_iff.mp hr)

end Queue

/-! ## Step by step -/

section Steps

variable {config : InferentialConfig ν} {pb : Protobuf ν} {P : InferenceRequest ν → Prop}
  {Q : DispatchResult → Prop} {s s' : Server ν}

namespace Holding

/-- The loops stand where they stood. -/
theorem requeue (h : Holding P Q s) (hqueued : ∀ r ∈ stored s'.scheduler, P r)
    (hlegacy : s'.legacy = s.legacy) (htasks : s'.tasks = s.tasks) : Holding P Q s' where
  queued := hqueued
  batch := hlegacy ▸ h.batch
  results := hlegacy ▸ h.results
  awaited := hlegacy ▸ h.awaited
  tasks := htasks ▸ h.tasks

theorem same (h : Holding P Q s) (hscheduler : s'.scheduler = s.scheduler)
    (hlegacy : s'.legacy = s.legacy) (htasks : s'.tasks = s.tasks) : Holding P Q s' :=
  h.requeue (hscheduler ▸ h.queued) hlegacy htasks

/-- The single loop goes on. -/
theorem advance (h : Holding P Q s) {legacy : LegacyLoop ν} (hbatch : ∀ r ∈ legacy.batch, P r)
    (hresults : ∀ result ∈ legacy.results, Q result)
    (hawaited : ∀ result ∈ legacy.awaited, result.success = true) :
    Holding P Q { s with legacy := legacy } where
  queued := h.queued
  batch := hbatch
  results := hresults
  awaited := hawaited
  tasks := h.tasks

/-- A task goes on. -/
theorem setTask (h : Holding P Q s) (i : Nat) {task : DispatchTask ν} (hrequest : P task.request)
    (hresults : ∀ result ∈ task.results, Q result)
    (hawaited : ∀ result ∈ task.awaited, result.success = true) :
    Holding P Q (s.setTask i task) where
  queued := h.queued
  batch := h.batch
  results := h.results
  awaited := h.awaited
  tasks := by
    intro task' htask'
    rcases List.mem_or_eq_of_mem_set htask' with hold | rfl
    · exact h.tasks task' hold
    · exact ⟨hrequest, hresults, hawaited⟩

theorem finishTask (h : Holding P Q s) (i : Nat) (task : DispatchTask ν) :
    Holding P Q (s.finishTask i task) where
  queued := h.queued
  batch := h.batch
  results := h.results
  awaited := h.awaited
  tasks := fun task' htask' => h.tasks task' (List.mem_of_mem_eraseIdx htask')

theorem log (h : Holding P Q s) (events : List (Event ν)) : Holding P Q (s.log events) :=
  h.same rfl rfl rfl

theorem record (h : Holding P Q s) (name : String) (value : Rat) (labels : List (String × String)) :
    Holding P Q (s.record name value labels) := h.same rfl rfl rfl

end Holding

theorem tick_holding (h : Holding P Q s) (hinv : AccountedScheduler.Inv s.scheduler)
    (expiry : InferenceRequest ν → Rat) (now : String → Rat) :
    Holding P Q (s.tick config expiry now) := by
  -- a report takes requests out
  have hcheck : ∀ (clientIds : List String) (s : Server ν), Holding P Q s →
      AccountedScheduler.Inv s.scheduler → Holding P Q (clientIds.foldl
        (fun s clientId => s.checkClient config (now clientId) clientId) s) := by
    intro clientIds
    induction clientIds with
    | nil => exact fun _ h _ => h
    | cons clientId clientIds ih =>
        intro s h hinv
        refine ih _ ?_ ?_
        · show Holding P Q (s.checkClient config (now clientId) clientId)
          unfold checkClient
          split
          · exact h.requeue (disconnected_queued hinv h.queued clientId) rfl rfl
          · exact h
        · show AccountedScheduler.Inv (s.checkClient config (now clientId) clientId).scheduler
          unfold checkClient
          split
          · exact (AccountedScheduler.disconnected_spec clientId hinv).1
          · exact hinv
  rcases AccountedScheduler.tick_spec expiry hinv with ⟨hinv', -, hperm, -⟩
  have hqueued : ∀ r ∈ stored (Scheduler.tick expiry s.scheduler).2, P r := by
    intro r hr
    exact h.queued r (List.mem_of_mem_filter (hperm.mem_iff.mp hr))
  unfold tick
  dsimp only
  split
  · exact hcheck _ _ (h.requeue hqueued rfl rfl) hinv'
  · exact hcheck _ _ (h.requeue hqueued rfl rfl) hinv'

theorem useScheduler_holding (h : Holding P Q s) (registered : String → Bool) (strategy : String)
    (policy : Option String) (weights : Option (DeadlineAwareConfig ν)) :
    Holding P Q (s.useScheduler config registered strategy policy weights).2 := by
  rcases useScheduler_frame config registered strategy policy weights s with ⟨scheduler, hframe⟩
  rw [hframe]
  refine h.requeue ?_ rfl rfl
  have hscheduler : (s.useScheduler config registered strategy policy weights).2.scheduler =
      scheduler := congrArg Server.scheduler hframe
  -- the new scheduler is empty, unless there is none
  rw [← hscheduler]
  unfold useScheduler
  split
  · exact h.queued
  · next fresh hcreate =>
      rcases AnyScheduler.createScheduler_fresh hcreate with ⟨hfresh, hempty⟩
      have hnone : ∀ r ∈ stored fresh, P r := by
        intro r hr
        have hnil : stored fresh = [] := hempty
        simp [hnil] at hr
      split
      · exact hnone
      · split
        · exact hnone
        · next hpolicy =>
            intro r hr
            have hsame := (AnyScheduler.usePolicy_spec hpolicy hfresh).2
            exact hnone r (by simpa [stored, hsame] using hr)

/-- The tracker connects a client, which brings no requests; then the request is submitted. -/
theorem receive_holding (h : Holding P Q s) (hinv : AccountedScheduler.Inv s.scheduler)
    (hcopies : Copies P) {msg : IncomingObservation} {clock : ReceiveClock} {m : Moment ν}
    (hbrings : Brings config pb P Q s (.receive msg clock m)) :
    Holding P Q (s.receive config pb msg clock m) := by
  cases hdecode : decode pb clock.nowNs msg.envelope msg.payload msg.receivedAt with
  | error e =>
      rcases receive_rejected_frame config pb clock hdecode m s with ⟨_, hreceive⟩
      rw [hreceive]
      exact h.same rfl rfl rfl
  | ok decoded =>
      rcases track_queue msg decoded clock.tracked hinv with ⟨hinv', -, hperm⟩
      have htracked : ∀ r ∈ stored (s.track msg decoded clock.tracked).scheduler, P r :=
        fun r hr => h.queued r (hperm.mem_iff.mp hr)
      rcases track_frame msg decoded clock.tracked s with ⟨_, _, _, _, _, htrack⟩
      rw [receive_accepted config pb clock hdecode]
      have hstart : Holding P Q (log [.accepted (s.requestOf config msg clock decoded)]
          { s.track msg decoded clock.tracked with nextObj := s.nextObj + 1 }) :=
        h.requeue htracked (by rw [htrack]; rfl) (by rw [htrack]; rfl)
      refine hstart.requeue ?_ ?_ ?_
      · rw [submitRequest_scheduler]
        exact submit_queued hcopies hinv' htracked m (hbrings decoded hdecode)
      · rcases submitRequest_frame config m (s.requestOf config msg clock decoded)
          (log [.accepted (s.requestOf config msg clock decoded)]
            { s.track msg decoded clock.tracked with nextObj := s.nextObj + 1 }) with
          ⟨_, _, _, _, hsubmit⟩
        rw [hsubmit]
      · rcases submitRequest_frame config m (s.requestOf config msg clock decoded)
          (log [.accepted (s.requestOf config msg clock decoded)]
            { s.track msg decoded clock.tracked with nextObj := s.nextObj + 1 }) with
          ⟨_, _, _, _, hsubmit⟩
        rw [hsubmit]

theorem legacyTop_holding (h : Holding P Q s) (hinv : AccountedScheduler.Inv s.scheduler)
    (first : Rat) (clock : Nat → Rat) (dispatchTime : Rat) :
    Holding P Q (s.legacyTop config first clock dispatchTime) := by
  rcases collectBatch_queued hinv h.queued config.scheduling.maxConcurrentDispatch first clock with
    ⟨hbatch, hqueued⟩
  unfold legacyTop
  split
  · split
    · exact h
    · dsimp only
      split
      · exact h.requeue hqueued rfl rfl
      · refine Holding.advance ?_ hbatch (by simp [LegacyLoop.results])
          (by simp [LegacyLoop.awaited])
        exact h.requeue hqueued rfl rfl
  · exact h

theorem legacyReturned_holding (h : Holding P Q s) {result : Except PyError (List DispatchResult)}
    (hbrings : Brings config pb P Q s (.legacyReturned result)) :
    Holding P Q (s.legacyReturned result) := by
  unfold legacyReturned
  split
  · next batch hdispatching =>
      split
      · exact h.advance (by simp [LegacyLoop.batch]) (by simp [LegacyLoop.results])
          (by simp [LegacyLoop.awaited])
      · next results =>
          have hbatch : ∀ r ∈ batch, P r := by simpa [hdispatching, LegacyLoop.batch] using h.batch
          exact (h.log _).advance hbatch (hbrings batch hdispatching) (by simp [LegacyLoop.awaited])
  · exact h

omit [Score ν] in
theorem changeIn_all {request : InferenceRequest ν} {batch : List (InferenceRequest ν)}
    (hrequest : P request) (hbatch : ∀ r ∈ batch, P r) : ∀ r ∈ changeIn request batch, P r := by
  intro r hr
  rcases List.mem_map.mp hr with ⟨old, hold, rfl⟩
  split
  · exact hrequest
  · exact hbatch old hold

theorem legacyResult_holding (h : Holding P Q s) (hinv : AccountedScheduler.Inv s.scheduler)
    (hcopies : Copies P) (issuedAt now : Rat) (m : Moment ν) :
    Holding P Q (s.legacyResult config issuedAt now m) := by
  unfold legacyResult
  split
  · exact h.advance (by simp [LegacyLoop.batch]) (by simp [LegacyLoop.results])
      (by simp [LegacyLoop.awaited])
  · next batch result results hprocessing =>
      have hbatch : ∀ r ∈ batch, P r := by simpa [hprocessing, LegacyLoop.batch] using h.batch
      have hresults : ∀ x ∈ result :: results, Q x := by
        simpa [hprocessing, LegacyLoop.results] using h.results
      have hrest := (List.forall_mem_cons.mp hresults).2
      split
      · next hsuccess =>
          refine Holding.advance ?_ hbatch hresults (by simpa [LegacyLoop.awaited] using hsuccess)
          exact h.same rfl rfl rfl
      · split
        · next original horiginal =>
            -- the request that is queued again is one of the batch
            have hfound := (Option.filter_eq_some_iff.mp horiginal).1
            have hretried : P (retried original) :=
              hcopies.retried (hbatch original (List.mem_of_find?_eq_some hfound))
            have hqueued := resubmit_queued hcopies hinv h.queued m hretried
            have hrequeued : Holding P Q
                { s with scheduler := (Scheduler.resubmit m (retried original) s.scheduler).state } :=
              h.requeue hqueued rfl rfl
            dsimp only
            split
            · exact hrequeued.advance (by simp [LegacyLoop.batch]) (by simp [LegacyLoop.results])
                (by simp [LegacyLoop.awaited])
            · exact ((hrequeued.record _ _ _).log _).advance (changeIn_all hretried hbatch) hrest
                (by simp [LegacyLoop.awaited])
        · exact (h.record _ _ _).advance hbatch hrest (by simp [LegacyLoop.awaited])
  · exact h

theorem legacySent_holding (h : Holding P Q s) (outcome : SendOutcome) :
    Holding P Q (s.legacySent outcome) := by
  unfold legacySent
  split
  · next batch result results hsending =>
      have hbatch : ∀ r ∈ batch, P r := by simpa [hsending, LegacyLoop.batch] using h.batch
      have hresults : ∀ x ∈ result :: results, Q x := by
        simpa [hsending, LegacyLoop.results] using h.results
      have hrest := (List.forall_mem_cons.mp hresults).2
      split
      · exact (h.log _).advance hbatch hrest (by simp [LegacyLoop.awaited])
      · exact (h.record _ _ _).advance hbatch hrest (by simp [LegacyLoop.awaited])
      · exact h.advance (by simp [LegacyLoop.batch]) (by simp [LegacyLoop.results])
          (by simp [LegacyLoop.awaited])
  · exact h

theorem loopProceed_holding (h : Holding P Q s) (hinv : AccountedScheduler.Inv s.scheduler)
    (i : Nat) (now : Rat) : Holding P Q (s.loopProceed i now) := by
  unfold loopProceed
  split
  · exact h
  · next loop _ =>
      have hperm := (AnyScheduler.nextBatchForModel_spec loop.modelId hinv).2.1
      have hqueued : ∀ r ∈ stored (s.scheduler.nextBatchForModel loop.modelId).2, P r := by
        intro r hr
        exact h.queued r (hperm.mem_iff.mpr (List.mem_append_right _ hr))
      split
      · split
        · dsimp only
          split
          · exact h.requeue hqueued rfl rfl
          · next request more hbatch =>
              have hrequest : P request := by
                apply h.queued request
                exact hperm.mem_iff.mpr (List.mem_append_left _ (by simp [hbatch]))
              refine ⟨hqueued, h.batch, h.results, h.awaited, ?_⟩
              intro task htask
              rcases List.mem_append.mp htask with hold | hnew
              · exact h.tasks task hold
              · rw [List.mem_singleton.mp hnew]
                exact ⟨hrequest, by simp [DispatchTask.results], by simp [DispatchTask.awaited]⟩
        · exact h.same rfl rfl rfl
      · exact h

/-- The steps of a task, given what holds of the task. -/
theorem task_holding (h : Holding P Q s) {i : Nat} {task : DispatchTask ν}
    (htask : s.tasks[i]? = some task) : P task.request ∧ (∀ result ∈ task.results, Q result) ∧
      ∀ result ∈ task.awaited, result.success = true :=
  h.tasks task (List.mem_of_getElem? htask)

theorem taskStart_holding (h : Holding P Q s) (i : Nat) : Holding P Q (s.taskStart i) := by
  unfold taskStart
  split
  · exact h
  · next task htask =>
      split
      · exact (h.log _).setTask i (task_holding h htask).1 (by simp [DispatchTask.results])
          (by simp [DispatchTask.awaited])
      · exact h

theorem taskReturned_holding (h : Holding P Q s) {i : Nat}
    {result : Except PyError (List DispatchResult)}
    (hbrings : Brings config pb P Q s (.taskReturned i result)) :
    Holding P Q (s.taskReturned i result) := by
  unfold taskReturned
  split
  · exact h
  · next task htask =>
      split
      · next hpc =>
          split
          · exact h.finishTask i task
          · exact (h.log _).setTask i (task_holding h htask).1 (hbrings task htask hpc)
              (by simp [DispatchTask.awaited])
      · exact h

theorem taskResult_holding (h : Holding P Q s) (hinv : AccountedScheduler.Inv s.scheduler)
    (hcopies : Copies P) (i : Nat) (issuedAt now : Rat) (m : Moment ν) :
    Holding P Q (s.taskResult config i issuedAt now m) := by
  unfold taskResult
  split
  · exact h
  · next task htask =>
      rcases task_holding h htask with ⟨hrequest, htaskResults, -⟩
      split
      · exact h.finishTask i task
      · next result results hpc =>
          have hresults : ∀ x ∈ result :: results, Q x := by
            simpa [DispatchTask.results, hpc] using htaskResults
          have hrest := (List.forall_mem_cons.mp hresults).2
          split
          · next hsuccess =>
              refine Holding.setTask ?_ i hrequest hresults
                (by simpa [DispatchTask.awaited] using hsuccess)
              exact h.same rfl rfl rfl
          · split
            · have hretried : P (retried task.request) := hcopies.retried hrequest
              have hqueued := resubmit_queued hcopies hinv h.queued m hretried
              have hrequeued : Holding P Q { s with
                  scheduler := (Scheduler.resubmit m (retried task.request) s.scheduler).state } :=
                h.requeue hqueued rfl rfl
              dsimp only
              split
              · exact hrequeued.finishTask i task
              · exact ((hrequeued.record _ _ _).log _).setTask i hretried hrest
                  (by simp [DispatchTask.awaited])
            · exact (h.record _ _ _).setTask i hrequest hrest (by simp [DispatchTask.awaited])
      · exact h

theorem taskSent_holding (h : Holding P Q s) (i : Nat) (outcome : SendOutcome) :
    Holding P Q (s.taskSent i outcome) := by
  unfold taskSent
  split
  · exact h
  · next task htask =>
      rcases task_holding h htask with ⟨hrequest, htaskResults, -⟩
      split
      · next result results hpc =>
          have hresults : ∀ x ∈ result :: results, Q x := by
            simpa [DispatchTask.results, hpc] using htaskResults
          have hrest := (List.forall_mem_cons.mp hresults).2
          split
          · exact (h.log _).setTask i hrequest hrest (by simp [DispatchTask.awaited])
          · exact (h.record _ _ _).setTask i hrequest hrest (by simp [DispatchTask.awaited])
          · exact h.finishTask i task
      · exact h

theorem Holding.success (h : Holding P Q s) : ∀ result ∈ s.sending, Q result ∧ result.success = true := by
  intro result hresult
  rcases List.mem_append.mp hresult with hlegacy | htasks
  · refine ⟨h.results result ?_, h.awaited result hlegacy⟩
    unfold LegacyLoop.awaited at hlegacy
    split at hlegacy
    · next batch sent results hsending =>
        rw [List.mem_singleton] at hlegacy
        simp [hsending, LegacyLoop.results, hlegacy]
    · simp at hlegacy
  · rcases List.mem_flatMap.mp htasks with ⟨task, htask, hmem⟩
    rcases h.tasks task htask with ⟨-, hresults, hawaited⟩
    refine ⟨hresults result ?_, hawaited result hmem⟩
    unfold DispatchTask.awaited at hmem
    split at hmem
    · next sent results hsending =>
        rw [List.mem_singleton] at hmem
        simp [hsending, DispatchTask.results, hmem]
    · simp at hmem

theorem Holding.imp {P' : InferenceRequest ν → Prop} {Q' : DispatchResult → Prop}
    (hP : ∀ r, P r → P' r) (hQ : ∀ result, Q result → Q' result) (h : Holding P Q s) :
    Holding P' Q' s where
  queued := fun r hr => hP r (h.queued r hr)
  batch := fun r hr => hP r (h.batch r hr)
  results := fun result hresult => hQ result (h.results result hresult)
  awaited := h.awaited
  tasks := by
    intro task htask
    rcases h.tasks task htask with ⟨hrequest, hresults, hawaited⟩
    exact ⟨hP _ hrequest, fun result hresult => hQ result (hresults result hresult), hawaited⟩

/-- What holds of everything that comes in holds of everything that the server has. -/
theorem step_holding (h : Holding P Q s) (hinv : AccountedScheduler.Inv s.scheduler)
    (hcopies : Copies P) {a : Action ν} (hbrings : Brings config pb P Q s a) :
    Holding P Q (step config pb s a) := by
  cases a with
  | receive msg clock m => exact receive_holding h hinv hcopies hbrings
  | tick expiry now => exact tick_holding h hinv expiry now
  | predictiveWake now =>
      rcases predictiveWake_frame config now s with ⟨_, hframe⟩
      rw [step, hframe]
      exact h.same rfl rfl rfl
  | useScheduler registered strategy policy weights =>
      exact useScheduler_holding h registered strategy policy weights
  | legacyTop first clock dispatchTime => exact legacyTop_holding h hinv first clock dispatchTime
  | legacyReturned result => exact legacyReturned_holding h hbrings
  | legacyResult issuedAt now m => exact legacyResult_holding h hinv hcopies issuedAt now m
  | legacySent outcome => exact legacySent_holding h outcome
  | loopAcquire i =>
      rcases loopAcquire_frame i s with ⟨_, hframe⟩
      rw [step, hframe]
      exact h.same rfl rfl rfl
  | loopProceed i now => exact loopProceed_holding h hinv i now
  | loopResume i woken =>
      rcases loopResume_frame i woken s with ⟨_, hframe⟩
      rw [step, hframe]
      exact h.same rfl rfl rfl
  | taskStart i => exact taskStart_holding h i
  | taskReturned i result => exact taskReturned_holding h hbrings
  | taskResult i issuedAt now m => exact taskResult_holding h hinv hcopies i issuedAt now m
  | taskSent i outcome => exact taskSent_holding h i outcome

end Steps

/-! ## Responses -/

end Server

def Event.answer : Event ν → Option Nat
  | .responded objId _ => some objId
  | _ => none

namespace Server

/-- The requests that were responded to, in order. -/
def answers (s : Server ν) : List Nat := s.history.filterMap Event.answer

/-- The responses that a step hands to `send` are those that it logs: each is awaited from then on,
until its send ends. -/
def Handover (s s' : Server ν) (ended : List SendCall) : Prop :=
  ∃ new, s'.answers = s.answers ++ new ∧
    ((s'.sending ++ ended.map SendCall.response).map DispatchResult.reqId).Perm
      (s.sending.map DispatchResult.reqId ++ new)

/-- All that is logged has the property. -/
def Logs (p : Event ν → Prop) (s s' : Server ν) : Prop :=
  ∃ events, s'.history = s.history ++ events ∧ ∀ e ∈ events, p e

/-- Nothing that is logged is a response. -/
def Unanswering (s s' : Server ν) : Prop := Logs (fun e => e.answer = none) s s'

section Answers

variable {config : InferentialConfig ν} {pb : Protobuf ν} {s s' s'' : Server ν}

namespace Logs

variable {p q : Event ν → Prop}

theorem same (hhistory : s'.history = s.history) : Logs p s s' :=
  ⟨[], by rw [hhistory, List.append_nil], by simp⟩

theorem one {e : Event ν} (hhistory : s'.history = s.history ++ [e]) (he : p e) : Logs p s s' :=
  ⟨[e], hhistory, by simpa using he⟩

theorem trans (h : Logs p s s') (h' : Logs p s' s'') : Logs p s s'' := by
  rcases h with ⟨events, hhistory, hevents⟩
  rcases h' with ⟨events', hhistory', hevents'⟩
  refine ⟨events ++ events', by rw [hhistory', hhistory, List.append_assoc], ?_⟩
  intro e he
  exact (List.mem_append.mp he).elim (hevents e) (hevents' e)

theorem imp (hpq : ∀ e, p e → q e) (h : Logs p s s') : Logs q s s' := by
  rcases h with ⟨events, hhistory, hevents⟩
  exact ⟨events, hhistory, fun e he => hpq e (hevents e he)⟩

/-- What is read off the history does not change when nothing of it is logged. -/
theorem filterMap_eq {β : Type} {f : Event ν → Option β} (h : Logs (fun e => f e = none) s s') :
    s'.history.filterMap f = s.history.filterMap f := by
  rcases h with ⟨events, hhistory, hevents⟩
  rw [hhistory, List.filterMap_append, List.filterMap_eq_nil_iff.mpr hevents, List.append_nil]

end Logs

theorem answers_log (events : List (Event ν)) (hhistory : s'.history = s.history ++ events) :
    s'.answers = s.answers ++ events.filterMap Event.answer := by
  rw [answers, hhistory, List.filterMap_append]
  rfl

theorem Unanswering.answers_eq (h : Unanswering s s') : s'.answers = s.answers :=
  Logs.filterMap_eq h

/-- A tick logs the reports about clients, and nothing else. -/
theorem tick_logs (expiry : InferenceRequest ν → Rat) (now : String → Rat) (s : Server ν) :
    Logs (fun e => ∃ clientId removed, e = .disconnected clientId removed) s
      (s.tick config expiry now) := by
  have hcheck : ∀ (s : Server ν) (clientId : String),
      Logs (fun e => ∃ clientId removed, e = .disconnected clientId removed) s
        (s.checkClient config (now clientId) clientId) := by
    intro s clientId
    unfold checkClient
    split
    · exact .one rfl ⟨clientId, _, rfl⟩
    · exact .same rfl
  have hloop := foldl_rel (Logs fun e => ∃ clientId removed, e = .disconnected clientId removed)
    (fun _ => .same rfl) (fun _ _ _ => Logs.trans) hcheck
  unfold tick
  dsimp only
  refine Logs.trans ?_ (hloop _ _)
  split
  · exact .same rfl
  · exact .same rfl

/-- The tracker logs that a client has connected, or nothing. -/
theorem track_logs (msg : IncomingObservation) (decoded : DecodedObservation ν) (tracked : Rat)
    (s : Server ν) :
    Logs (fun e => ∃ clientId, e = .connected clientId) s (s.track msg decoded tracked) := by
  unfold track
  dsimp only
  split
  · exact .one rfl ⟨decoded.clientId, rfl⟩
  · exact .same rfl

namespace Handover

/-- The same sends are awaited, and nothing is logged about a response. -/
theorem quiet (hsending : s'.sending.Perm s.sending) (hlog : Unanswering s s') :
    Handover s s' [] := by
  refine ⟨[], by rw [hlog.answers_eq, List.append_nil], ?_⟩
  simpa using hsending.map DispatchResult.reqId

/-- The loops stand where they stood. -/
theorem still (hlegacy : s'.legacy = s.legacy) (htasks : s'.tasks = s.tasks)
    (hlog : Unanswering s s') : Handover s s' [] := by
  refine quiet ?_ hlog
  rw [Server.sending, Server.sending, hlegacy, htasks]

theorem issued {result : DispatchResult} (hsending : s'.sending.Perm (result :: s.sending))
    (hhistory : s'.history = s.history ++ [.responded result.reqId result.identity]) :
    Handover s s' [] := by
  refine ⟨[result.reqId], answers_log _ hhistory, ?_⟩
  have hids := hsending.map DispatchResult.reqId
  rw [List.map_cons] at hids
  simpa using hids.trans (List.perm_append_singleton _ _).symm

theorem ended {call : SendCall} (hsending : s.sending.Perm (call.response :: s'.sending))
    (hlog : Unanswering s s') : Handover s s' [call] := by
  refine ⟨[], by rw [hlog.answers_eq, List.append_nil], ?_⟩
  have hids := hsending.map DispatchResult.reqId
  rw [List.map_cons] at hids
  simpa using (List.perm_append_singleton _ _).trans hids.symm

end Handover

/-! ### Step by step -/

theorem receive_handover (msg : IncomingObservation) (clock : ReceiveClock) (m : Moment ν)
    (s : Server ν) : Handover s (s.receive config pb msg clock m) [] := by
  cases hdecode : decode pb clock.nowNs msg.envelope msg.payload msg.receivedAt with
  | error e =>
      rcases receive_rejected_frame config pb clock hdecode m s with ⟨_, hreceive⟩
      rw [hreceive]
      exact .still rfl rfl (.same rfl)
  | ok decoded =>
      have htracked : Unanswering s (s.track msg decoded clock.tracked) :=
        (track_logs msg decoded clock.tracked s).imp fun e ⟨_, he⟩ => he ▸ rfl
      have haccepted : Unanswering s (log [.accepted (s.requestOf config msg clock decoded)]
          { s.track msg decoded clock.tracked with nextObj := s.nextObj + 1 }) :=
        Logs.trans htracked (.one rfl rfl)
      rcases receive_frame config pb clock hdecode m s with ⟨_, _, _, _, hreceive⟩
      rcases track_frame msg decoded clock.tracked s with ⟨_, _, _, _, _, htrack⟩
      rw [hreceive]
      refine .still ?_ ?_ (Logs.trans haccepted (.same rfl))
      · simp only [log, htrack]
      · simp only [log, htrack]

theorem tick_handover (expiry : InferenceRequest ν → Rat) (now : String → Rat) (s : Server ν) :
    Handover s (s.tick config expiry now) [] := by
  have hlog : Unanswering s (s.tick config expiry now) :=
    (tick_logs expiry now s).imp fun e ⟨_, _, he⟩ => he ▸ rfl
  rcases tick_frame config expiry now s with ⟨_, _, _, htick⟩
  refine .still ?_ ?_ hlog
  · rw [htick]
  · rw [htick]

theorem legacyTop_handover (first : Rat) (clock : Nat → Rat) (dispatchTime : Rat)
    (s : Server ν) : Handover s (s.legacyTop config first clock dispatchTime) [] := by
  refine .quiet (legacyTop_silent config first clock dispatchTime s).sending ?_
  unfold legacyTop
  split
  · split
    · exact .same rfl
    · dsimp only
      split
      · exact .same rfl
      · refine ⟨_, rfl, ?_⟩
        intro e he
        rcases List.mem_append.mp he with htaken | hdispatched
        · rcases List.mem_map.mp htaken with ⟨r, -, rfl⟩
          rfl
        · rcases List.mem_map.mp hdispatched with ⟨r, -, rfl⟩
          rfl
  · exact .same rfl

/-- What the dispatcher returns is logged, and no part of it is a response yet. -/
theorem returned_unanswering {results : List DispatchResult} (hhistory : s'.history =
    s.history ++ results.map fun result => .returned result.reqId result.success) :
    Unanswering s s' := by
  refine ⟨_, hhistory, ?_⟩
  intro e he
  rcases List.mem_map.mp he with ⟨result, -, rfl⟩
  rfl

theorem legacyReturned_handover (result : Except PyError (List DispatchResult)) (s : Server ν) :
    Handover s (s.legacyReturned result) [] := by
  refine .quiet (legacyReturned_silent result s).sending ?_
  unfold legacyReturned
  split
  · split
    · exact .same rfl
    · exact returned_unanswering rfl
  · exact .same rfl

theorem legacyResult_handover (issuedAt now : Rat) (m : Moment ν) (s : Server ν) :
    Handover s (s.legacyResult config issuedAt now m) [] := by
  unfold legacyResult
  split
  · next hprocessing =>
      exact .quiet (by simp [sending, LegacyLoop.awaited, hprocessing]) (.same rfl)
  · next batch result results hprocessing =>
      have hnone : s.legacy.awaited = [] := by simp [LegacyLoop.awaited, hprocessing]
      split
      · exact .issued (by simp [sending, LegacyLoop.awaited, hprocessing, log, record]) rfl
      · split
        · dsimp only
          split
          · exact .quiet (by simp [sending, LegacyLoop.awaited, hprocessing]) (.same rfl)
          · refine .quiet ?_ (.one rfl rfl)
            simp [sending, LegacyLoop.awaited, hprocessing, log, record]
        · refine .quiet ?_ (.same rfl)
          simp [sending, LegacyLoop.awaited, hprocessing, record]
  · exact .still rfl rfl (.same rfl)

theorem legacySent_handover (outcome : SendOutcome) (s : Server ν) :
    Handover s (s.legacySent outcome) (s.endedBy (.legacySent outcome)) := by
  unfold legacySent endedBy
  split
  · next batch result results hsending =>
      have hperm : s.sending.Perm (result :: s.tasks.flatMap DispatchTask.awaited) := by
        simp [sending, LegacyLoop.awaited, hsending]
      simp only [LegacyLoop.awaited, hsending, List.map_cons, List.map_nil]
      cases outcome with
      | sent => exact .ended hperm (.one rfl rfl)
      | zmqError message => exact .ended hperm (.same rfl)
      | raised message => exact .ended hperm (.same rfl)
  · next hother =>
      have hnone : s.legacy.awaited = [] := by
        unfold LegacyLoop.awaited
        split
        · next batch result results hsending => exact absurd hsending (hother batch result results)
        · rfl
      rw [hnone]
      exact .still rfl rfl (.same rfl)

theorem loopProceed_handover (i : Nat) (now : Rat) (s : Server ν) :
    Handover s (s.loopProceed i now) [] := by
  refine .quiet (loopProceed_silent i now s).sending ?_
  unfold loopProceed
  split
  · exact .same rfl
  · split
    · split
      · dsimp only
        split
        · exact .same rfl
        · exact .one rfl rfl
      · exact .same rfl
    · exact .same rfl

theorem taskStart_handover (i : Nat) (s : Server ν) : Handover s (s.taskStart i) [] := by
  refine .quiet (taskStart_silent i s).sending ?_
  unfold taskStart
  split
  · exact .same rfl
  · split
    · exact .one rfl rfl
    · exact .same rfl

theorem taskReturned_handover (i : Nat) (result : Except PyError (List DispatchResult))
    (s : Server ν) : Handover s (s.taskReturned i result) [] := by
  refine .quiet (taskReturned_silent i result s).sending ?_
  unfold taskReturned
  split
  · exact .same rfl
  · split
    · split
      · exact .same rfl
      · exact returned_unanswering rfl
    · exact .same rfl

theorem taskResult_handover (i : Nat) (issuedAt now : Rat) (m : Moment ν) (s : Server ν) :
    Handover s (s.taskResult config i issuedAt now m) [] := by
  unfold taskResult
  split
  · exact .still rfl rfl (.same rfl)
  · next task htask =>
      split
      · next hpc =>
          refine .quiet (Silent.finishTask htask ?_).sending (.same rfl)
          simp [DispatchTask.awaited, hpc]
      · next result results hpc =>
          have hnone : task.awaited = [] := by simp [DispatchTask.awaited, hpc]
          split
          · refine .issued ?_ rfl
            have hset := sending_set (s.setTask i { task with pc := .sending result results })
              htask { task with pc := .sending result results } rfl rfl
            rw [hnone, List.append_nil] at hset
            exact hset.trans (List.perm_append_singleton result s.sending)
          · split
            · dsimp only
              split
              · exact .quiet (Silent.finishTask htask hnone).sending (.same rfl)
              · refine .quiet ?_ (.one rfl rfl)
                exact ((Silent.refl s).setTask htask
                  { task with request := retried task.request, pc := .processing results }
                  (by rw [hnone]; rfl)).sending
            · refine .quiet ?_ (.same rfl)
              exact ((Silent.refl s).setTask htask { task with pc := .processing results }
                (by rw [hnone]; rfl)).sending
      · exact .still rfl rfl (.same rfl)

theorem taskSent_handover (i : Nat) (outcome : SendOutcome) (s : Server ν) :
    Handover s (s.taskSent i outcome) (s.endedBy (.taskSent i outcome)) := by
  cases htask : s.tasks[i]? with
  | none =>
      simp only [taskSent, endedBy, htask]
      exact .still rfl rfl (.same rfl)
  | some task =>
      have hended : s.endedBy (.taskSent i outcome) = task.awaited.map (⟨·, outcome⟩) := by
        simp [endedBy, htask]
      simp only [taskSent, htask, hended]
      split
      · next result results hpc =>
          have hone : task.awaited = [result] := by simp [DispatchTask.awaited, hpc]
          have hset := sending_set (s.setTask i { task with pc := .processing results })
            htask { task with pc := .processing results } rfl rfl
          rw [hone, DispatchTask.awaited, List.append_nil] at hset
          have hsent : s.sending.Perm
              (result :: (s.setTask i { task with pc := .processing results }).sending) :=
            hset.symm.trans (List.perm_append_singleton result _)
          rw [hone, List.map_singleton]
          cases outcome with
          | sent => exact .ended hsent (.one rfl rfl)
          | zmqError message => exact .ended hsent (.same rfl)
          | raised message =>
              have herase := sending_erase (s.finishTask i task) htask rfl rfl
              rw [hone] at herase
              exact .ended herase (.same rfl)
      · next hother =>
          have hnone : task.awaited = [] := by
            unfold DispatchTask.awaited
            split
            · next result results hsending => exact absurd hsending (hother result results)
            · rfl
          rw [hnone]
          exact .still rfl rfl (.same rfl)

theorem step_handover (s : Server ν) (a : Action ν) :
    Handover s (step config pb s a) (s.endedBy a) := by
  cases a with
  | receive msg clock m => exact receive_handover msg clock m s
  | tick expiry now => exact tick_handover expiry now s
  | predictiveWake now =>
      rcases predictiveWake_frame config now s with ⟨_, hframe⟩
      rw [step, hframe]
      exact .still rfl rfl (.same rfl)
  | useScheduler registered strategy policy weights =>
      rcases useScheduler_frame config registered strategy policy weights s with ⟨_, hframe⟩
      rw [step, hframe]
      exact .still rfl rfl (.same rfl)
  | legacyTop first clock dispatchTime => exact legacyTop_handover first clock dispatchTime s
  | legacyReturned result => exact legacyReturned_handover result s
  | legacyResult issuedAt now m => exact legacyResult_handover issuedAt now m s
  | legacySent outcome => exact legacySent_handover outcome s
  | loopAcquire i =>
      rcases loopAcquire_frame i s with ⟨_, hframe⟩
      rw [step, hframe]
      exact .still rfl rfl (.same rfl)
  | loopProceed i now => exact loopProceed_handover i now s
  | loopResume i woken =>
      rcases loopResume_frame i woken s with ⟨_, hframe⟩
      rw [step, hframe]
      exact .still rfl rfl (.same rfl)
  | taskStart i => exact taskStart_handover i s
  | taskReturned i result => exact taskReturned_handover i result s
  | taskResult i issuedAt now m => exact taskResult_handover i issuedAt now m s
  | taskSent i outcome => exact taskSent_handover i outcome s

/-- A run hands over exactly the responses that it logs: each one is still awaited, or its send has
ended. -/
theorem Handover.balance {ended ended' : List SendCall}
    (h : (s.answers).Perm ((s.sending ++ ended.map SendCall.response).map DispatchResult.reqId))
    (hstep : Handover s s' ended') :
    (s'.answers).Perm
      ((s'.sending ++ (ended ++ ended').map SendCall.response).map DispatchResult.reqId) := by
  rcases hstep with ⟨new, hanswers, hperm⟩
  simp only [List.map_append] at h hperm ⊢
  rw [hanswers]
  calc
    List.Perm (s.answers ++ new)
        ((s.sending.map DispatchResult.reqId ++
          (ended.map SendCall.response).map DispatchResult.reqId) ++ new) := h.append_right new
    List.Perm _ ((s.sending.map DispatchResult.reqId ++ new) ++
        (ended.map SendCall.response).map DispatchResult.reqId) := by
      rw [List.append_assoc, List.append_assoc]
      exact List.perm_append_comm.append_left _
    List.Perm _ ((s'.sending.map DispatchResult.reqId ++
        (ended'.map SendCall.response).map DispatchResult.reqId) ++
          (ended.map SendCall.response).map DispatchResult.reqId) := hperm.symm.append_right _
    List.Perm _ _ := by
      rw [List.append_assoc]
      exact List.perm_append_comm.append_left _

end Answers
end Server

/-! ## Observations -/

def Event.admission : Event ν → Option (InferenceRequest ν)
  | .accepted r => some r
  | _ => none

namespace Server

/-- The requests of the accepted observations, in order. -/
def acceptedRequests (s : Server ν) : List (InferenceRequest ν) :=
  s.history.filterMap Event.admission

section Accepted

variable {config : InferentialConfig ν} {pb : Protobuf ν} {s : Server ν}

theorem receive_accepts {msg : IncomingObservation} {clock : ReceiveClock}
    {decoded : DecodedObservation ν}
    (hdecode : decode pb clock.nowNs msg.envelope msg.payload msg.receivedAt = .ok decoded)
    (m : Moment ν) :
    (s.receive config pb msg clock m).acceptedRequests =
      s.acceptedRequests ++ [s.requestOf config msg clock decoded] := by
  have htracked : (s.track msg decoded clock.tracked).acceptedRequests = s.acceptedRequests := by
    refine Logs.filterMap_eq ?_
    exact (track_logs msg decoded clock.tracked s).imp fun e ⟨_, he⟩ => he ▸ rfl
  rcases receive_frame config pb clock hdecode m s with ⟨_, _, _, _, hreceive⟩
  rw [hreceive]
  simp only [acceptedRequests, log, List.filterMap_append] at htracked ⊢
  rw [htracked]
  rfl

theorem receive_refuses {msg : IncomingObservation} {clock : ReceiveClock} {e : PyError}
    (hdecode : decode pb clock.nowNs msg.envelope msg.payload msg.receivedAt = .error e)
    (m : Moment ν) :
    (s.receive config pb msg clock m).acceptedRequests = s.acceptedRequests := by
  rcases receive_rejected_frame config pb clock hdecode m s with ⟨_, hreceive⟩
  rw [hreceive]
  rfl

/-- Only the receive loop accepts observations. -/
theorem step_accepts {a : Action ν} (hreceive : ¬ a.IsReceive) :
    (step config pb s a).acceptedRequests = s.acceptedRequests := by
  refine Logs.filterMap_eq ?_
  by_cases htick : a.IsTick
  · cases a with
    | tick expiry now =>
        exact (tick_logs expiry now s).imp fun e ⟨_, _, he⟩ => he ▸ rfl
    | _ => exact absurd htick id
  · rcases step_logs config pb s hreceive htick with ⟨events, hhistory, hwork⟩
    refine ⟨events, hhistory, ?_⟩
    intro e he
    have hkind := hwork e he
    cases e with
    | accepted r => exact absurd hkind id
    | _ => rfl

end Accepted
end Server
end Inferential
