import Inferential.Server.Calls
import Inferential.Server.Roster

/-!
# Permits — how many requests of a model are dispatched at once

Each model has one loop and one semaphore.  A permit is available, held by the loop, or held by a
task of the model, and none gets lost on the way.
-/

namespace Inferential

open PyStd

variable {ν : Type} [Score ν]

/-- The permit that the loop holds and has not yet handed on. -/
def ModelLoop.holding (l : ModelLoop) : Nat := if l.pc = .holding then 1 else 0

namespace Server

/-- The models of the loops, in the order in which the loops were started. -/
def loopModels (s : Server ν) : List String := s.loops.map ModelLoop.modelId

/-- The tasks of a model. -/
def running (modelId : String) (s : Server ν) : Nat :=
  s.tasks.countP fun task => task.modelId = modelId

/-- The requests of a model inside a call of the dispatcher. -/
def insideDispatch (modelId : String) (s : Server ν) : Nat :=
  s.flights.countP fun f => f.1 = .dispatching ∧ f.2.modelId = modelId

/-- Events and loops belong together, no permit is lost, and every task has its loop. -/
structure Pooled (config : InferentialConfig ν) (s : Server ν) : Prop where
  registered : s.modelEvents.Indexes s.loopModels
  conserved : ∀ loop ∈ s.loops, loop.permits + s.running loop.modelId + loop.holding =
    config.getModelMaxInflight loop.modelId
  owned : ∀ task ∈ s.tasks,
    task.request.modelId = task.modelId ∧ s.loopModels[task.loop]? = some task.modelId

namespace Pooled

variable {config : InferentialConfig ν} {s s' : Server ν}

/-- The loops are as before, and so are the numbers of tasks. -/
theorem same (h : Pooled config s) (hevents : s'.modelEvents = s.modelEvents)
    (hloops : s'.loops = s.loops) (hrunning : ∀ modelId, s'.running modelId = s.running modelId)
    (howned : ∀ task ∈ s'.tasks,
      task.request.modelId = task.modelId ∧ s.loopModels[task.loop]? = some task.modelId) :
    Pooled config s' := by
  have hmodels : s'.loopModels = s.loopModels := congrArg (List.map ModelLoop.modelId) hloops
  refine ⟨?_, ?_, ?_⟩
  · rw [hevents, hmodels]
    exact h.registered
  · intro loop hloop
    rw [hrunning]
    exact h.conserved loop (hloops ▸ hloop)
  · rw [hmodels]
    exact howned

/-- One loop goes on; what its permits lose, its tasks gain, and the other way round. -/
theorem modify (h : Pooled config s) {i : Nat} {loop : ModelLoop} (hloop : s.loops[i]? = some loop)
    (f : ModelLoop → ModelLoop) (hmodel : (f loop).modelId = loop.modelId)
    (hheld : (f loop).permits + s'.running loop.modelId + (f loop).holding =
      loop.permits + s.running loop.modelId + loop.holding)
    (hothers : ∀ modelId, modelId ≠ loop.modelId → s'.running modelId = s.running modelId)
    (hevents : s'.modelEvents = s.modelEvents) (hloops : s'.loops = s.loops.modify i f)
    (howned : ∀ task ∈ s'.tasks,
      task.request.modelId = task.modelId ∧ s.loopModels[task.loop]? = some task.modelId) :
    Pooled config s' := by
  have hi : s.loopModels[i]? = some loop.modelId := by simp [loopModels, hloop]
  have hmodels : s'.loopModels = s.loopModels := by
    refine List.ext_getElem? fun j => ?_
    simp only [loopModels, hloops, List.getElem?_map, List.getElem?_modify]
    by_cases hj : i = j
    · simp [← hj, hloop, hmodel]
    · simp [hj]
  refine ⟨?_, ?_, ?_⟩
  · rw [hevents, hmodels]
    exact h.registered
  · intro l hl
    obtain ⟨j, hj⟩ := List.mem_iff_getElem?.mp hl
    rw [hloops, List.getElem?_modify] at hj
    by_cases hij : i = j
    · obtain rfl : f loop = l := by simpa [← hij, hloop] using hj
      rw [hmodel, hheld]
      exact h.conserved loop (List.mem_of_getElem? hloop)
    · have hj : s.loops[j]? = some l := by simpa [hij] using hj
      -- another loop is of another model
      have hne : l.modelId ≠ loop.modelId := by
        intro heq
        refine hij (h.registered.unique hi ?_)
        simp [loopModels, hj, heq]
      rw [hothers _ hne]
      exact h.conserved l (List.mem_of_getElem? hj)
  · rw [hmodels]
    exact howned

/-- A loop goes on by itself, with as many permits as before. -/
theorem turn (h : Pooled config s) {i : Nat} {loop : ModelLoop} (hloop : s.loops[i]? = some loop)
    (f : ModelLoop → ModelLoop) (hmodel : (f loop).modelId = loop.modelId)
    (hheld : (f loop).permits + (f loop).holding = loop.permits + loop.holding)
    (hevents : s'.modelEvents = s.modelEvents) (hloops : s'.loops = s.loops.modify i f)
    (htasks : s'.tasks = s.tasks) : Pooled config s' := by
  have hrunning : ∀ modelId, s'.running modelId = s.running modelId := by
    intro modelId
    rw [running, htasks]
    rfl
  refine h.modify hloop f hmodel ?_ (fun modelId _ => hrunning modelId) hevents hloops
    (htasks ▸ h.owned)
  rw [hrunning, Nat.add_right_comm, hheld, Nat.add_right_comm]

/-! ## Starting and waking loops -/

theorem setEvent (h : Pooled config s) (modelId : String) : Pooled config (s.setEvent modelId) := by
  unfold Server.setEvent
  split
  · exact h
  · next i hevent =>
      have hmodel := (h.registered modelId i).mp hevent
      obtain ⟨loop, hloop, -⟩ := by simpa [loopModels] using hmodel
      exact h.turn hloop (fun l => { l with event := true }) rfl rfl rfl rfl rfl

theorem predictiveWake (h : Pooled config s) (now : String → Rat) :
    Pooled config (s.predictiveWake config now) :=
  predictiveWake_rel config (fun s s' => Pooled config s → Pooled config s') (fun _ h => h)
    (fun _ _ _ h h' hs => h' (h hs)) (fun _ modelId hs => hs.setEvent modelId) now s h

/-- A loop is started with all permits of its model, which has no tasks yet. -/
theorem ensureModelDispatch (h : Pooled config s) (modelId : String) :
    Pooled config (s.ensureModelDispatch config modelId) := by
  unfold Server.ensureModelDispatch
  split
  · exact h
  · next hnew =>
      have hunknown : s.modelEvents.get? modelId = none := by
        rw [Dict.contains_iff] at hnew
        exact Dict.get?_eq_none.mpr hnew
      let started : ModelLoop :=
        { modelId := modelId, permits := config.getModelMaxInflight modelId }
      have hmodels : (s.loops ++ [started]).map ModelLoop.modelId = s.loopModels ++ [modelId] := by
        simp [loopModels, started]
      have hlength : s.loopModels.length = s.loops.length := List.length_map _
      refine ⟨?_, ?_, ?_⟩
      · show (s.modelEvents.set modelId s.loops.length).Indexes
          ((s.loops ++ [started]).map ModelLoop.modelId)
        rw [hmodels, ← hlength]
        exact h.registered.append hunknown
      · intro loop hloop
        rcases List.mem_append.mp hloop with hold | hnew
        · exact h.conserved loop hold
        · have hidle : s.running modelId = 0 := by
            refine List.countP_eq_zero.mpr fun task htask heq => ?_
            have hmodel := (h.owned task htask).2
            rw [of_decide_eq_true heq] at hmodel
            exact h.registered.absent hunknown (List.mem_of_getElem? hmodel)
          rw [List.mem_singleton.mp hnew]
          show config.getModelMaxInflight modelId + s.running modelId + 0 =
            config.getModelMaxInflight modelId
          simp [hidle]
      · intro task htask
        obtain ⟨hrequest, hmodel⟩ := h.owned task htask
        refine ⟨hrequest, ?_⟩
        have hlt := (List.getElem?_eq_some_iff.mp hmodel).1
        show ((s.loops ++ [started]).map ModelLoop.modelId)[task.loop]? = some task.modelId
        rw [hmodels, List.getElem?_append_left hlt]
        exact hmodel

theorem receive (h : Pooled config s) (pb : Protobuf ν) (msg : IncomingObservation)
    (clock : ReceiveClock) (m : Moment ν) : Pooled config (s.receive config pb msg clock m) := by
  cases hdecode : decode pb clock.nowNs msg.envelope msg.payload msg.receivedAt with
  | error e =>
      rcases receive_rejected_frame config pb clock hdecode m s with ⟨_, hreceive⟩
      rw [hreceive]
      exact ⟨h.registered, h.conserved, h.owned⟩
  | ok decoded =>
      obtain ⟨_, _, _, _, _, htrack⟩ := track_frame msg decoded clock.tracked s
      have hsubmit : ∀ (s : Server ν) (r : InferenceRequest ν), Pooled config s →
          Pooled config (s.submitRequest config m r) := by
        intro s r hs
        unfold submitRequest
        dsimp only
        split
        · exact ⟨hs.registered, hs.conserved, hs.owned⟩
        · exact ⟨hs.registered, hs.conserved, hs.owned⟩
        · split
          · refine Pooled.setEvent (Pooled.ensureModelDispatch ?_ _) _
            exact ⟨hs.registered, hs.conserved, hs.owned⟩
          · exact ⟨hs.registered, hs.conserved, hs.owned⟩
      rw [receive_accepted config pb clock hdecode, htrack]
      exact hsubmit _ _ ⟨h.registered, h.conserved, h.owned⟩

/-! ## Acquiring and releasing -/

theorem loopAcquire (h : Pooled config s) (i : Nat) : Pooled config (s.loopAcquire i) := by
  unfold Server.loopAcquire
  split
  · exact h
  · next loop hloop =>
      split
      · next hready =>
          refine h.turn hloop (fun l => { l with permits := l.permits - 1, pc := .holding }) rfl ?_
            rfl rfl rfl
          simpa [ModelLoop.holding, hready.1] using Nat.sub_add_cancel hready.2
      · exact h

/-- The permit goes back, and the loop does not hold it any more. -/
theorem loopRelease (h : Pooled config s) {i : Nat} {loop : ModelLoop}
    (hloop : s.loops[i]? = some loop) (hholding : loop.pc = .holding) {pc : LoopPc}
    (hpc : pc ≠ .holding) : Pooled config (s.loopRelease i pc) := by
  refine h.turn hloop (fun l => { l with permits := l.permits + 1, pc := pc }) rfl ?_ rfl rfl rfl
  simp [ModelLoop.holding, hholding, hpc]

theorem loopResume (h : Pooled config s) (i : Nat) (woken : Bool) :
    Pooled config (s.loopResume i woken) := by
  unfold Server.loopResume
  split
  · exact h
  · next loop hloop =>
      split
      · next hpc =>
          refine h.turn hloop (fun l => { l with pc := .acquiring }) rfl ?_ rfl rfl rfl
          simp [ModelLoop.holding, hpc]
      · next hpc =>
          split
          · split
            · refine h.turn hloop (fun l => { l with event := false, pc := .acquiring }) rfl ?_ rfl
                rfl rfl
              simp [ModelLoop.holding, hpc]
            · exact h
          · refine h.turn hloop (fun l => { l with pc := .acquiring }) rfl ?_ rfl rfl rfl
            simp [ModelLoop.holding, hpc]
      · exact h

/-- The loop hands its permit on to a task for a request of its model. -/
theorem loopProceed (h : Pooled config s) (hinv : AccountedScheduler.Inv s.scheduler) (i : Nat)
    (now : Rat) : Pooled config (s.loopProceed i now) := by
  unfold Server.loopProceed
  split
  · exact h
  · next loop hloop =>
      split
      · next hpc =>
          split
          · obtain ⟨-, -, -, hmodel⟩ := AnyScheduler.nextBatchForModel_spec loop.modelId hinv
            dsimp only
            split
            · have hkept : Pooled config
                  { s with scheduler := (s.scheduler.nextBatchForModel loop.modelId).2 } :=
                ⟨h.registered, h.conserved, h.owned⟩
              exact hkept.loopRelease hloop hpc (by decide)
            · next request more hbatch =>
                rw [hbatch] at hmodel
                have hrequest : request.modelId = loop.modelId := hmodel request List.mem_cons_self
                let task : DispatchTask ν :=
                  { request := request, modelId := loop.modelId, loop := i }
                -- the permit that the loop held is now counted with the new task
                have hrunning : ∀ modelId, (s.tasks ++ [task]).countP (·.modelId = modelId) =
                    s.running modelId + if loop.modelId = modelId then 1 else 0 := by
                  intro modelId
                  simp [running, List.countP_append, List.countP_singleton, task]
                refine h.modify hloop (fun l => { l with pc := .acquiring }) rfl ?_ ?_ rfl rfl ?_
                · show loop.permits + (s.tasks ++ [task]).countP (·.modelId = loop.modelId) + 0 = _
                  rw [hrunning]
                  simp [ModelLoop.holding, hpc, Nat.add_assoc]
                · intro modelId hne
                  show (s.tasks ++ [task]).countP (·.modelId = modelId) = _
                  rw [hrunning, if_neg hne.symm, Nat.add_zero]
                · intro t ht
                  rcases List.mem_append.mp ht with hold | hnew
                  · exact h.owned t hold
                  · rw [List.mem_singleton.mp hnew]
                    exact ⟨hrequest, by simp [loopModels, hloop]⟩
          · exact h.loopRelease hloop hpc (by decide)
      · exact h

/-! ## Tasks -/

/-- A task goes on, for the same model and the same loop. -/
theorem setTask (h : Pooled config s) {i : Nat} {task : DispatchTask ν}
    (htask : s.tasks[i]? = some task) (task' : DispatchTask ν)
    (hrequest : task'.request.modelId = task.request.modelId)
    (hmodel : task'.modelId = task.modelId) (hloop : task'.loop = task.loop)
    (hevents : s'.modelEvents = s.modelEvents) (hloops : s'.loops = s.loops)
    (htasks : s'.tasks = s.tasks.set i task') : Pooled config s' := by
  obtain ⟨hi, rfl⟩ := List.getElem?_eq_some_iff.mp htask
  refine h.same hevents hloops ?_ ?_
  · intro modelId
    rw [running, running, htasks]
    have hafter := (List.set_perm_cons_eraseIdx hi task').countP_eq (·.modelId = modelId)
    have hbefore := (List.getElem_cons_eraseIdx_perm hi).countP_eq (·.modelId = modelId)
    rw [hafter, ← hbefore, List.countP_cons, List.countP_cons, hmodel]
  · intro t ht
    rw [htasks] at ht
    rcases List.mem_or_eq_of_mem_set ht with hold | rfl
    · exact h.owned t hold
    · rw [hrequest, hmodel, hloop]
      exact h.owned _ (List.getElem_mem hi)

/-- The task ends, and gives its permit back to the loop that it has it from. -/
theorem finishTask (h : Pooled config s) {i : Nat} {task : DispatchTask ν}
    (htask : s.tasks[i]? = some task) : Pooled config (s.finishTask i task) := by
  obtain ⟨hi, rfl⟩ := List.getElem?_eq_some_iff.mp htask
  obtain ⟨-, hmodel⟩ := h.owned _ (List.getElem_mem hi)
  obtain ⟨loop, hloop, hloopModel⟩ := by simpa [loopModels] using hmodel
  -- the permit of the task is now counted with the loop
  have hrunning : ∀ modelId, s.running modelId =
      (s.tasks.eraseIdx i).countP (·.modelId = modelId) +
        if loop.modelId = modelId then 1 else 0 := by
    intro modelId
    have hperm := (List.getElem_cons_eraseIdx_perm hi).countP_eq (·.modelId = modelId)
    rw [running, ← hperm, List.countP_cons, hloopModel]
    simp
  refine h.modify hloop (fun l => { l with permits := l.permits + 1 }) rfl ?_ ?_ rfl rfl ?_
  · show loop.permits + 1 + (s.tasks.eraseIdx i).countP (·.modelId = loop.modelId) +
      loop.holding = _
    rw [hrunning, if_pos rfl]
    ring
  · intro modelId hne
    show (s.tasks.eraseIdx i).countP (·.modelId = modelId) = _
    rw [hrunning, if_neg hne.symm, Nat.add_zero]
  · exact fun t ht => h.owned t (List.mem_of_mem_eraseIdx ht)

theorem taskStart (h : Pooled config s) (i : Nat) : Pooled config (s.taskStart i) := by
  unfold Server.taskStart
  split
  · exact h
  · next task htask =>
      split
      · exact h.setTask htask { task with pc := .dispatching } rfl rfl rfl rfl rfl rfl
      · exact h

theorem taskReturned (h : Pooled config s) (i : Nat)
    (result : Except PyError (List DispatchResult)) : Pooled config (s.taskReturned i result) := by
  unfold Server.taskReturned
  split
  · exact h
  · next task htask =>
      split
      · split
        · exact h.finishTask htask
        · next results =>
            exact h.setTask htask { task with pc := .processing results } rfl rfl rfl rfl rfl rfl
      · exact h

theorem taskResult (h : Pooled config s) (i : Nat) (issuedAt now : Rat) (m : Moment ν) :
    Pooled config (s.taskResult config i issuedAt now m) := by
  unfold Server.taskResult
  split
  · exact h
  · next task htask =>
      split
      · exact h.finishTask htask
      · next result results hpc =>
          split
          · exact h.setTask htask { task with pc := .sending result results } rfl rfl rfl rfl rfl
              rfl
          · split
            · have hkept : Pooled config { s with
                  scheduler := (Scheduler.resubmit m (retried task.request) s.scheduler).state } :=
                ⟨h.registered, h.conserved, h.owned⟩
              dsimp only
              split
              · exact hkept.finishTask htask
              · exact h.setTask htask
                  { task with request := retried task.request, pc := .processing results } rfl rfl
                  rfl rfl rfl rfl
            · exact h.setTask htask { task with pc := .processing results } rfl rfl rfl rfl rfl rfl
      · exact h

theorem taskSent (h : Pooled config s) (i : Nat) (outcome : SendOutcome) :
    Pooled config (s.taskSent i outcome) := by
  unfold Server.taskSent
  split
  · exact h
  · next task htask =>
      split
      · next result results hpc =>
          split
          · exact h.setTask htask { task with pc := .processing results } rfl rfl rfl rfl rfl rfl
          · exact h.setTask htask { task with pc := .processing results } rfl rfl rfl rfl rfl rfl
          · exact h.finishTask htask
      · exact h

/-! ## All steps -/

/-- What neither loops, tasks nor events can show. -/
theorem frame (h : Pooled config s) (hevents : s'.modelEvents = s.modelEvents)
    (hloops : s'.loops = s.loops) (htasks : s'.tasks = s.tasks) : Pooled config s' :=
  h.same hevents hloops (fun modelId => by rw [running, htasks]; rfl) (htasks ▸ h.owned)

theorem step (h : Pooled config s) (pb : Protobuf ν) (a : Action ν)
    (hinv : AccountedScheduler.Inv s.scheduler) : Pooled config (step config pb s a) := by
  by_cases hlegacy : a.IsLegacy
  · obtain ⟨_, _, _, _, _, heq⟩ := legacy_frame config pb s hlegacy
    rw [heq]
    exact h.frame rfl rfl rfl
  cases a with
  | receive msg clock m => exact h.receive pb msg clock m
  | predictiveWake now => exact h.predictiveWake now
  | loopAcquire i => exact h.loopAcquire i
  | loopProceed i now => exact h.loopProceed hinv i now
  | loopResume i woken => exact h.loopResume i woken
  | taskStart i => exact h.taskStart i
  | taskReturned i result => exact h.taskReturned i result
  | taskResult i issuedAt now m => exact h.taskResult i issuedAt now m
  | taskSent i outcome => exact h.taskSent i outcome
  | tick expiry now =>
      obtain ⟨_, _, _, heq⟩ := tick_frame config expiry now s
      show Pooled config (s.tick config expiry now)
      rw [heq]
      exact h.frame rfl rfl rfl
  | useScheduler registered strategy policy weights =>
      obtain ⟨_, heq⟩ := useScheduler_frame config registered strategy policy weights s
      show Pooled config (s.useScheduler config registered strategy policy weights).2
      rw [heq]
      exact h.frame rfl rfl rfl
  | _ => exact absurd trivial hlegacy

omit [Score ν] in
/-- A task has at most one request inside the dispatcher, and it is of the model of the task. -/
theorem inside_le_tasks (modelId : String) {tasks : List (DispatchTask ν)}
    (howned : ∀ task ∈ tasks, task.request.modelId = task.modelId) :
    (tasks.flatMap DispatchTask.flights).countP
        (fun f => f.1 = .dispatching ∧ f.2.modelId = modelId) ≤
      tasks.countP fun task => task.modelId = modelId := by
  induction tasks with
  | nil => simp
  | cons task tasks ih =>
      obtain ⟨hrequest, hrest⟩ := List.forall_mem_cons.mp howned
      -- the one request of a task is in the dispatcher at one of its stages only
      have htask : task.flights.countP (fun f => f.1 = .dispatching ∧ f.2.modelId = modelId) ≤
          if task.modelId = modelId then 1 else 0 := by
        unfold DispatchTask.flights
        split <;> simp [List.countP_cons, List.countP_map, Function.comp_def, hrequest]
      rw [List.flatMap_cons, List.countP_append, List.countP_cons, Nat.add_comm]
      refine Nat.add_le_add (ih hrest) ?_
      simpa using htask

/-- The number of requests inside the dispatcher is bounded by the permits that are out. -/
theorem inside_le (h : Pooled config s) (htop : s.legacy = .top) (modelId : String) :
    s.insideDispatch modelId ≤ config.getModelMaxInflight modelId := by
  have hinside : s.insideDispatch modelId ≤ s.running modelId := by
    have hflights : s.flights = s.tasks.flatMap DispatchTask.flights := by
      simp [flights, htop, LegacyLoop.flights]
    rw [insideDispatch, hflights]
    exact inside_le_tasks modelId fun task htask => (h.owned task htask).1
  by_cases hidle : s.running modelId = 0
  · rw [hidle] at hinside
    exact hinside.trans (Nat.zero_le _)
  · -- some task of the model is running, and so its loop was started
    obtain ⟨task, htask, heq⟩ := List.countP_pos_iff.mp (Nat.pos_of_ne_zero hidle)
    obtain ⟨-, hmodel⟩ := h.owned task htask
    obtain ⟨loop, hloop, hloopModel⟩ := by simpa [loopModels] using hmodel
    have hid : loop.modelId = modelId := hloopModel.trans (of_decide_eq_true heq)
    have hconserved := h.conserved loop (List.mem_of_getElem? hloop)
    rw [hid] at hconserved
    omega

end Pooled

/-! ## Runs -/

/-- One loop for each model, no permit lost, and no more requests at once than permits. -/
structure Bounded (config : InferentialConfig ν) (s : Server ν) : Prop where
  oneLoop : s.loopModels.Nodup
  permits : ∀ loop ∈ s.loops, loop.permits + s.running loop.modelId + loop.holding =
    config.getModelMaxInflight loop.modelId
  inside : ∀ modelId, s.insideDispatch modelId ≤ config.getModelMaxInflight modelId

/-- In every run with an enabled pipeline and a scheduler that is model-aware throughout. -/
theorem run_bounded (config : InferentialConfig ν) (pb : Protobuf ν) (s₀ : Server ν)
    (hinit : init config = .ok s₀)
    (henabled : config.scheduling.pipelineDispatch.enabled = true) (actions : List (Action ν))
    (haware : Follows config pb (fun s _ => s.scheduler.isModelAware = true) s₀ actions) :
    Bounded config (run config pb s₀ actions) := by
  -- the single loop yields throughout, so only tasks are in the dispatcher
  have hkept : ∀ s (a : Action ν), s.scheduler.isModelAware = true →
      (AccountedScheduler.Inv s.scheduler ∧ s.legacy = .top) ∧ Pooled config s →
        (AccountedScheduler.Inv (step config pb s a).scheduler ∧
          (step config pb s a).legacy = .top) ∧ Pooled config (step config pb s a) := by
    rintro s a haware ⟨⟨hinv, htop⟩, hpooled⟩
    exact ⟨⟨step_inv config pb s a hinv, step_legacy_top config pb a (by simp [henabled, haware])
      htop⟩, hpooled.step pb a hinv⟩
  have hstart : (AccountedScheduler.Inv s₀.scheduler ∧ s₀.legacy = .top) ∧ Pooled config s₀ := by
    unfold init at hinit
    split at hinit
    · cases hinit
    · next scheduler hcreate =>
        cases hinit
        exact ⟨⟨(AnyScheduler.createScheduler_fresh hcreate).1, rfl⟩, Dict.indexes_empty, by simp,
          by simp⟩
  obtain ⟨⟨-, htop⟩, hpooled⟩ := run_keeps hkept haware hstart
  exact ⟨hpooled.registered.nodup, hpooled.conserved, hpooled.inside_le htop⟩

/-! ### A request in the pipeline -/

def pipelineConfig : InferentialConfig Rat :=
  { plainConfig with
    scheduling := { plainConfig.scheduling with pipelineDispatch := { enabled := true } } }

def pipelineServer : Server Rat :=
  { plainServer with scheduler := .modelDeadline (.init pipelineConfig.scheduling) }

/-- Two requests arrive, and one of them is dispatched. -/
def pipelined : List (Action Rat) :=
  [arriveAt 0 0, arriveAt 0 0, .loopAcquire 0, .loopProceed 0 0, .taskStart 0, .loopAcquire 0]

theorem pipelined_bounded :
    let s := run pipelineConfig plainMessages pipelineServer pipelined
    s.insideDispatch "policy" = 1 ∧ Bounded pipelineConfig s := by
  refine ⟨by decide +kernel, run_bounded pipelineConfig plainMessages pipelineServer rfl rfl
    pipelined ?_⟩
  exact ⟨rfl, by decide +kernel, by decide +kernel, by decide +kernel, by decide +kernel,
    by decide +kernel, trivial⟩

end Server
end Inferential
