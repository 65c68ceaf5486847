import Inferential.Machine.Ranking
import Inferential.Server.Wakeups

/-!
# Drain — the pipeline gets its work done

Under a model-aware scheduler the loop of a model and its tasks are enough to get everything of the
model out of the queue, whatever the dispatcher and the network make of it.  A retry costs an attempt,
and an attempt ends.
-/

namespace Inferential

open PyStd Machine

variable {ν : Type} [Score ν]

namespace Server

/-! ## What is left to do -/

/-- How often the request may still be queued again. -/
def retriesLeft (config : InferentialConfig ν) (r : InferenceRequest ν) : Nat :=
  config.scheduling.maxRetries - r.retryCount

/-- Each retry costs as much as all that comes after it. -/
def requestCost (config : InferentialConfig ν) (r : InferenceRequest ν) : Nat :=
  3 * 2 ^ retriesLeft config r

def taskCost (config : InferentialConfig ν) (task : DispatchTask ν) : Nat :=
  match task.pc with
  | .created => requestCost config task.request - 1
  | .dispatching => requestCost config task.request - 2
  | _ => requestCost config task.request - 3

/-- How far the task is from its end, when the dispatcher has returned. -/
def taskSteps (task : DispatchTask ν) : Nat :=
  match task.pc with
  | .processing results => 2 * results.length + 1
  | .sending _ results => 2 * results.length + 2
  | _ => 0

/-- How far the loop is from the queue. -/
def loopSteps (loop : ModelLoop) : Nat :=
  match loop.pc with
  | .holding => 0
  | .acquiring => 1
  | _ => 2

section Rank

variable (config : InferentialConfig ν) (modelId : String)

def queueCostOf (s : Server ν) : Nat :=
  total (fun r => if r.modelId = modelId then requestCost config r else 0) (stored s.scheduler)

def taskCostOf (s : Server ν) : Nat :=
  total (fun task => if task.modelId = modelId then taskCost config task else 0) s.tasks

def taskStepsOf (s : Server ν) : Nat :=
  total (fun task => if task.modelId = modelId then taskSteps task else 0) s.tasks

def loopStepsOf (s : Server ν) : Nat :=
  total (fun loop => if loop.modelId = modelId then loopSteps loop else 0) s.loops

def remaining (s : Server ν) : Nat ×ₗ Nat ×ₗ Nat :=
  rank₃ (queueCostOf config modelId s + taskCostOf config modelId s) (taskStepsOf modelId s)
    (loopStepsOf modelId s)

end Rank

/-! ## Steps for a model -/

/-- A step of the loop of the model or of one of its tasks, which stands where the step begins. -/
def Serves (modelId : String) (s : Server ν) : Action ν → Prop
  | .loopAcquire i => ∃ loop, s.loops[i]? = some loop ∧ loop.modelId = modelId ∧
      loop.pc = .acquiring ∧ 0 < loop.permits
  | .loopProceed i _ => ∃ loop, s.loops[i]? = some loop ∧ loop.modelId = modelId ∧
      loop.pc = .holding
  | .loopResume i woken => ∃ loop, s.loops[i]? = some loop ∧ loop.modelId = modelId ∧
      (loop.pc = .sleeping ∨ loop.pc = .waiting ∧ (woken = true → loop.event = true))
  | .taskStart i => ∃ task, s.tasks[i]? = some task ∧ task.modelId = modelId ∧ task.pc = .created
  | .taskReturned i _ => ∃ task, s.tasks[i]? = some task ∧ task.modelId = modelId ∧
      task.pc = .dispatching
  | .taskResult i _ _ _ => ∃ task results, s.tasks[i]? = some task ∧ task.modelId = modelId ∧
      task.pc = .processing results
  | .taskSent i _ => ∃ task result results, s.tasks[i]? = some task ∧ task.modelId = modelId ∧
      task.pc = .sending result results
  | _ => False

/-- An observation for the model is accepted. -/
def Arrives (pb : Protobuf ν) (modelId : String) : Action ν → Prop
  | .receive msg clock _ => ∃ decoded,
      decode pb clock.nowNs msg.envelope msg.payload msg.receivedAt = .ok decoded ∧
        decoded.modelId = modelId
  | _ => False

/-- Nothing of the model is queued. -/
def Drained (modelId : String) (s : Server ν) : Prop :=
  ∀ r ∈ stored s.scheduler, r.modelId ≠ modelId

/-- The loops and their tasks do the work, and the single loop leaves it to them. -/
structure Piped (config : InferentialConfig ν) (s : Server ν) : Prop where
  supplied : Supplied config s
  top : s.legacy = .top

section Steps

variable {config : InferentialConfig ν} {pb : Protobuf ν} {modelId : String} {s s' : Server ν}

/-! ## A way on -/

/-- While something of the model is queued, its loop or one of its tasks can go on. -/
theorem Piped.goes_on (h : Piped config s) (haware : s.scheduler.isModelAware = true)
    (hqueued : ¬ Drained modelId s) : ∃ a, Serves modelId s a := by
  unfold Drained at hqueued
  push Not at hqueued
  rcases hqueued with ⟨r, hr, rfl⟩
  rcases h.supplied.consumed haware r hr with ⟨i, loop, -, hloop, hid⟩
  cases hpc : loop.pc with
  | holding => exact ⟨.loopProceed i 0, loop, hloop, hid, hpc⟩
  | sleeping => exact ⟨.loopResume i false, loop, hloop, hid, Or.inl hpc⟩
  | waiting => exact ⟨.loopResume i false, loop, hloop, hid, Or.inr ⟨hpc, by simp⟩⟩
  | acquiring =>
      by_cases hpermits : 0 < loop.permits
      · exact ⟨.loopAcquire i, loop, hloop, hid, hpc, hpermits⟩
      -- all permits are with tasks of the model, and there is at least one
      · have hconserved := h.supplied.pooled.conserved loop (List.mem_of_getElem? hloop)
        have hpos := config.getModelMaxInflight_pos loop.modelId
        have hholding : loop.holding = 0 := by simp [ModelLoop.holding, hpc]
        have hrunning : 0 < s.running loop.modelId := by omega
        rcases List.countP_pos_iff.mp hrunning with ⟨task, htask, hmodel⟩
        have hmodel : task.modelId = r.modelId := (of_decide_eq_true hmodel).trans hid
        rcases List.mem_iff_getElem?.mp htask with ⟨j, hj⟩
        cases htaskPc : task.pc with
        | created => exact ⟨.taskStart j, task, hj, hmodel, htaskPc⟩
        | dispatching => exact ⟨.taskReturned j (.ok []), task, hj, hmodel, htaskPc⟩
        | processing results =>
            exact ⟨.taskResult j 0 0 ⟨0, fun _ _ => .error .zeroDivisionError⟩, task, results, hj,
              hmodel, htaskPc⟩
        | sending result results =>
            exact ⟨.taskSent j .sent, task, result, results, hj, hmodel, htaskPc⟩

/-! ## Costs -/

theorem requestCost_pos (config : InferentialConfig ν) (r : InferenceRequest ν) :
    3 ≤ requestCost config r :=
  Nat.le_mul_of_pos_right 3 (Nat.two_pow_pos _)

/-- A retry has half the cost left. -/
theorem requestCost_retried {r : InferenceRequest ν} (hretry : mayRetry config r = true) :
    requestCost config r = requestCost config (retried r) + requestCost config (retried r) := by
  have hlt : r.retryCount < config.scheduling.maxRetries := by
    simp only [mayRetry, Bool.and_eq_true, decide_eq_true_eq] at hretry
    exact hretry.2
  have hleft : retriesLeft config r = retriesLeft config (retried r) + 1 := by
    simp only [retriesLeft, retried]
    omega
  simp only [requestCost, hleft, Nat.pow_succ]
  omega

theorem requestCost_unstamped {r r' : InferenceRequest ν} (h : r.unstamped = r'.unstamped) :
    requestCost config r = requestCost config r' := by
  have hcount := congrArg InferenceRequest.retryCount h
  have hsame : r.retryCount = r'.retryCount := hcount
  simp only [requestCost, retriesLeft, hsame]

/-! ## What a turn of a loop does to the rank -/

/-- What the step makes of the rank: it is not raised, and the model's own step lowers it. -/
def Lowers (config : InferentialConfig ν) (modelId : String) (own : Prop) (s s' : Server ν) :
    Prop :=
  remaining config modelId s' ≤ remaining config modelId s ∧
    (own → remaining config modelId s' < remaining config modelId s)

theorem Lowers.refl {own : Prop} (hown : ¬ own) : Lowers config modelId own s s :=
  ⟨le_refl _, fun h => absurd h hown⟩

/-- A loop goes on, one step closer to the queue. -/
theorem turn_lowers {i : Nat} {loop : ModelLoop} (hloop : s.loops[i]? = some loop)
    {f : ModelLoop → ModelLoop} (hmodel : (f loop).modelId = loop.modelId)
    (hsteps : loopSteps (f loop) < loopSteps loop) :
    Lowers config modelId (loop.modelId = modelId) s (s.updateLoop i f) := by
  have hsum := total_modify
    (fun loop : ModelLoop => if loop.modelId = modelId then loopSteps loop else 0) hloop f
  by_cases hid : loop.modelId = modelId
  · rw [if_pos hid, if_pos (hmodel.trans hid)] at hsum
    have hlt : loopStepsOf modelId (s.updateLoop i f) < loopStepsOf modelId s := by
      simp only [loopStepsOf, updateLoop]
      omega
    have hlower : remaining config modelId (s.updateLoop i f) < remaining config modelId s :=
      rank₃_lt_third (le_refl _) (le_refl _) hlt
    exact ⟨hlower.le, fun _ => hlower⟩
  · rw [if_neg hid, if_neg (fun h => hid (hmodel.symm.trans h))] at hsum
    exact ⟨rank₃_le (le_refl _) (le_refl _) hsum.le, fun h => absurd h hid⟩

theorem loopAcquire_lowers (i : Nat) :
    Lowers config modelId (Serves modelId s (.loopAcquire i)) s (s.loopAcquire i) := by
  unfold loopAcquire
  split
  · next hnone => exact .refl (by simp [Serves, hnone])
  · next loop hloop =>
      split
      · next hready =>
          have hturn : Lowers config modelId (loop.modelId = modelId) s
              (s.updateLoop i fun l => { l with permits := l.permits - 1, pc := .holding }) :=
            turn_lowers hloop rfl (by simp [loopSteps, hready.1])
          refine ⟨hturn.1, ?_⟩
          rintro ⟨other, hother, hid, -⟩
          cases hloop.symm.trans hother
          exact hturn.2 hid
      · next hnot =>
          refine .refl ?_
          rintro ⟨other, hother, -, hpc, hpermits⟩
          cases hloop.symm.trans hother
          exact hnot ⟨hpc, hpermits⟩

theorem loopResume_lowers (i : Nat) (woken : Bool) :
    Lowers config modelId (Serves modelId s (.loopResume i woken)) s (s.loopResume i woken) := by
  cases hloop : s.loops[i]? with
  | none =>
      simp only [loopResume, hloop]
      exact .refl (by simp [Serves, hloop])
  | some loop =>
      -- whichever way the loop goes on, it is the same step closer
      have hturn : ∀ f : ModelLoop → ModelLoop, (f loop).modelId = loop.modelId →
          loopSteps (f loop) < loopSteps loop →
            Lowers config modelId (Serves modelId s (.loopResume i woken)) s
              (s.updateLoop i f) := by
        intro f hmodel hsteps
        have hlowers : Lowers config modelId (loop.modelId = modelId) s (s.updateLoop i f) :=
          turn_lowers hloop hmodel hsteps
        refine ⟨hlowers.1, ?_⟩
        rintro ⟨other, hother, hid, -⟩
        cases hloop.symm.trans hother
        exact hlowers.2 hid
      cases hpc : loop.pc with
      | sleeping =>
          simp only [loopResume, hloop, hpc]
          exact hturn _ rfl (by simp [loopSteps, hpc])
      | waiting =>
          simp only [loopResume, hloop, hpc]
          split
          · next hwoken =>
              split
              · exact hturn _ rfl (by simp [loopSteps, hpc])
              · next hevent =>
                  refine .refl ?_
                  rintro ⟨other, hother, -, hsleeping | ⟨-, hset⟩⟩
                  · cases hloop.symm.trans hother
                    cases hpc.symm.trans hsleeping
                  · cases hloop.symm.trans hother
                    exact hevent (hset hwoken)
          · exact hturn _ rfl (by simp [loopSteps, hpc])
      | _ =>
          simp only [loopResume, hloop, hpc]
          refine .refl ?_
          rintro ⟨other, hother, -, hstands⟩
          cases hloop.symm.trans hother
          simp [hpc] at hstands

/-- The state after a loop has taken a request. -/
theorem loopProceed_takes {i : Nat} {loop : ModelLoop} (hloop : s.loops[i]? = some loop)
    (hpc : loop.pc = .holding) (haware : s.scheduler.isModelAware = true)
    {request : InferenceRequest ν} {more : List (InferenceRequest ν)}
    (hbatch : (s.scheduler.nextBatchForModel loop.modelId).1 = request :: more) (now : Rat) :
    (s.loopProceed i now).scheduler = (s.scheduler.nextBatchForModel loop.modelId).2 ∧
      (s.loopProceed i now).tasks =
        s.tasks ++ [{ request := request, modelId := loop.modelId, loop := i }] ∧
      (s.loopProceed i now).loops = s.loops.modify i fun l => { l with pc := .acquiring } := by
  simp only [loopProceed, hloop, hpc, haware, hbatch, if_true]
  exact ⟨rfl, rfl, rfl⟩

/-- A loop that stands at the queue takes a request, if there is one of its model. -/
theorem loopProceed_lowers (haware : s.scheduler.isModelAware = true)
    (hinv : AccountedScheduler.Inv s.scheduler) (hqueued : ¬ Drained modelId s) (i : Nat)
    (now : Rat) :
    Lowers config modelId (Serves modelId s (.loopProceed i now)) s (s.loopProceed i now) := by
  cases hloop : s.loops[i]? with
  | none =>
      simp only [loopProceed, hloop]
      exact .refl (by simp [Serves, hloop])
  | some loop =>
      by_cases hpc : loop.pc = .holding
      · have hown : Serves modelId s (.loopProceed i now) ↔ loop.modelId = modelId := by
          simp [Serves, hloop, hpc]
        rcases AnyScheduler.nextBatchForModel_spec loop.modelId hinv with ⟨-, hperm, hlength, hof⟩
        have hqueue := total_perm (fun r : InferenceRequest ν =>
          if r.modelId = modelId then requestCost config r else 0) hperm
        cases hbatch : (s.scheduler.nextBatchForModel loop.modelId).1 with
        | nil =>
            have hempty := AnyScheduler.nextBatchForModel_nil haware hinv hbatch
            have hother : loop.modelId ≠ modelId := by
              rintro rfl
              exact hqueued hempty
            rw [hbatch, List.nil_append] at hqueue
            have hsteps := total_modify
              (fun loop : ModelLoop => if loop.modelId = modelId then loopSteps loop else 0) hloop
              fun l => { l with permits := l.permits + 1, pc := .waiting }
            rw [if_neg hother, if_neg hother] at hsteps
            simp only [loopProceed, hloop, hpc, haware, hbatch, if_true]
            refine ⟨rank₃_le ?_ (le_refl _) hsteps.le, fun h => absurd (hown.mp h) hother⟩
            exact Nat.add_le_add_right hqueue.ge _
        | cons request more =>
            have hmore : more = [] := by
              rw [hbatch] at hlength
              exact List.length_eq_zero_iff.mp (Nat.le_zero.mp (Nat.le_of_succ_le_succ hlength))
            have hmodel : request.modelId = loop.modelId := hof request (by simp [hbatch])
            rw [hbatch, hmore, List.singleton_append, total_cons, hmodel] at hqueue
            rcases loopProceed_takes hloop hpc haware hbatch now with ⟨hscheduler, htasks, hloops⟩
            have hsteps := total_modify
              (fun loop : ModelLoop => if loop.modelId = modelId then loopSteps loop else 0) hloop
              fun l => { l with pc := .acquiring }
            have hcosts := requestCost_pos config request
            have hqueue' : queueCostOf config modelId s =
                (if loop.modelId = modelId then requestCost config request else 0) +
                  queueCostOf config modelId (s.loopProceed i now) := by
              simp only [queueCostOf, hscheduler]
              exact hqueue
            have htasks' : taskCostOf config modelId (s.loopProceed i now) =
                taskCostOf config modelId s +
                  if loop.modelId = modelId then requestCost config request - 1 else 0 := by
              simp [taskCostOf, htasks, taskCost]
            by_cases hid : loop.modelId = modelId
            · rw [if_pos hid] at hqueue' htasks'
              have hlower : remaining config modelId (s.loopProceed i now) <
                  remaining config modelId s := rank₃_lt_first (by omega)
              exact ⟨hlower.le, fun _ => hlower⟩
            · rw [if_neg hid] at hqueue' htasks'
              rw [if_neg hid, if_neg hid] at hsteps
              refine ⟨rank₃_le (by omega) ?_ ?_, fun h => absurd (hown.mp h) hid⟩
              · simp [taskStepsOf, htasks, hid]
              · simp only [loopStepsOf, hloops]
                exact hsteps.le
      · simp only [loopProceed, hloop, hpc, if_false]
        refine .refl ?_
        rintro ⟨other, hother, -, hholding⟩
        cases hloop.symm.trans hother
        exact hpc hholding

/-! ## What a task does to the rank -/

/-- The cost and the steps of the task go down, together with what it puts into the queue. -/
def Spends (config : InferentialConfig ν) (queued : Nat) (task task' : DispatchTask ν) : Prop :=
  queued + taskCost config task' < taskCost config task ∨
    queued + taskCost config task' ≤ taskCost config task ∧ taskSteps task' < taskSteps task

/-- A task goes on. -/
theorem set_lowers {i : Nat} {task task' : DispatchTask ν} {queued : Nat}
    (htask : s.tasks[i]? = some task) (hmodel : task'.modelId = task.modelId)
    (hspends : Spends config queued task task')
    (hqueue : queueCostOf config modelId s' =
      queueCostOf config modelId s + if task.modelId = modelId then queued else 0)
    (hloops : loopStepsOf modelId s' ≤ loopStepsOf modelId s)
    (htasks : s'.tasks = s.tasks.set i task') :
    Lowers config modelId (task.modelId = modelId) s s' := by
  have hcosts := total_set (fun task : DispatchTask ν =>
    if task.modelId = modelId then taskCost config task else 0) htask task'
  have hsteps := total_set (fun task : DispatchTask ν =>
    if task.modelId = modelId then taskSteps task else 0) htask task'
  by_cases hid : task.modelId = modelId
  · rw [if_pos hid, if_pos (hmodel.trans hid)] at hcosts hsteps
    rw [if_pos hid] at hqueue
    have hlower : remaining config modelId s' < remaining config modelId s := by
      rcases hspends with hcost | ⟨hcost, hstep⟩
      · apply rank₃_lt_first
        simp only [taskCostOf, htasks]
        omega
      · apply rank₃_lt_second
        · simp only [taskCostOf, htasks]
          omega
        · simp only [taskStepsOf, htasks]
          omega
    exact ⟨hlower.le, fun _ => hlower⟩
  · have hother : ¬ task'.modelId = modelId := fun h => hid (hmodel.symm.trans h)
    rw [if_neg hid, if_neg hother] at hcosts hsteps
    rw [if_neg hid, Nat.add_zero] at hqueue
    refine ⟨rank₃_le ?_ ?_ hloops, fun h => absurd h hid⟩
    · simp only [taskCostOf, htasks]
      omega
    · simp only [taskStepsOf, htasks]
      omega

/-- A task ends, and its loop has one more permit. -/
theorem finish_lowers {i : Nat} {task : DispatchTask ν} (htask : s.tasks[i]? = some task)
    (hleft : 0 < taskCost config task ∨ 0 < taskSteps task)
    (hqueue : queueCostOf config modelId s' = queueCostOf config modelId s)
    (hloops : s'.loops = s.loops) (htasks : s'.tasks = s.tasks) :
    Lowers config modelId (task.modelId = modelId) s (s'.finishTask i task) := by
  have hcosts := total_eraseIdx (fun task : DispatchTask ν =>
    if task.modelId = modelId then taskCost config task else 0) htask
  have hsteps := total_eraseIdx (fun task : DispatchTask ν =>
    if task.modelId = modelId then taskSteps task else 0) htask
  have hloops' : loopStepsOf modelId (s'.finishTask i task) = loopStepsOf modelId s := by
    simp only [loopStepsOf, finishTask, updateLoop, hloops]
    exact total_modify_same _ _ fun _ => rfl
  have hqueue' : queueCostOf config modelId (s'.finishTask i task) =
      queueCostOf config modelId s := hqueue
  have htasks' : (s'.finishTask i task).tasks = s.tasks.eraseIdx i := by simp [finishTask, htasks]
  by_cases hid : task.modelId = modelId
  · rw [if_pos hid] at hcosts hsteps
    have hlower : remaining config modelId (s'.finishTask i task) < remaining config modelId s := by
      rcases hleft with hcost | hstep
      · apply rank₃_lt_first
        simp only [taskCostOf, htasks']
        omega
      · apply rank₃_lt_second
        · simp only [taskCostOf, htasks']
          omega
        · simp only [taskStepsOf, htasks']
          omega
    exact ⟨hlower.le, fun _ => hlower⟩
  · rw [if_neg hid] at hcosts hsteps
    refine ⟨rank₃_le ?_ ?_ hloops'.le, fun h => absurd h hid⟩
    · simp only [taskCostOf, htasks']
      omega
    · simp only [taskStepsOf, htasks']
      omega

/-- A task that puts nothing into the queue. -/
theorem set_lowers_quiet {i : Nat} {task task' : DispatchTask ν} (htask : s.tasks[i]? = some task)
    (hmodel : task'.modelId = task.modelId) (hspends : Spends config 0 task task')
    (hscheduler : s'.scheduler = s.scheduler) (hloops : s'.loops = s.loops)
    (htasks : s'.tasks = s.tasks.set i task') :
    Lowers config modelId (task.modelId = modelId) s s' := by
  refine set_lowers htask hmodel hspends ?_ ?_ htasks
  · simp [queueCostOf, hscheduler]
  · simp [loopStepsOf, hloops]

theorem taskStart_lowers (i : Nat) :
    Lowers config modelId (Serves modelId s (.taskStart i)) s (s.taskStart i) := by
  cases htask : s.tasks[i]? with
  | none =>
      simp only [taskStart, htask]
      exact .refl (by simp [Serves, htask])
  | some task =>
      cases hpc : task.pc with
      | created =>
          have hcosts := requestCost_pos config task.request
          simp only [taskStart, htask, hpc]
          have hown : Serves modelId s (.taskStart i) ↔ task.modelId = modelId := by
            simp [Serves, htask, hpc]
          rw [hown]
          refine set_lowers_quiet htask ?_ (Or.inl ?_) rfl rfl rfl
          · rfl
          · simp only [taskCost, hpc]
            omega
      | _ =>
          simp only [taskStart, htask, hpc]
          exact .refl (by simp [Serves, htask, hpc])

theorem taskReturned_lowers (i : Nat) (result : Except PyError (List DispatchResult)) :
    Lowers config modelId (Serves modelId s (.taskReturned i result)) s
      (s.taskReturned i result) := by
  cases htask : s.tasks[i]? with
  | none =>
      simp only [taskReturned, htask]
      exact .refl (by simp [Serves, htask])
  | some task =>
      cases hpc : task.pc with
      | dispatching =>
          have hcosts := requestCost_pos config task.request
          have hown : Serves modelId s (.taskReturned i result) ↔ task.modelId = modelId := by
            simp [Serves, htask, hpc]
          rw [hown]
          cases result with
          | error e =>
              simp only [taskReturned, htask, hpc]
              refine finish_lowers htask (Or.inl ?_) rfl rfl rfl
              simp only [taskCost, hpc]
              omega
          | ok results =>
              simp only [taskReturned, htask, hpc]
              refine set_lowers_quiet htask ?_ (Or.inl ?_) rfl rfl rfl
              · rfl
              · simp only [taskCost, hpc]
                omega
      | _ =>
          simp only [taskReturned, htask, hpc]
          exact .refl (by simp [Serves, htask, hpc])

/-- What a request that is queued again adds to the queue. -/
theorem queueCostOf_resubmit (m : Moment ν) (r : InferenceRequest ν)
    (hinv : AccountedScheduler.Inv s.scheduler)
    (hraised : (Scheduler.resubmit m r s.scheduler).raised = none)
    (hscheduler : s'.scheduler = (Scheduler.resubmit m r s.scheduler).state) :
    queueCostOf config modelId s' =
      queueCostOf config modelId s + if r.modelId = modelId then requestCost config r else 0 := by
  rcases AccountedScheduler.resubmit_spec m r hinv with ⟨-, -, hrequeues⟩
  rcases hrequeues.accepted hraised with ⟨queued, hunstamped, hperm⟩
  have hmodel : queued.modelId = r.modelId := modelId_of_unstamped hunstamped
  rw [queueCostOf, queueCostOf, hscheduler, total_perm _ hperm, total_cons, hmodel,
    requestCost_unstamped hunstamped, Nat.add_comm]

theorem taskResult_lowers (hinv : AccountedScheduler.Inv s.scheduler)
    (howned : ∀ task ∈ s.tasks, task.request.modelId = task.modelId) (i : Nat)
    (issuedAt now : Rat) (m : Moment ν) :
    Lowers config modelId (Serves modelId s (.taskResult i issuedAt now m)) s
      (s.taskResult config i issuedAt now m) := by
  cases htask : s.tasks[i]? with
  | none =>
      simp only [taskResult, htask]
      exact .refl (by simp [Serves, htask])
  | some task =>
      cases hpc : task.pc with
      | processing results =>
          have hown : Serves modelId s (.taskResult i issuedAt now m) ↔
              task.modelId = modelId := by
            simp [Serves, htask, hpc]
          rw [hown]
          cases results with
          | nil =>
              simp only [taskResult, htask, hpc]
              refine finish_lowers htask (Or.inr ?_) rfl rfl rfl
              simp [taskSteps, hpc]
          | cons result results =>
              by_cases hsuccess : result.success = true
              · simp only [taskResult, htask, hpc, hsuccess, if_true]
                refine set_lowers_quiet htask ?_ (Or.inr ?_) rfl rfl rfl
                · rfl
                · simp only [taskCost, taskSteps, hpc, List.length_cons]
                  omega
              · by_cases hretry : mayRetry config task.request = true
                · have hcost := requestCost_retried hretry
                  have hpos := requestCost_pos config (retried task.request)
                  cases hraised : (Scheduler.resubmit m (retried task.request)
                      s.scheduler).raised with
                  | some e =>
                      have hrefused := (AccountedScheduler.resubmit_spec m (retried task.request)
                        hinv).2.2.refused (by simp [hraised])
                      simp only [taskResult, htask, hpc, hsuccess, hretry, hraised, hrefused,
                        if_true, Bool.false_eq_true, if_false]
                      refine finish_lowers htask (Or.inr ?_) rfl rfl rfl
                      simp [taskSteps, hpc]
                  | none =>
                      have hmodel : (retried task.request).modelId = task.modelId :=
                        howned task (List.mem_of_getElem? htask)
                      simp only [taskResult, htask, hpc, hsuccess, hretry, hraised, if_true,
                        Bool.false_eq_true, if_false]
                      have hspends : Spends config (requestCost config (retried task.request)) task
                          { task with
                            request := retried task.request
                            pc := .processing results } := by
                        right
                        simp only [taskCost, taskSteps, hpc, List.length_cons]
                        omega
                      refine set_lowers htask ?_ hspends ?_ (le_refl _) rfl
                      · rfl
                      · rw [← hmodel]
                        exact queueCostOf_resubmit m _ hinv hraised rfl
                · simp only [taskResult, htask, hpc, hsuccess, hretry, Bool.false_eq_true, if_false]
                  refine set_lowers_quiet htask ?_ (Or.inr ?_) rfl rfl rfl
                  · rfl
                  · simp [taskCost, taskSteps, hpc]
      | _ =>
          simp only [taskResult, htask, hpc]
          exact .refl (by simp [Serves, htask, hpc])

theorem taskSent_lowers (i : Nat) (outcome : SendOutcome) :
    Lowers config modelId (Serves modelId s (.taskSent i outcome)) s (s.taskSent i outcome) := by
  cases htask : s.tasks[i]? with
  | none =>
      simp only [taskSent, htask]
      exact .refl (by simp [Serves, htask])
  | some task =>
      cases hpc : task.pc with
      | sending result results =>
          have hown : Serves modelId s (.taskSent i outcome) ↔ task.modelId = modelId := by
            simp [Serves, htask, hpc]
          rw [hown]
          -- the send is over in any case
          have hspends : Spends config 0 task { task with pc := .processing results } := by
            right
            simp [taskCost, taskSteps, hpc]
          cases outcome with
          | sent =>
              simp only [taskSent, htask, hpc]
              refine set_lowers_quiet htask ?_ hspends rfl rfl rfl
              rfl
          | zmqError message =>
              simp only [taskSent, htask, hpc]
              refine set_lowers_quiet htask ?_ hspends rfl rfl rfl
              rfl
          | raised message =>
              simp only [taskSent, htask, hpc]
              refine finish_lowers htask (Or.inr ?_) rfl rfl rfl
              simp [taskSteps, hpc]
      | _ =>
          simp only [taskSent, htask, hpc]
          exact .refl (by simp [Serves, htask, hpc])

/-! ## The other steps -/

/-- A step that takes requests out of the queue, or only requests of other models in. -/
theorem frame_lowers {own : Prop} (hown : ¬ own)
    (hqueue : queueCostOf config modelId s' ≤ queueCostOf config modelId s)
    (htasks : s'.tasks = s.tasks) (hloops : loopStepsOf modelId s' ≤ loopStepsOf modelId s) :
    Lowers config modelId own s s' := by
  refine ⟨rank₃_le ?_ ?_ hloops, fun h => absurd h hown⟩
  · simp only [taskCostOf, htasks]
    exact Nat.add_le_add_right hqueue _
  · simp only [taskStepsOf, htasks]
    exact le_refl _

theorem setEvent_loopSteps (other : String) (s : Server ν) :
    loopStepsOf modelId (s.setEvent other) = loopStepsOf modelId s := by
  unfold setEvent
  split
  · rfl
  · exact total_modify_same _ _ fun _ => rfl

/-- The loop that is started is not the loop of the model. -/
theorem ensureModelDispatch_loopSteps {other : String} (hother : other ≠ modelId) (s : Server ν) :
    loopStepsOf modelId (s.ensureModelDispatch config other) = loopStepsOf modelId s := by
  unfold ensureModelDispatch
  split
  · rfl
  · simp [loopStepsOf, hother]

theorem predictiveWake_lowers {own : Prop} (hown : ¬ own) (now : String → Rat) :
    Lowers config modelId own s (s.predictiveWake config now) := by
  rcases predictiveWake_frame config now s with ⟨_, hframe⟩
  have hloops : loopStepsOf modelId (s.predictiveWake config now) = loopStepsOf modelId s :=
    predictiveWake_rel config (fun s s' => loopStepsOf modelId s' = loopStepsOf modelId s)
      (fun _ => rfl) (fun _ _ _ h h' => h'.trans h) (fun s other => setEvent_loopSteps other s) now s
  refine frame_lowers hown ?_ ((congrArg tasks hframe).trans rfl) hloops.le
  simp only [hframe]
  exact le_refl _

/-- A tick only takes requests out of the queue. -/
theorem tick_subperm (expiry : InferenceRequest ν → Rat) (now : String → Rat)
    (hinv : AccountedScheduler.Inv s.scheduler) :
    (stored (s.tick config expiry now).scheduler).Subperm (stored s.scheduler) := by
  have hchecks : ∀ (clientIds : List String) (s₁ : Server ν),
      AccountedScheduler.Inv s₁.scheduler → (stored (clientIds.foldl
        (fun s clientId => s.checkClient config (now clientId) clientId) s₁).scheduler).Subperm
          (stored s₁.scheduler) := by
    intro clientIds
    induction clientIds with
    | nil => exact fun _ _ => List.Subperm.refl _
    | cons clientId clientIds ih =>
        intro s₁ hinv₁
        have hcheck : AccountedScheduler.Inv
            (s₁.checkClient config (now clientId) clientId).scheduler ∧
              (stored (s₁.checkClient config (now clientId) clientId).scheduler).Subperm
                (stored s₁.scheduler) := by
          unfold checkClient
          split
          · rcases AccountedScheduler.disconnected_spec clientId hinv₁ with ⟨hinv', -, hperm⟩
            exact ⟨hinv', hperm.subperm.trans List.filter_sublist.subperm⟩
          · exact ⟨hinv₁, List.Subperm.refl _⟩
        exact (ih _ hcheck.1).trans hcheck.2
  rcases AccountedScheduler.tick_spec expiry hinv with ⟨hinv', -, hperm, -⟩
  have hexpired : (stored (Scheduler.tick expiry s.scheduler).2).Subperm (stored s.scheduler) :=
    hperm.subperm.trans List.filter_sublist.subperm
  unfold tick
  dsimp only
  split
  · exact (hchecks _ _ hinv').trans hexpired
  · exact (hchecks _ _ hinv').trans hexpired

theorem tick_lowers {own : Prop} (hown : ¬ own) (hinv : AccountedScheduler.Inv s.scheduler)
    (expiry : InferenceRequest ν → Rat) (now : String → Rat) :
    Lowers config modelId own s (s.tick config expiry now) := by
  rcases tick_frame config expiry now s with ⟨_, _, _, hframe⟩
  refine frame_lowers hown (total_subperm _ (tick_subperm expiry now hinv))
    ((congrArg tasks hframe).trans rfl) ?_
  simp only [hframe]
  exact le_refl _

theorem useScheduler_lowers {own : Prop} (hown : ¬ own) (registered : String → Bool)
    (strategy : String) (policy : Option String) (weights : Option (DeadlineAwareConfig ν)) :
    Lowers config modelId own s
      (s.useScheduler config registered strategy policy weights).2 := by
  cases hcreate : createScheduler (swapConfig config.scheduling strategy weights) with
  | error e =>
      rw [useScheduler_refused registered policy hcreate]
      exact .refl hown
  | ok scheduler =>
      have hstored := useScheduler_stored registered policy hcreate s
      rcases useScheduler_frame config registered strategy policy weights s with ⟨_, hframe⟩
      refine frame_lowers hown ?_ ((congrArg tasks hframe).trans rfl) ?_
      · simp [queueCostOf, hstored]
      · simp only [hframe]
        exact le_refl _

/-- A submission for another model may drop a request of this one. -/
theorem submitRequest_queueCost (m : Moment ν) {request : InferenceRequest ν}
    (hother : request.modelId ≠ modelId) (hinv : AccountedScheduler.Inv s.scheduler) :
    queueCostOf config modelId (s.submitRequest config m request) ≤
      queueCostOf config modelId s := by
  rw [queueCostOf, queueCostOf, submitRequest_scheduler]
  rcases submit_spec m request hinv with ⟨-, -, kept, hdrop, haccept, hrefuse⟩
  have hkept : total (fun r => if r.modelId = modelId then requestCost config r else 0) kept ≤
      total (fun r => if r.modelId = modelId then requestCost config r else 0)
        (stored s.scheduler) :=
    total_subperm _ ((List.sublist_append_right _ _).subperm.trans hdrop.symm.subperm)
  cases hraised : (Scheduler.submit m request s.scheduler).raised with
  | some e =>
      rw [total_perm _ (hrefuse (by simp [hraised]))]
      exact hkept
  | none =>
      rcases haccept hraised with ⟨queued, hunstamped, hperm⟩
      have hmodel : queued.modelId ≠ modelId := by
        rw [modelId_of_unstamped hunstamped]
        exact hother
      rw [total_perm _ hperm, total_cons, if_neg hmodel, Nat.zero_add]
      exact hkept

theorem submitRequest_loopSteps (m : Moment ν) {request : InferenceRequest ν}
    (hother : request.modelId ≠ modelId) (s : Server ν) :
    loopStepsOf modelId (s.submitRequest config m request) = loopStepsOf modelId s := by
  unfold submitRequest
  dsimp only
  split
  · rfl
  · rfl
  · split
    · rw [setEvent_loopSteps, ensureModelDispatch_loopSteps hother]
      rfl
    · rfl

theorem receive_lowers {own : Prop} (hown : ¬ own) (hinv : AccountedScheduler.Inv s.scheduler)
    {msg : IncomingObservation} {clock : ReceiveClock} {m : Moment ν}
    (harrives : ¬ Arrives pb modelId (.receive msg clock m)) :
    Lowers config modelId own s (s.receive config pb msg clock m) := by
  cases hdecode : decode pb clock.nowNs msg.envelope msg.payload msg.receivedAt with
  | error e =>
      rcases receive_rejected_frame config pb clock hdecode m s with ⟨_, hreceive⟩
      rw [hreceive]
      exact frame_lowers hown (le_refl _) rfl (le_refl _)
  | ok decoded =>
      have hother : decoded.modelId ≠ modelId := fun h => harrives ⟨decoded, hdecode, h⟩
      have htracked := track_queue msg decoded clock.tracked hinv
      rcases track_frame msg decoded clock.tracked s with ⟨_, _, _, _, _, htrack⟩
      have htasks : (s.receive config pb msg clock m).tasks = s.tasks := by
        rcases receive_frame config pb clock hdecode m s with ⟨_, _, _, _, hreceive⟩
        rw [hreceive]
        exact (congrArg tasks htrack).trans rfl
      have hqueue : queueCostOf config modelId (s.track msg decoded clock.tracked) =
          queueCostOf config modelId s := total_perm _ htracked.2.2
      have hloops : loopStepsOf modelId (s.track msg decoded clock.tracked) =
          loopStepsOf modelId s := by
        rw [htrack]
        rfl
      refine frame_lowers hown ?_ htasks ?_
      · rw [receive_accepted config pb clock hdecode, ← hqueue]
        exact submitRequest_queueCost m hother htracked.1
      · rw [receive_accepted config pb clock hdecode, submitRequest_loopSteps m hother, ← hloops]
        exact le_refl _

/-- While the loops own the queue, the single loop stands still. -/
theorem step_legacy_still (a : Action ν) (ha : a.IsLegacy) (htop : s.legacy = .top)
    (hyields : (config.scheduling.pipelineDispatch.enabled && s.scheduler.isModelAware) = true) :
    step config pb s a = s := by
  cases a with
  | legacyTop first clock dispatchTime => simp [step, legacyTop, htop, hyields]
  | legacyReturned result => simp [step, legacyReturned, htop]
  | legacyResult issuedAt now m => simp [step, legacyResult, htop]
  | legacySent outcome => simp [step, legacySent, htop]
  | _ => exact absurd ha id

/-- No step raises the rank of a model for which nothing arrives, and each step of the model's own
coroutines lowers it. -/
theorem Piped.lowers (h : Piped config s)
    (henabled : config.scheduling.pipelineDispatch.enabled = true)
    (haware : s.scheduler.isModelAware = true) (hqueued : ¬ Drained modelId s) (a : Action ν)
    (harrives : ¬ Arrives pb modelId a) :
    Lowers config modelId (Serves modelId s a) s (step config pb s a) := by
  by_cases hlegacy : a.IsLegacy
  · rw [step_legacy_still a hlegacy h.top (by simp [henabled, haware])]
    refine .refl ?_
    cases a with
    | legacyTop _ _ _ => exact id
    | legacyReturned _ => exact id
    | legacyResult _ _ _ => exact id
    | legacySent _ => exact id
    | _ => exact absurd hlegacy id
  cases a with
  | receive msg clock m => exact receive_lowers id h.supplied.inv harrives
  | tick expiry now => exact tick_lowers id h.supplied.inv expiry now
  | predictiveWake now => exact predictiveWake_lowers id now
  | useScheduler registered strategy policy weights =>
      exact useScheduler_lowers id registered strategy policy weights
  | loopAcquire i => exact loopAcquire_lowers i
  | loopProceed i now => exact loopProceed_lowers haware h.supplied.inv hqueued i now
  | loopResume i woken => exact loopResume_lowers i woken
  | taskStart i => exact taskStart_lowers i
  | taskReturned i result => exact taskReturned_lowers i result
  | taskResult i issuedAt now m =>
      exact taskResult_lowers h.supplied.inv
        (fun task htask => (h.supplied.pooled.owned task htask).1) i issuedAt now m
  | taskSent i outcome => exact taskSent_lowers i outcome
  | _ => exact absurd trivial hlegacy

theorem Piped.step (h : Piped config s)
    (henabled : config.scheduling.pipelineDispatch.enabled = true)
    (haware : s.scheduler.isModelAware = true) (a : Action ν) :
    Piped config (step config pb s a) := by
  refine ⟨h.supplied.step ?_, step_legacy_top config pb a (by simp [henabled, haware]) h.top⟩
  -- the single loop queues nothing again
  intro horphan
  cases a with
  | legacyResult issuedAt now m =>
      rcases horphan with ⟨-, batch, result, results, req, hpc, -⟩
      cases h.top.symm.trans hpc
  | _ => exact horphan

end Steps

/-! ## Runs -/

/-- The server with an enabled pipeline, as long as its scheduler is model-aware. -/
theorem piped_ranked (config : InferentialConfig ν) (pb : Protobuf ν) (modelId : String)
    (henabled : config.scheduling.pipelineDispatch.enabled = true) :
    Ranked (step config pb) (Piped config)
      (fun s a => s.scheduler.isModelAware = true ∧ ¬ Arrives pb modelId a) (Serves modelId)
      (Drained modelId) (remaining config modelId) where
  keeps := fun _ a h hallowed => h.step henabled hallowed.1 a
  possible := fun _ _ h hallowed hqueued => h.goes_on hallowed.1 hqueued
  le := fun _ a h hallowed hqueued => (h.lowers henabled hallowed.1 hqueued a hallowed.2).1
  lt := fun _ a h hallowed hqueued => (h.lowers henabled hallowed.1 hqueued a hallowed.2).2

theorem init_piped {config : InferentialConfig ν} {s : Server ν} (hinit : init config = .ok s) :
    Piped config s := by
  refine ⟨init_supplied hinit, ?_⟩
  unfold init at hinit
  split at hinit
  · cases hinit
  · cases hinit
    rfl

/-- In every infinite run of the pipeline under a model-aware scheduler, the queue of a model gets
empty once nothing arrives for the model any more, if the loop and the tasks of the model are not
kept from going on for ever: they cannot block each other, and no retry goes on for ever. -/
theorem pipeline_drains (config : InferentialConfig ν) (pb : Protobuf ν) (s₀ : Server ν)
    (hinit : init config = .ok s₀)
    (henabled : config.scheduling.pipelineDispatch.enabled = true) (schedule : Nat → Action ν)
    (haware : ∀ n, (trace (step config pb) s₀ schedule n).scheduler.isModelAware = true)
    (modelId : String) (hfair : WeaklyFair (step config pb) (Serves modelId) s₀ schedule)
    (start : Nat) (harrivals : ∀ n ≥ start, ¬ Arrives pb modelId (schedule n)) :
    ∃ n ≥ start, Drained modelId (trace (step config pb) s₀ schedule n) := by
  have hpiped : ∀ n ≥ 0, Piped config (trace (step config pb) s₀ schedule n) :=
    trace_keeps (fun s a hpiped haware => hpiped.step henabled haware a) (init_piped hinit)
      fun n _ => haware n
  exact (piped_ranked config pb modelId henabled).eventually (hpiped start (Nat.zero_le start))
    (fun n hn => ⟨haware n, harrivals n hn⟩) hfair

/-! ### A round that is repeated for ever -/

/-- The loop looks for a request, and a task calls the dispatcher, which raises. -/
def roundAction : Nat → Action Rat
  | 0 => .loopAcquire 0
  | 1 => .loopProceed 0 0
  | 2 => .loopResume 0 false
  | 3 => .taskStart 0
  | _ => .taskReturned 0 (.error .zeroDivisionError)

def roundAfterRound : Nat → Action Rat
  | 0 => arriveAt 0 0
  | n + 1 => roundAction (n % 5)

def roundState (n : Nat) : Server Rat :=
  trace (step pipelineConfig plainMessages) pipelineServer roundAfterRound n

theorem roundAfterRound_eq (k j : Nat) : roundAfterRound (6 + 5 * k + j) = roundAction (j % 5) := by
  have hnext : 6 + 5 * k + j = (5 + 5 * k + j) + 1 := by omega
  have hmod : (5 + 5 * k + j) % 5 = j % 5 := by omega
  rw [hnext, roundAfterRound, hmod]

/-- After the first round nothing is left, and the state comes back. -/
theorem roundState_again (k : Nat) : roundState (6 + 5 * k) = roundState 6 := by
  induction k with
  | zero => rfl
  | succ k ih =>
      let next (j : Nat) (s : Server Rat) : Server Rat :=
        step pipelineConfig plainMessages s (roundAfterRound (6 + 5 * k + j))
      have hround : roundState (6 + 5 * (k + 1)) =
          next 4 (next 3 (next 2 (next 1 (next 0 (roundState (6 + 5 * k)))))) := rfl
      simp only [hround, next, ih, roundAfterRound_eq]
      rfl

theorem roundState_aware (n : Nat) : (roundState n).scheduler.isModelAware = true := by
  induction n with
  | zero => rfl
  | succ n ih =>
      have hswap : ¬ (roundAfterRound n).IsSwap := by
        unfold roundAfterRound roundAction
        split
        · exact id
        · split <;> exact id
      exact (step_called pipelineConfig plainMessages (roundState n) hswap).isModelAware.trans ih

theorem rounds_fair : WeaklyFair (step pipelineConfig plainMessages) (Serves "policy")
    pipelineServer roundAfterRound := by
  intro n _
  refine ⟨6 + 5 * n, by omega, ?_⟩
  show Serves "policy" (roundState (6 + 5 * n)) (roundAfterRound (6 + 5 * n + 0))
  rw [roundState_again, roundAfterRound_eq]
  exact ⟨⟨"policy", 2, true, .acquiring⟩, by decide +kernel, rfl, rfl, by decide⟩

theorem rounds_drain :
    let trace := trace (step pipelineConfig plainMessages) pipelineServer roundAfterRound
    ¬ Drained "policy" (trace 1) ∧ ∃ n ≥ 1, Drained "policy" (trace n) := by
  refine ⟨by unfold Drained; decide +kernel, pipeline_drains pipelineConfig plainMessages
    pipelineServer rfl rfl roundAfterRound roundState_aware "policy" rounds_fair 1 ?_⟩
  intro n hn
  cases n with
  | zero => cases hn
  | succ n =>
      unfold roundAfterRound roundAction
      dsimp only
      split <;> exact id

end Server
end Inferential
