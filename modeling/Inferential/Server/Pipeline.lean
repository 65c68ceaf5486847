import Inferential.Server.State

/-!
# Pipeline — a dispatch loop per model

`_model_dispatch_loop` hands one request at a time to a `_dispatch_single` task, which gives the
permit back when it ends.
-/

namespace Inferential

open PyStd

variable {ν : Type} [Score ν]

namespace Server

/-! ## The loop of a model -/

/-- `await sem.acquire()` -/
def loopAcquire (i : Nat) (s : Server ν) : Server ν :=
  match s.loops[i]? with
  | none => s
  | some loop =>
      if loop.pc = .acquiring ∧ 0 < loop.permits then
        s.updateLoop i fun l => { l with permits := l.permits - 1, pc := .holding }
      else s

/-- `sem.release()`, and on to another `await`. -/
def loopRelease (i : Nat) (pc : LoopPc) (s : Server ν) : Server ν :=
  s.updateLoop i fun l => { l with permits := l.permits + 1, pc := pc }

/-- From the permit to the next `await`; the permit goes to the task, if there is one. -/
def loopProceed (i : Nat) (now : Rat) (s : Server ν) : Server ν :=
  match s.loops[i]? with
  | none => s
  | some loop =>
      if loop.pc = .holding then
        if s.scheduler.isModelAware then
          let (batch, scheduler) := s.scheduler.nextBatchForModel loop.modelId
          let s := { s with scheduler := scheduler }
          match batch with
          -- no request: the permit is given back before the wait
          | [] => s.loopRelease i .waiting
          | request :: _ =>
              let s := s.record "scheduling_wait_ms" ((now - request.receivedAt) * 1000)
                [("client", request.clientId), ("model", loop.modelId)]
              let s := s.record "queue_depth" (s.scheduler.queueLenForModel loop.modelId)
                [("model", loop.modelId)]
              let s := s.log [.taken (.model loop.modelId) request]
              let task : DispatchTask ν :=
                { request := request, modelId := loop.modelId, loop := i }
              { s.updateLoop i fun l => { l with pc := .acquiring } with
                tasks := s.tasks ++ [task] }
        else
          -- a scheduler that is not model-aware is left to the single loop
          s.loopRelease i .sleeping
      else s

/-- The sleep is over, or the wait for the event: the event is cleared, or the wait timed out. -/
def loopResume (i : Nat) (woken : Bool) (s : Server ν) : Server ν :=
  match s.loops[i]? with
  | none => s
  | some loop =>
      match loop.pc with
      | .sleeping => s.updateLoop i fun l => { l with pc := .acquiring }
      | .waiting =>
          if woken then
            if loop.event then s.updateLoop i fun l => { l with event := false, pc := .acquiring }
            else s
          else s.updateLoop i fun l => { l with pc := .acquiring }
      | _ => s

/-! ## The task of a request -/

/-- The `finally` of `_dispatch_single`. -/
def finishTask (i : Nat) (task : DispatchTask ν) (s : Server ν) : Server ν :=
  { s.updateLoop task.loop fun l => { l with permits := l.permits + 1 } with
    tasks := s.tasks.eraseIdx i }

/-- The task starts, and calls the dispatcher. -/
def taskStart (i : Nat) (s : Server ν) : Server ν :=
  match s.tasks[i]? with
  | none => s
  | some task =>
      match task.pc with
      | .created =>
          (s.log [.dispatched task.request.objId]).setTask i { task with pc := .dispatching }
      | _ => s

/-- The dispatcher returns, or raises; then the exception is logged and the task ends. -/
def taskReturned (i : Nat) (result : Except PyError (List DispatchResult)) (s : Server ν) :
    Server ν :=
  match s.tasks[i]? with
  | none => s
  | some task =>
      match task.pc with
      | .dispatching =>
          match result with
          -- the request is neither answered nor queued again
          | .error _ => s.finishTask i task
          | .ok results =>
              let s := s.log (results.map fun result => .returned result.reqId result.success)
              s.setTask i { task with pc := .processing results }
      | _ => s

/-- One result, up to the `await` of `send` when it is a success. -/
def taskResult (config : InferentialConfig ν) (i : Nat) (issuedAt now : Rat) (m : Moment ν)
    (s : Server ν) : Server ν :=
  match s.tasks[i]? with
  | none => s
  | some task =>
      match task.pc with
      | .processing [] => s.finishTask i task
      | .processing (result :: results) =>
          if result.success then
            -- the response counts as sent before `send` is awaited
            let s := { s with
              responses := s.responses.onResponseSent issuedAt result.clientId result.responseId
                result.latencyMs }
            let s := s.record "e2e_latency_ms" ((now - task.request.receivedAt) * 1000)
              [("client", result.clientId), ("model", task.modelId)]
            let s := s.record "inference_latency_ms" result.latencyMs
              [("client", result.clientId), ("model", task.modelId)]
            let s := s.log [.responded result.reqId result.identity]
            s.setTask i { task with pc := .sending result results }
          else if mayRetry config task.request then
            let o := Scheduler.resubmit m (retried task.request) s.scheduler
            let s := { s with scheduler := o.state }
            match o.raised with
            -- scoring raised; the exception is logged and the task ends
            | some _ => s.finishTask i task
            | none =>
                let s := s.record "dispatch_retries" 1
                  [("client", result.clientId), ("model", task.modelId)]
                let s := s.log [.requeued task.request.objId]
                s.setTask i { task with request := retried task.request, pc := .processing results }
          else
            let s := s.record "dispatch_errors" 1
              [("client", result.clientId), ("error", errorLabel result)]
            s.setTask i { task with pc := .processing results }
      | _ => s

/-- `send` returns, or raises. -/
def taskSent (i : Nat) (outcome : SendOutcome) (s : Server ν) : Server ν :=
  match s.tasks[i]? with
  | none => s
  | some task =>
      match task.pc with
      | .sending result results =>
          match outcome with
          | .sent =>
              (s.log [.sent result.reqId]).setTask i { task with pc := .processing results }
          | .zmqError _ =>
              let s := s.record "send_errors" 1 [("client", result.clientId)]
              s.setTask i { task with pc := .processing results }
          | .raised _ => s.finishTask i task
      | _ => s

end Server
end Inferential
