import Inferential.Server.State

/-!
# Legacy — the single dispatch loop

`_dispatch_loop` collects a batch, waits for the dispatcher, and processes the results one by one,
waiting for each response to be sent.
-/

namespace Inferential

open PyStd

variable {ν : Type} [Score ν]

namespace Server

/-- The inner loop that collects more requests.  Each round adds a request, so that as many rounds
as the batch may have requests are enough. -/
def collectMore (maxConcurrent : Nat) (clock : Nat → Rat) :
    Nat → List (InferenceRequest ν) → AnyScheduler ν →
      List (InferenceRequest ν) × AnyScheduler ν
  | 0, batch, scheduler => (batch, scheduler)
  | fuel + 1, batch, scheduler =>
      if batch.length < maxConcurrent then
        let (more, scheduler) := Scheduler.nextBatch (clock fuel) scheduler
        if more.isEmpty then (batch, scheduler)
        else collectMore maxConcurrent clock fuel (batch ++ more) scheduler
      else (batch, scheduler)

/-- The first batch and what is collected on top of it; `first` and `clock` are the clock readings
of the calls of `next_batch`. -/
def collectBatch (maxConcurrent : Nat) (first : Rat) (clock : Nat → Rat)
    (scheduler : AnyScheduler ν) : List (InferenceRequest ν) × AnyScheduler ν :=
  let (batch, scheduler) := Scheduler.nextBatch first scheduler
  if batch.isEmpty then (batch, scheduler)
  else collectMore maxConcurrent clock maxConcurrent batch scheduler

/-- From the top of the loop to the `await` of the dispatcher. -/
def legacyTop (config : InferentialConfig ν) (first : Rat) (clock : Nat → Rat)
    (dispatchTime : Rat) (s : Server ν) : Server ν :=
  match s.legacy with
  | .top =>
      -- model loops own a model-aware scheduler when the pipeline is enabled
      if config.scheduling.pipelineDispatch.enabled && s.scheduler.isModelAware then s
      else
        let (batch, scheduler) :=
          collectBatch config.scheduling.maxConcurrentDispatch first clock s.scheduler
        let s := { s with scheduler := scheduler }
        if batch.isEmpty then s
        else
          let s := s.record "queue_depth" (Scheduler.queueLen scheduler : Int) []
          let s := s.record "batch_size" batch.length []
          let s := s.recordAll (batch.map fun req =>
            ⟨"scheduling_wait_ms", (dispatchTime - req.receivedAt) * 1000,
              [("client", req.clientId)]⟩)
          let s := s.log (batch.map (.taken .legacy) ++ batch.map fun req => .dispatched req.objId)
          { s with legacy := .dispatching batch }
  | _ => s

/-- The dispatcher returns, or raises. -/
def legacyReturned (result : Except PyError (List DispatchResult)) (s : Server ν) : Server ν :=
  match s.legacy with
  | .dispatching batch =>
      match result with
      -- nothing in the loop catches what the dispatcher raises
      | .error _ => { s with legacy := .dead }
      | .ok results =>
          let s := s.log (results.map fun result => .returned result.reqId result.success)
          { s with legacy := .processing batch results }
  | _ => s

/-- `batch_by_id.get(req_id)` -/
def originalOf (batch : List (InferenceRequest ν)) (reqId : Nat) : Option (InferenceRequest ν) :=
  batch.find? fun req => req.objId = reqId

/-- The batch holds references: a changed request changes in it too. -/
def changeIn (request : InferenceRequest ν) (batch : List (InferenceRequest ν)) :
    List (InferenceRequest ν) :=
  batch.map fun req => if req.objId = request.objId then request else req

/-- One result, up to the `await` of `send` when it is a success. -/
def legacyResult (config : InferentialConfig ν) (issuedAt now : Rat) (m : Moment ν)
    (s : Server ν) : Server ν :=
  match s.legacy with
  | .processing _ [] => { s with legacy := .top }
  | .processing batch (result :: results) =>
      if result.success then
        -- the response counts as sent before `send` is awaited
        let s := { s with
          responses := s.responses.onResponseSent issuedAt result.clientId result.responseId
            result.latencyMs }
        let e2eMs :=
          match originalOf batch result.reqId with
          | some original => (now - original.receivedAt) * 1000
          | none => result.latencyMs
        let s := s.record "e2e_latency_ms" e2eMs [("client", result.clientId)]
        let s := s.record "inference_latency_ms" result.latencyMs [("client", result.clientId)]
        let s := s.log [.responded result.reqId result.identity]
        { s with legacy := .sending batch result results }
      else
        match (originalOf batch result.reqId).filter (mayRetry config) with
        | some original =>
            let o := Scheduler.resubmit m (retried original) s.scheduler
            let s := { s with scheduler := o.state }
            match o.raised with
            -- scoring raised, outside of any `try`
            | some _ => { s with legacy := .dead }
            | none =>
                let s := s.record "dispatch_retries" 1 [("client", result.clientId)]
                let s := s.log [.requeued original.objId]
                { s with legacy := .processing (changeIn (retried original) batch) results }
        | none =>
            let s := s.record "dispatch_errors" 1
              [("client", result.clientId), ("error", errorLabel result)]
            { s with legacy := .processing batch results }
  | _ => s

/-- `send` returns, or raises. -/
def legacySent (outcome : SendOutcome) (s : Server ν) : Server ν :=
  match s.legacy with
  | .sending batch result results =>
      match outcome with
      | .sent => { s.log [.sent result.reqId] with legacy := .processing batch results }
      -- only this exception is caught
      | .zmqError _ =>
          let s := s.record "send_errors" 1 [("client", result.clientId)]
          { s with legacy := .processing batch results }
      | .raised _ => { s with legacy := .dead }
  | _ => s

end Server
end Inferential
