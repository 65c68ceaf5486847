import Inferential.Observation.Assembler
import Inferential.Server.State

/-!
# Receive — one pass of the receive loop

From the message that `recv` returns to the next `recv`, nothing is awaited: one pass is one step.
An exception that is not an `ObservationError` is logged, and what was done before it stays done.
-/

namespace Inferential

open PyStd

variable {ν : Type} [Score ν]

structure IncomingObservation where
  identity : Bytes
  envelope : Bytes
  payload : Bytes
  receivedAt : Rat

/-- The clock readings of a pass: in `decode`, in the cadence update, and when the request is
built. -/
structure ReceiveClock where
  nowNs : Int
  tracked : Rat
  built : Rat

namespace Server

/-- The trackers and the metrics of an accepted observation. -/
def track (msg : IncomingObservation) (decoded : DecodedObservation ν) (tracked : Rat)
    (s : Server ν) : Server ν :=
  let (isNew, clients) := s.clients.onObservation decoded.clientId decoded.modelId
  -- the first observation of a client connects it
  let scheduler :=
    if isNew then Scheduler.onClientConnected decoded.clientId s.scheduler else s.scheduler
  let s := { s with
    clients := clients
    scheduler := scheduler
    cadence := s.cadence.onRequest tracked decoded.clientId
    responses := s.responses.onRequest decoded.clientId }
  let s := if isNew then s.log [.connected decoded.clientId] else s
  let s := s.record "observation_staleness_ms" decoded.stalenessMs [("client", decoded.clientId)]
  s.record "payload_size_bytes" msg.payload.length [("client", decoded.clientId)]

/-- The request of an observation. -/
def buildRequest (config : InferentialConfig ν) (msg : IncomingObservation)
    (decoded : DecodedObservation ν) (timeUntilNext : Rat) (objId : Nat) : InferenceRequest ν where
  clientId := decoded.clientId
  modelId := decoded.modelId
  identity := msg.identity
  envelope := msg.envelope
  payload := msg.payload
  receivedAt := msg.receivedAt
  urgency := decoded.urgency
  stepsRemaining := decoded.stepsRemaining
  timeUntilNext := timeUntilNext
  latencyBudgetMs := config.getClientBudget decoded.clientId
  priority := decoded.priority
  score := ((0 : Rat) : ν)
  objId := objId

/-- `_ensure_model_dispatch`: the event, the semaphore and the loop of a model are created once. -/
def ensureModelDispatch (config : InferentialConfig ν) (modelId : String) (s : Server ν) :
    Server ν :=
  if s.modelEvents.contains modelId then s
  else
    let loop : ModelLoop := { modelId := modelId, permits := config.getModelMaxInflight modelId }
    { s with
      modelEvents := s.modelEvents.set modelId s.loops.length
      loops := s.loops ++ [loop] }

/-- Submit the request, and wake the loop of its model. -/
def submitRequest (config : InferentialConfig ν) (m : Moment ν) (request : InferenceRequest ν)
    (s : Server ν) : Server ν :=
  let o := Scheduler.submit m request s.scheduler
  -- a request that is dropped to make room leaves no trace in the metrics
  let s := { s with scheduler := o.state }
  match o.raised with
  | some (.queueFullError _) =>
      s.record "queue_full_drops" 1 [("client", request.clientId)]
  -- any other exception is logged by the loop, and the request is gone
  | some _ => s
  | none =>
      -- the loop of the model is started at its first request, and woken at each one
      if s.scheduler.isModelAware then
        (s.ensureModelDispatch config request.modelId).setEvent request.modelId
      else s

/-- The body of `_receive_loop`. -/
def receive (config : InferentialConfig ν) (pb : Protobuf ν) (msg : IncomingObservation)
    (clock : ReceiveClock) (m : Moment ν) (s : Server ν) : Server ν :=
  match decode pb clock.nowNs msg.envelope msg.payload msg.receivedAt with
  | .error (.observationError _) => s.record "observation_errors" 1 []
  | .error _ => s
  | .ok decoded =>
      let s := s.track msg decoded clock.tracked
      -- the cadence has already seen this request
      let timeUntilNext := s.cadence.timeUntilNext clock.built decoded.clientId
      let request := buildRequest config msg decoded timeUntilNext s.nextObj
      let s := { s with nextObj := s.nextObj + 1 }
      (s.log [.accepted request]).submitRequest config m request

end Server
end Inferential
