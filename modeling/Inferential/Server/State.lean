import Inferential.Dispatch.Base
import Inferential.Metrics.Collector
import Inferential.Scheduler.Strategies
import Inferential.Tracking.Cadence
import Inferential.Tracking.Clients
import Inferential.Tracking.Responses

/-!
# State — the server and its coroutines

The fields of `Server`, and for each coroutine the `await` at which it stands.  Everything between
two awaits is one step.  `history` is no field of the source: it writes down, in order, what happens
to the requests.
-/

namespace Inferential

open PyStd

variable {ν : Type} [Score ν]

/-! ## Coroutines -/

/-- `_dispatch_loop`; an exception ends it. -/
inductive LegacyLoop (ν : Type)
  | top
  | dispatching (batch : List (InferenceRequest ν))
  | processing (batch : List (InferenceRequest ν)) (results : List DispatchResult)
  | sending (batch : List (InferenceRequest ν)) (result : DispatchResult)
      (results : List DispatchResult)
  | dead

inductive LoopPc
  /-- Every `acquire` is a step of its own.  In `asyncio` one that finds a free permit does not
  suspend, so that the runs here allow more interleavings than there are. -/
  | acquiring
  | holding
  | sleeping
  | waiting
  deriving DecidableEq, Repr

/-- A `_model_dispatch_loop` with its semaphore and its event. -/
structure ModelLoop where
  modelId : String
  permits : Nat
  event : Bool := false
  pc : LoopPc := .acquiring
  deriving DecidableEq

inductive TaskPc
  | created
  | dispatching
  | processing (results : List DispatchResult)
  | sending (result : DispatchResult) (results : List DispatchResult)
  deriving DecidableEq

/-- A `_dispatch_single`; `loop` tells which semaphore it releases. -/
structure DispatchTask (ν : Type) where
  request : InferenceRequest ν
  modelId : String
  loop : Nat
  pc : TaskPc := .created

/-! ## What happens to requests -/

/-- Who takes a request out of the scheduler. -/
inductive Owner
  | legacy
  | model (modelId : String)
  deriving DecidableEq, Repr

inductive Event (ν : Type)
  | accepted (request : InferenceRequest ν)
  | connected (clientId : String)
  | taken (owner : Owner) (request : InferenceRequest ν)
  | dispatched (objId : Nat)
  | returned (objId : Nat) (success : Bool)
  | requeued (objId : Nat)
  | responded (objId : Nat) (identity : Bytes)
  | sent (objId : Nat)
  | disconnected (clientId : String) (removed : Nat)

/-! ## The server -/

structure Server (ν : Type) [Score ν] where
  scheduler : AnyScheduler ν
  cadence : CadenceTracker
  responses : ResponseTracker := {}
  clients : ClientRegistry := {}
  metrics : MetricsCollector
  /-- The index of the loop whose event it is. -/
  modelEvents : Dict String Nat := Dict.empty
  loops : List ModelLoop := []
  legacy : LegacyLoop ν := .top
  tasks : List (DispatchTask ν) := []
  /-- The `id` of the next request object. -/
  nextObj : Nat := 0
  history : List (Event ν) := []

namespace Server

/-- `__init__`, up to the first step of `run`. -/
def init (config : InferentialConfig ν) : Except PyError (Server ν) :=
  match createScheduler config.scheduling with
  | .error e => .error e
  | .ok scheduler =>
      .ok {
        scheduler := scheduler
        cadence := {
          alpha := config.responseTracking.cadenceAlpha
          overdueMultiplier := config.responseTracking.overdueMultiplier }
        metrics := .init config.metrics }

def record (name : String) (value : Rat) (labels : List (String × String)) (s : Server ν) :
    Server ν :=
  { s with metrics := s.metrics.record name value labels }

def recordAll (points : List MetricPoint) (s : Server ν) : Server ν :=
  { s with metrics := s.metrics.recordAll points }

def log (events : List (Event ν)) (s : Server ν) : Server ν :=
  { s with history := s.history ++ events }

def updateLoop (i : Nat) (f : ModelLoop → ModelLoop) (s : Server ν) : Server ν :=
  { s with loops := s.loops.modify i f }

def setTask (i : Nat) (task : DispatchTask ν) (s : Server ν) : Server ν :=
  { s with tasks := s.tasks.set i task }

/-- `self._model_events[model_id].set()`, for a model that has an event. -/
def setEvent (modelId : String) (s : Server ν) : Server ν :=
  match s.modelEvents.get? modelId with
  | none => s
  | some i => s.updateLoop i fun l => { l with event := true }

/-! ## Retries -/

/-- `max_retries > 0 and request.retry_count < max_retries` -/
def mayRetry (config : InferentialConfig ν) (request : InferenceRequest ν) : Bool :=
  decide (0 < config.scheduling.maxRetries) &&
    decide (request.retryCount < config.scheduling.maxRetries)

/-- `request.retry_count += 1` -/
def retried (request : InferenceRequest ν) : InferenceRequest ν :=
  { request with retryCount := request.retryCount + 1 }

/-- `result.error or "unknown"` -/
def errorLabel (result : DispatchResult) : String :=
  match result.error with
  | none => "unknown"
  | some error => if error = "" then "unknown" else error

/-- How `transport.send` ends. -/
inductive SendOutcome
  | sent
  | zmqError (message : String)
  | raised (message : String)
  deriving DecidableEq, Repr

end Server
end Inferential
