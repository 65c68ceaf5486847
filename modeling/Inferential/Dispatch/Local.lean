import Inferential.Dispatch.Base
import Inferential.Scheduler.Request

/-!
# Local — dispatch to in-process callables
-/

namespace Inferential

open PyStd

variable {ν Obj : Type}

/-! ## Endpoint health -/

structure EndpointHealth where
  modelId : String
  avgLatencyMs : Rat := 0
  errorRate : Rat := 0
  totalRequests : Nat := 0
  lastError : Option String := none
  alpha : Rat := 1 / 5
  deriving DecidableEq

def EndpointHealth.update (h : EndpointHealth) (latencyMs : Rat) (success : Bool) :
    EndpointHealth :=
  let errorVal : Rat := if success then 0 else 1
  { h with
    totalRequests := h.totalRequests + 1
    avgLatencyMs := h.alpha * latencyMs + (1 - h.alpha) * h.avgLatencyMs
    errorRate := h.alpha * errorVal + (1 - h.alpha) * h.errorRate
    lastError := if success then h.lastError else some s!"request #{h.totalRequests + 1}" }

/-- `_update_health` -/
def updateHealth (health : Dict String EndpointHealth) (modelId : String) (latencyMs : Rat)
    (success : Bool) : Dict String EndpointHealth :=
  let h := (health.get? modelId).getD { modelId := modelId }
  health.set modelId (h.update latencyMs success)

/-! ## The dispatcher -/

/-- A callable is a function of the observation; an awaitable result has been awaited. -/
structure LocalDispatcher (Obj : Type) where
  models : Dict String (Dict String ObsValue → Except PyError (RawResult Obj)) := Dict.empty
  health : Dict String EndpointHealth := Dict.empty

namespace LocalDispatcher

def registerModel (modelId : String) (fn : Dict String ObsValue → Except PyError (RawResult Obj))
    (d : LocalDispatcher Obj) : LocalDispatcher Obj :=
  { d with models := d.models.set modelId fn }

section Dispatch

variable (pb : Protobuf ν) (np : Numpy Obj) (stamp : InferenceRequest ν → CallStamp)

/-- The health after a call.  A result that cannot be built is counted a second time, as an error. -/
def healthAfter (modelId : String) (req : InferenceRequest ν)
    (result : Except PyError (RawResult Obj)) (health : Dict String EndpointHealth) :
    Dict String EndpointHealth :=
  match result with
  | .error _ => updateHealth health modelId (stamp req).errorLatencyMs false
  | .ok rawResult =>
      -- the health is updated before the result is built, inside the same `try`
      let health := updateHealth health modelId (stamp req).latencyMs true
      match buildResult pb np (stamp req) req rawResult with
      | .error _ => updateHealth health modelId (stamp req).errorLatencyMs false
      | .ok _ => health

/-- The loop over the requests of a registered model.  The reconstruction stands before the
`try`. -/
def callAll (modelId : String) (fn : Dict String ObsValue → Except PyError (RawResult Obj)) :
    List (InferenceRequest ν) → Dict String EndpointHealth →
      Except PyError (List DispatchResult) × Dict String EndpointHealth
  | [], health => (.ok [], health)
  | req :: requests, health =>
      match reconstructNumpy pb np req with
      -- the exception leaves `dispatch`, and with it the results so far
      | .error e => (.error e, health)
      | .ok obs =>
          let health := healthAfter pb np stamp modelId req (fn obs) health
          match callAll modelId fn requests health with
          | (.error e, health) => (.error e, health)
          | (.ok results, health) =>
              (.ok (callResult pb np (stamp req) req (fn obs) :: results), health)

/-- The requests of one model. -/
def dispatchGroup (models : Dict String (Dict String ObsValue → Except PyError (RawResult Obj)))
    (modelId : String) (requests : List (InferenceRequest ν)) (health : Dict String EndpointHealth) :
    Except PyError (List DispatchResult) × Dict String EndpointHealth :=
  match models.get? modelId with
  | none =>
      (.ok (requests.map fun req =>
        errorResult (stamp req) req 0 s!"No model registered for '{modelId}'"), health)
  | some fn => callAll pb np stamp modelId fn requests health

/-- The loop over the models of the batch. -/
def dispatchModels (models : Dict String (Dict String ObsValue → Except PyError (RawResult Obj))) :
    List (String × List (InferenceRequest ν)) → Dict String EndpointHealth →
      Except PyError (List DispatchResult) × Dict String EndpointHealth
  | [], health => (.ok [], health)
  | (modelId, requests) :: groups, health =>
      match dispatchGroup pb np stamp models modelId requests health with
      | (.error e, health) => (.error e, health)
      | (.ok results, health) =>
          match dispatchModels models groups health with
          | (.error e, health) => (.error e, health)
          | (.ok rest, health) => (.ok (results ++ rest), health)

def dispatch (requests : List (InferenceRequest ν)) (d : LocalDispatcher Obj) :
    Except PyError (List DispatchResult) × LocalDispatcher Obj :=
  let (results, health) := dispatchModels pb np stamp d.models (byModel requests).items d.health
  (results, { d with health := health })

end Dispatch

end LocalDispatcher
end Inferential
