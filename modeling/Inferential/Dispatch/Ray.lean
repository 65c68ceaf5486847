import Inferential.Dispatch.Base

/-!
# Ray — dispatch to Ray Serve applications

The application handles and the remote calls are parameters.  The calls of one model run
concurrently, each in a `try` of its own, and `gather` returns their results in the order of the
requests.
-/

namespace Inferential

open PyStd

variable {ν Obj Handle : Type}

/-- `serve.get_app_handle`, and `handle.infer.remote` as a function of the observation. -/
structure RayServe (Handle Obj : Type) where
  getAppHandle : String → Except PyError Handle
  infer : Handle → Dict String ObsValue → Except PyError (RawResult Obj)

structure RayDispatcher (Handle : Type) where
  handles : Dict String Handle := Dict.empty

namespace RayDispatcher

/-- `_get_handle`; a handle that was found is kept. -/
def getHandle (serve : RayServe Handle Obj) (modelId : String) (d : RayDispatcher Handle) :
    Except PyError Handle × RayDispatcher Handle :=
  match d.handles.get? modelId with
  | some handle => (.ok handle, d)
  | none =>
      match serve.getAppHandle modelId with
      | .error e => (.error e, d)
      | .ok handle => (.ok handle, { d with handles := d.handles.set modelId handle })

section Dispatch

variable (pb : Protobuf ν) (np : Numpy Obj) (serve : RayServe Handle Obj)
  (stamp : InferenceRequest ν → CallStamp)

/-- `obs_dicts`: all observations of a model are reconstructed up front. -/
def reconstructAll :
    List (InferenceRequest ν) → Except PyError (List (InferenceRequest ν × Dict String ObsValue))
  | [] => .ok []
  | req :: requests =>
      match reconstructNumpy pb np req with
      | .error e => .error e
      | .ok obs =>
          match reconstructAll requests with
          | .error e => .error e
          | .ok rest => .ok ((req, obs) :: rest)

/-- The loop over the models of the batch. -/
def dispatchModels :
    List (String × List (InferenceRequest ν)) → RayDispatcher Handle →
      Except PyError (List DispatchResult) × RayDispatcher Handle
  | [], d => (.ok [], d)
  | (modelId, requests) :: groups, d =>
      match getHandle serve modelId d with
      -- an application that is not found raises before any `try`
      | (.error e, d) => (.error e, d)
      | (.ok handle, d) =>
          match reconstructAll pb np requests with
          | .error e => (.error e, d)
          | .ok calls =>
              let batchResults := calls.map fun call =>
                callResult pb np (stamp call.1) call.1 (serve.infer handle call.2)
              match dispatchModels groups d with
              | (.error e, d) => (.error e, d)
              | (.ok rest, d) => (.ok (batchResults ++ rest), d)

def dispatch (requests : List (InferenceRequest ν)) (d : RayDispatcher Handle) :
    Except PyError (List DispatchResult) × RayDispatcher Handle :=
  dispatchModels pb np serve stamp (byModel requests).items d

end Dispatch

end RayDispatcher
end Inferential
