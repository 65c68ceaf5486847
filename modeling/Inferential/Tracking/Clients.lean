import Inferential.PyStd.Dict

/-!
# Clients — which clients have been seen

`ClientRegistry`.  The times `first_seen` and `last_seen` are read by nothing that is modelled.
-/

namespace Inferential

open PyStd

structure ClientState where
  clientId : String
  totalRequests : Nat := 0
  /-- a set -/
  modelIds : List String
  deriving DecidableEq

structure ClientRegistry where
  clients : Dict String ClientState := Dict.empty

namespace ClientRegistry

/-- Whether the client is new, and the registry with the observation recorded. -/
def onObservation (clientId modelId : String) (reg : ClientRegistry) : Bool × ClientRegistry :=
  match reg.clients.get? clientId with
  | none =>
      -- the first observation is not counted
      let state : ClientState := { clientId := clientId, modelIds := [modelId] }
      (true, { clients := reg.clients.set clientId state })
  | some state =>
      let modelIds :=
        if modelId ∈ state.modelIds then state.modelIds else state.modelIds ++ [modelId]
      let state' := { state with totalRequests := state.totalRequests + 1, modelIds := modelIds }
      (false, { clients := reg.clients.set clientId state' })

def clientModels (clientId : String) (reg : ClientRegistry) : List String :=
  match reg.clients.get? clientId with
  | none => []
  | some state => state.modelIds

def activeCount (reg : ClientRegistry) : Nat := reg.clients.size

end ClientRegistry
end Inferential
