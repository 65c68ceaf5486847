import Inferential.PyStd.Dict
import Mathlib.Data.Rat.Cast.Order

/-!
# Responses — the latest response of each client
-/

namespace Inferential

open PyStd

inductive ResponseState
  | pending
  | issued
  | consumed
  | invalidated
  | expired
  deriving DecidableEq, Repr

structure ResponseRecord where
  clientId : String
  responseId : String
  state : ResponseState := .pending
  issuedAt : Option Rat := none
  latencyMs : Option Rat := none
  deriving DecidableEq

structure ResponseTracker where
  active : Dict String ResponseRecord := Dict.empty
  /-- a set -/
  connected : List String := []

namespace ResponseTracker

/-- A new request of the client consumes the response that was issued to it. -/
def onRequest (clientId : String) (t : ResponseTracker) : ResponseTracker :=
  let connected :=
    if clientId ∈ t.connected then t.connected else t.connected ++ [clientId]
  match t.active.get? clientId with
  | some prev =>
      -- only an issued response is consumed
      if prev.state = .issued then
        { connected := connected, active := t.active.set clientId { prev with state := .consumed } }
      else
        { t with connected := connected }
  | none => { t with connected := connected }

def onResponseSent (now : Rat) (clientId responseId : String) (latencyMs : Rat)
    (t : ResponseTracker) : ResponseTracker :=
  { t with active := t.active.set clientId {
      clientId := clientId
      responseId := responseId
      state := .issued
      issuedAt := some now
      latencyMs := some latencyMs } }

end ResponseTracker
end Inferential
