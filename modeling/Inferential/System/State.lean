import Inferential.Client.Transport
import Inferential.Dispatch.Gather
import Inferential.Machine.Matching
import Inferential.Server.Holdings
import Inferential.Transport.Sockets

/-!
# State — the clients, the network and the server together

Any number of clients observe and ask for results; what they send travels to the server, and its
responses travel back.  The network delivers in any order and may lose messages, and other peers may
send whatever they like under their own identities.
-/

namespace Inferential

open PyStd Client

variable {ν Py Obj Handle ι : Type}

/-! ## Calls of observe -/

/-- A call of `observe` on a handle, with its reading of the clock. -/
structure ObserveCall (Py : Type) where
  modelId : String
  handlePriority : Py
  timestampNs : Nat
  urgency : Py
  stepsRemaining : Option Py
  priority : Option Py
  kwargs : Dict String (Argument Py)

namespace ObserveCall

def handle (clientId : String) (call : ObserveCall Py) : Client.Handle Py where
  clientId := clientId
  modelId := call.modelId
  priority := call.handlePriority

/-- The envelope and the payload that the call sends. -/
def sends (cpb : ClientProtobuf ν Py) (clientId : String) (call : ObserveCall Py) :
    Except PyError (Bytes × Bytes) :=
  (call.handle clientId).observe cpb call.timestampNs call.urgency call.stepsRemaining call.priority
    call.kwargs

/-- The message that is serialised for it. -/
def message (cpb : ClientProtobuf ν Py) (clientId : String) (call : ObserveCall Py) :
    Except PyError (Observation ν × Bytes) :=
  observationMessage cpb ((call.handle clientId).outgoing call.timestampNs call.urgency
    call.stepsRemaining call.priority call.kwargs)

end ObserveCall

/-! ## Dispatchers -/

/-- The dispatcher that the server was given. -/
inductive Backend (Obj Handle : Type)
  | local (models : Dict String (Dict String ObsValue → Except PyError (RawResult Obj)))
  | ray (serve : RayServe Handle Obj)
      (gives : Handle → Dict String ObsValue → Except PyError (RawResult Obj) → Prop)

namespace Backend

/-- What the backend may compute for a model from an observation. -/
def Ran : Backend Obj Handle → String → Dict String ObsValue → RawResult Obj → Prop
  | .local models, modelId, obs, raw => ∃ fn, models.get? modelId = some fn ∧ fn obs = .ok raw
  | .ray serve gives, modelId, obs, raw =>
      ∃ handle, serve.getAppHandle modelId = .ok handle ∧ gives handle obs (.ok raw)

/-- A call of `dispatch` may end so.  The health of the local endpoints is arbitrary, and Ray knows
some of the handles already; the remote calls complete in any order. -/
def Returns (pb : Protobuf ν) (np : Numpy Obj) :
    Backend Obj Handle → List (InferenceRequest ν) → Except PyError (List DispatchResult) → Prop
  | .local models, batch, result => ∃ health stamp,
      (LocalDispatcher.dispatch pb np stamp batch ⟨models, health⟩).1 = result
  | .ray serve gives, batch, result => ∃ (d : RayDispatcher Handle) (stamp : _) (actions : _),
      (∀ modelId handle, d.handles.get? modelId = some handle →
        serve.getAppHandle modelId = .ok handle) ∧
      Machine.Along (RayRun.step pb np serve stamp) (RayRun.Genuine gives)
        (RayRun.begin d batch) actions ∧
      (RayRun.run pb np serve stamp (RayRun.begin d batch) actions).pc = .ended result

end Backend

/-! ## The system -/

/-- A message on its way to the server; `source` is the call that sent it, if it is a client's. -/
structure Upward (ι Py : Type) where
  source : Option (ι × ObserveCall Py)
  identity : Bytes
  frames : List Bytes

/-- A response on its way to a client, as it was given to the socket. -/
structure Downward where
  reqId : Nat
  frames : List Bytes
  deriving DecidableEq

structure System (ν ι Py : Type) [Score ν] where
  server : Server ν
  endpoints : ι → Endpoint
  uplink : Machine.Channel (Upward ι Py) := {}
  downlink : Machine.Channel Downward := {}

namespace System

variable [Score ν]

inductive Action (ν ι Py : Type)
  | observe (i : ι) (call : ObserveCall Py)
  /-- another peer sends something -/
  | foreign (identity : Bytes) (frames : List Bytes)
  | loseUp (n : Nat)
  | loseDown (n : Nat)
  | receive (n : Nat) (receivedAt : Rat) (clock : ReceiveClock) (m : Moment ν)
  | serve (a : Server.Action ν)
  | deliver (n : Nat) (i : ι)
  | client (i : ι) (a : Endpoint.Action)

/-- What a call of `send` that has ended has given to the socket. -/
def given (call : SendCall) : Option Downward :=
  match call.outcome with
  | .sent => some ⟨call.response.reqId, ZmqTransport.send call.response.outgoing⟩
  | _ => none

/-- The responses that a step of the server gives to the socket. -/
def outgoing (s : Server ν) (a : Server.Action ν) : List Downward := (s.endedBy a).filterMap given

section Steps

variable [DecidableEq ι] (config : InferentialConfig ν) (pb : Protobuf ν)
  (cpb : ClientProtobuf ν Py) (clientId : ι → String)

def step (s : System ν ι Py) : Action ν ι Py → System ν ι Py
  | .observe i call =>
      match call.sends cpb (clientId i) with
      -- the call raises before anything is sent
      | .error _ => s
      | .ok message =>
          { s with
            endpoints := Function.update s.endpoints i ((s.endpoints i).send cpb.parseResponse)
            uplink := s.uplink.send
              [⟨some (i, call), identityOf (clientId i), sendFrames message⟩] }
  | .foreign identity frames => { s with uplink := s.uplink.send [⟨none, identity, frames⟩] }
  | .loseUp n => { s with uplink := s.uplink.lose n }
  | .loseDown n => { s with downlink := s.downlink.lose n }
  | .receive n receivedAt clock m =>
      match s.uplink.inFlight[n]? with
      | none => s
      | some up =>
          match ZmqTransport.recv (up.identity :: up.frames) receivedAt with
          | none => { s with uplink := s.uplink.deliver n }
          | some msg =>
              { s with
                uplink := s.uplink.deliver n
                server := s.server.receive config pb msg clock m }
  | .serve a =>
      { s with
        server := s.server.step config pb a
        downlink := s.downlink.send (outgoing s.server a) }
  | .deliver n i =>
      match s.downlink.inFlight[n]? with
      | none => s
      | some down =>
          if down.frames.head? = some (identityOf (clientId i)) then
            { s with
              downlink := s.downlink.deliver n
              endpoints := Function.update s.endpoints i
                ((s.endpoints i).arrive cpb.parseResponse down.frames.tail) }
          else s
  | .client i a =>
      { s with
        endpoints := Function.update s.endpoints i ((s.endpoints i).step cpb.parseResponse a) }

def run (s : System ν ι Py) (actions : List (Action ν ι Py)) : System ν ι Py :=
  actions.foldl (step config pb cpb clientId) s

end Steps

/-! ## What a step may assume -/

section Assumed

variable (pb : Protobuf ν) (np : Numpy Obj) (cpb : ClientProtobuf ν Py) (clientId : ι → String)
  (toFloat32 : Rat → Rat) (backend : Backend Obj Handle)

/-- What the dispatcher returns is what the backend makes of the batch, and protobuf gives back the
responses in it. -/
def Dispatched (batch : List (InferenceRequest ν))
    (result : Except PyError (List DispatchResult)) : Prop :=
  backend.Returns pb np batch result ∧
    ∀ results, result = .ok results → ∀ r ∈ results, ∀ req ∈ batch, ∀ resp,
      OwnResponse pb np (fun req => backend.Ran req.modelId) req r resp →
        ∃ parsed, ResponseArrives pb cpb toFloat32 resp parsed

/-- Protobuf gives back the messages of the clients; other peers have other identities; the receive
loop has the messages from the network, and the loops the results from the backend. -/
def Assumed (s : System ν ι Py) : Action ν ι Py → Prop
  | .observe i call => ∀ message, call.message cpb (clientId i) = .ok message →
      ∃ parsed, ObservationArrives pb cpb message.1 parsed
  | .foreign identity _ => ∀ i, identity ≠ identityOf (clientId i)
  | .serve (.receive _ _ _) => False
  | .serve (.legacyReturned result) => ∀ batch, s.server.legacy = .dispatching batch →
      Dispatched pb np cpb toFloat32 backend batch result
  | .serve (.taskReturned i result) => ∀ task, s.server.tasks[i]? = some task →
      task.pc = .dispatching → Dispatched pb np cpb toFloat32 backend [task.request] result
  | .client _ a => ¬ a.IsArrival
  | _ => True

end Assumed
end System
end Inferential
