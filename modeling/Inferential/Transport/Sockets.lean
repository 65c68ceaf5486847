import Inferential.Client.Codec
import Inferential.Client.Routing
import Inferential.Server.Receive

/-!
# Sockets — the frames between the clients and the server

The server has a ROUTER socket: it puts the identity of the sender in front of the frames that it
receives, and takes the identity of the receiver off the frames that it sends.  The clients have
DEALER sockets, named after the client id.
-/

namespace Inferential

open PyStd

/-! ## The server's transport -/

structure OutgoingResponse where
  identity : Bytes
  envelope : Bytes
  payload : Bytes
  deriving DecidableEq

namespace ZmqTransport

/-- `recv`; `frames[0]` raises when there is no frame. -/
def recv (frames : List Bytes) (receivedAt : Rat) : Option IncomingObservation :=
  match frames with
  | [] => none
  | identity :: rest =>
      some {
        identity := identity
        -- the second frame is the empty delimiter
        envelope := (rest[1]?).getD []
        payload := (rest[2]?).getD []
        receivedAt := receivedAt }

/-- `send` -/
def send (response : OutgoingResponse) : List Bytes :=
  [response.identity, [], response.envelope, response.payload]

end ZmqTransport

/-- The response of a result, as both loops hand it to `send`. -/
def DispatchResult.outgoing (result : DispatchResult) : OutgoingResponse where
  identity := result.identity
  envelope := result.envelope
  payload := result.payload

/-! ## The clients' sockets -/

namespace Client

/-- `str(client_id).encode()` -/
def identityOf (clientId : String) : Bytes := clientId.toUTF8.data.toList

theorem identityOf_injective : Function.Injective identityOf := by
  intro a b h
  have hdata : a.toUTF8.data = b.toUTF8.data := Array.toList_inj.mp h
  have hbytes : a.toByteArray = b.toByteArray := by
    simpa using ByteArray.ext hdata
  exact String.toByteArray_inj.mp hbytes

/-- The frames of `_send`. -/
def sendFrames (message : Bytes × Bytes) : List Bytes := [[], message.1, message.2]

/-- What a client sends, the server receives as it was, under the identity of the client. -/
theorem recv_sendFrames (identity : Bytes) (message : Bytes × Bytes) (receivedAt : Rat) :
    ZmqTransport.recv (identity :: sendFrames message) receivedAt =
      some ⟨identity, message.1, message.2, receivedAt⟩ := rfl

/-- What the server sends, the client unpacks as it was. -/
theorem unpack_send (response : OutgoingResponse) :
    (ZmqTransport.send response).head? = some response.identity ∧
      unpack (ZmqTransport.send response).tail = (response.envelope, response.payload) :=
  ⟨rfl, rfl⟩

/-! ## A client of either kind -/

inductive Endpoint
  | sync (c : Connection)
  | async (c : AsyncConnection)

namespace Endpoint

inductive Action
  | sync (a : Connection.Action)
  | async (a : AsyncConnection.Action)

variable (parse : Bytes → Except String ModelResponse)

/-- An action of the other kind of client changes nothing. -/
def step : Endpoint → Action → Endpoint
  | .sync c, .sync a => .sync (c.step parse a)
  | .async c, .async a => .async (c.step parse a)
  | e, _ => e

/-- A message for the client can be received. -/
def arrive (frames : List Bytes) : Endpoint → Endpoint
  | .sync c => .sync (c.step parse (.arrive frames))
  | .async c => .async (c.step parse (.arrive frames))

/-- The asynchronous client makes sure of its reader before it sends. -/
def send : Endpoint → Endpoint
  | .sync c => .sync c
  | .async c => .async (c.step parse .send)

def Action.IsArrival : Action → Prop
  | .sync (.arrive _) => True
  | .async (.arrive _) => True
  | _ => False

def view : Endpoint → Machine.Router String Response
  | .sync c => c.view
  | .async c => c.view

def Readable : Endpoint → Prop
  | .sync c => c.Readable parse
  | .async c => c.Readable parse

variable {parse} {e : Endpoint}

theorem step_moves {a : Action} (ha : ¬ a.IsArrival) (h : e.Readable parse) :
    (e.step parse a).Readable parse ∧
      Machine.Router.Step (modelOf parse) e.view [] (e.step parse a).view := by
  cases e with
  | sync c =>
      cases a with
      | sync a =>
          cases a with
          | arrive frames => exact absurd trivial ha
          | _ => exact Connection.step_moves trivial h
      | async a => exact ⟨h, .stay _⟩
  | async c =>
      cases a with
      | async a =>
          cases a with
          | arrive frames => exact absurd trivial ha
          | _ => exact AsyncConnection.step_moves trivial h
      | sync a => exact ⟨h, .stay _⟩

theorem send_moves (h : e.Readable parse) :
    (e.send parse).Readable parse ∧
      Machine.Router.Step (modelOf parse) e.view [] (e.send parse).view := by
  cases e with
  | sync c => exact ⟨h, .stay _⟩
  | async c => exact AsyncConnection.step_moves trivial h

theorem arrive_moves {frames : List Bytes} (hparses : Parses parse frames)
    (h : e.Readable parse) :
    (e.arrive parse frames).Readable parse ∧
      Machine.Router.Step (modelOf parse) e.view [unpack frames] (e.arrive parse frames).view := by
  cases e with
  | sync c => exact Connection.step_moves hparses h
  | async c => exact AsyncConnection.step_moves hparses h

end Endpoint
end Client
end Inferential
