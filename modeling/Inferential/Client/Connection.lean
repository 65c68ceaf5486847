import Inferential.Proto

/-!
# Connection — how the Python clients receive

`Connection` and `AsyncConnection`: the messages that wait in the socket, the buffers of the models,
and the calls of `get_result` that are in progress.  What a call does between two looks at the
socket, the clock or the event loop is one step; a step of a call that stands elsewhere changes
nothing, so that every list of actions is a run.
-/

namespace Inferential

open PyStd

namespace Client

/-- An envelope and its payload. -/
abbrev Response := Bytes × Bytes

/-- `frames[1] if len(frames) > 1 else b""`, and the same for the payload. -/
def unpack (frames : List Bytes) : Response := ((frames[1]?).getD [], (frames[2]?).getD [])

/-- How a call of `_recv_for_model` ends. -/
inductive Received
  | response (r : Response)
  | timedOut
  | raised (error : String)
  deriving DecidableEq

/-! ## The synchronous client -/

inductive CallPc
  /-- in `_drain` -/
  | draining
  /-- before the look into the buffer -/
  | taking
  /-- before the clock is read -/
  | timing
  /-- in `poll`, for at most 50 ms -/
  | polling
  deriving DecidableEq, Repr

/-- A call of `get_result` in progress. -/
structure Call where
  modelId : String
  deadline : Rat
  pc : CallPc := .draining
  deriving DecidableEq

structure Connection where
  /-- The multipart messages that can be received. -/
  socket : List (List Bytes) := []
  buffers : Dict String (List Response) := Dict.empty
  running : Option Call := none
  /-- How the calls have ended, with the model of the handle that made each. -/
  received : List (String × Received) := []

namespace Connection

inductive Action
  | arrive (frames : List Bytes)
  | getResult (modelId : String) (timeoutMs : Int) (now : Rat)
  | drain
  | take
  | check (now : Rat)
  | poll

/-- The call ends. -/
def finish (call : Call) (result : Received) (c : Connection) : Connection :=
  { c with running := none, received := c.received ++ [(call.modelId, result)] }

/-- One round of `_drain`, or its end. -/
def drain (parse : Bytes → Except String ModelResponse) (call : Call) (c : Connection) :
    Connection :=
  match c.socket with
  | [] => { c with running := some { call with pc := .taking } }
  | frames :: rest =>
      let c := { c with socket := rest }
      match parse (unpack frames).1 with
      -- the message is gone, and the exception leaves `get_result`
      | .error e => c.finish call (.raised e)
      | .ok resp =>
          let buffer := c.buffers.listAt resp.modelId ++ [unpack frames]
          { c with buffers := c.buffers.set resp.modelId buffer }

/-- `if self._buffers[model_id]: return self._buffers[model_id].popleft()` -/
def take (call : Call) (c : Connection) : Connection :=
  match c.buffers.listAt call.modelId with
  | [] =>
      -- the default dictionary gets an empty buffer
      { c with
        buffers := c.buffers.set call.modelId []
        running := some { call with pc := .timing } }
  | r :: rest => { c with buffers := c.buffers.set call.modelId rest }.finish call (.response r)

def step (parse : Bytes → Except String ModelResponse) (c : Connection) : Action → Connection
  | .arrive frames => { c with socket := c.socket ++ [frames] }
  | .getResult modelId timeoutMs now =>
      match c.running with
      | some _ => c
      | none => { c with running := some { modelId := modelId, deadline := now + timeoutMs / 1000 } }
  | .drain =>
      match c.running with
      | some call => if call.pc = .draining then c.drain parse call else c
      | none => c
  | .take =>
      match c.running with
      | some call => if call.pc = .taking then c.take call else c
      | none => c
  | .check now =>
      match c.running with
      | some call =>
          if call.pc = .timing then
            if call.deadline - now ≤ 0 then c.finish call .timedOut
            else { c with running := some { call with pc := .polling } }
          else c
      | none => c
  | .poll =>
      match c.running with
      | some call =>
          -- a message is there or not, the socket is drained next
          if call.pc = .polling then { c with running := some { call with pc := .draining } } else c
      | none => c

/-- The responses that an action brings. -/
def arrivals : Action → List Response
  | .arrive frames => [unpack frames]
  | _ => []

end Connection

/-! ## The asynchronous client -/

inductive ReaderTask
  | absent
  | running
  | done
  deriving DecidableEq, Repr

/-- A call of `get_result` that waits for its queue. -/
structure AsyncCall where
  modelId : String
  timeoutMs : Int
  deriving DecidableEq

structure AsyncConnection where
  socket : List (List Bytes) := []
  queues : Dict String (List Response) := Dict.empty
  reader : ReaderTask := .absent
  calls : List AsyncCall := []
  received : List (String × Received) := []

namespace AsyncConnection

inductive Action
  | arrive (frames : List Bytes)
  | send
  | getResult (modelId : String) (timeoutMs : Int)
  | read
  | get (i : Nat)
  | timeout (i : Nat)

/-- `_ensure_reader` -/
def ensureReader (c : AsyncConnection) : AsyncConnection :=
  if c.reader = .absent ∨ c.reader = .done then { c with reader := .running } else c

/-- `self._queues.setdefault(model_id, asyncio.Queue())` -/
def setDefault (modelId : String) (queues : Dict String (List Response)) :
    Dict String (List Response) :=
  if queues.contains modelId then queues else queues.set modelId []

/-- One round of `_reader_loop`. -/
def read (parse : Bytes → Except String ModelResponse) (c : AsyncConnection) : AsyncConnection :=
  match c.socket with
  | [] => c
  | frames :: rest =>
      let c := { c with socket := rest }
      match parse (unpack frames).1 with
      -- the task ends; the next call starts another one
      | .error _ => { c with reader := .done }
      | .ok resp =>
          let queues := setDefault resp.modelId c.queues
          { c with queues := queues.set resp.modelId (queues.listAt resp.modelId ++ [unpack frames]) }

def finish (i : Nat) (call : AsyncCall) (result : Received) (c : AsyncConnection) :
    AsyncConnection :=
  { c with calls := c.calls.eraseIdx i, received := c.received ++ [(call.modelId, result)] }

def step (parse : Bytes → Except String ModelResponse) (c : AsyncConnection) :
    Action → AsyncConnection
  | .arrive frames => { c with socket := c.socket ++ [frames] }
  | .send => c.ensureReader
  | .getResult modelId timeoutMs =>
      let c := c.ensureReader
      { c with
        queues := setDefault modelId c.queues
        calls := c.calls ++ [{ modelId := modelId, timeoutMs := timeoutMs }] }
  | .read => if c.reader = .running then c.read parse else c
  | .get i =>
      match c.calls[i]? with
      | none => c
      | some call =>
          match c.queues.listAt call.modelId with
          | [] => c
          | r :: rest =>
              { c with queues := c.queues.set call.modelId rest }.finish i call (.response r)
  | .timeout i =>
      match c.calls[i]? with
      | none => c
      -- without a positive timeout the call waits as long as it takes
      | some call => if 0 < call.timeoutMs then c.finish i call .timedOut else c

def arrivals : Action → List Response
  | .arrive frames => [unpack frames]
  | _ => []

end AsyncConnection
end Client
end Inferential
