import Inferential.Client.Connection
import Inferential.Machine.Router
import Inferential.Proto.Wire

/-!
# Routing — every handle gets the responses of its own model

Both Python clients are routers: the socket is the queue, the buffers are the boxes, and what the
calls of a handle return is what is handed out for its model.
-/

namespace Inferential

open PyStd

namespace Client

variable (parse : Bytes → Except String ModelResponse)

/-! ## The view of a client as a router -/

/-- The model that a response is for; an envelope that does not parse is for none. -/
def modelOf (r : Response) : String :=
  match parse r.1 with
  | .ok resp => resp.modelId
  | .error _ => ""

/-- The envelope of a multipart message parses. -/
def Parses (frames : List Bytes) : Prop := ∃ resp, parse (unpack frames).1 = .ok resp

/-- What the calls have returned, with the models of their handles. -/
def handed (received : List (String × Received)) : List (String × Response) :=
  received.filterMap fun call =>
    match call.2 with
    | .response r => some (call.1, r)
    | _ => none

theorem handed_append (received : List (String × Received)) (modelId : String) (result : Received) :
    handed (received ++ [(modelId, result)]) =
      handed received ++
        match result with
        | .response r => [(modelId, r)]
        | _ => [] := by
  cases result <;> simp [handed]

/-- A step that shows nothing of the messages is no move. -/
theorem stays {parse : Bytes → Except String ModelResponse} {r r' : Machine.Router String Response}
    (h : r' = r) : Machine.Router.Step (modelOf parse) r [] r' := by
  rw [h]
  exact .stay r

/-- A message that parses may arrive in a socket of such messages. -/
theorem parses_append {parse : Bytes → Except String ModelResponse} {socket : List (List Bytes)}
    {frames : List Bytes} (hsocket : ∀ frames' ∈ socket, Parses parse frames')
    (hframes : Parses parse frames) : ∀ frames' ∈ socket ++ [frames], Parses parse frames' := by
  intro frames' hframes'
  rcases List.mem_append.mp hframes' with hold | hnew
  · exact hsocket frames' hold
  · rw [List.mem_singleton.mp hnew]
    exact hframes

/-- Assigning a list is an update of the lists of the dictionary. -/
theorem listAt_set_update (d : Dict String (List Response)) (modelId : String) (l : List Response) :
    (d.set modelId l).listAt = Function.update d.listAt modelId l := by
  funext k
  by_cases hk : k = modelId
  · simp [Dict.listAt_set, hk]
  · simp [Dict.listAt_set, hk]

def Connection.view (c : Connection) : Machine.Router String Response where
  queue := c.socket.map unpack
  boxes := c.buffers.listAt
  handed := handed c.received

def AsyncConnection.view (c : AsyncConnection) : Machine.Router String Response where
  queue := c.socket.map unpack
  boxes := c.queues.listAt
  handed := handed c.received

/-! ## The synchronous client -/

namespace Connection

variable {parse}

def Action.Allowed (parse : Bytes → Except String ModelResponse) : Action → Prop
  | .arrive frames => Parses parse frames
  | _ => True

/-- All messages in the socket parse. -/
def Readable (parse : Bytes → Except String ModelResponse) (c : Connection) : Prop :=
  ∀ frames ∈ c.socket, Parses parse frames

/-- Draining moves the first message to the buffer of its model. -/
theorem drain_moves {c : Connection} (hreadable : Readable parse c) (call : Call) :
    Readable parse (c.drain parse call) ∧
      Machine.Router.Step (modelOf parse) c.view [] (c.drain parse call).view := by
  cases hsocket : c.socket with
  | nil =>
      simp only [drain, hsocket]
      exact ⟨by simp [Readable], stays (by simp [view, hsocket])⟩
  | cons frames rest =>
      rcases hreadable frames (by simp [hsocket]) with ⟨resp, hparse⟩
      have hmodel : modelOf parse (unpack frames) = resp.modelId := by simp [modelOf, hparse]
      simp only [drain, hsocket, hparse]
      constructor
      · intro frames' hframes'
        exact hreadable frames' (by simp [hsocket, hframes'])
      · have hroute : Machine.Router.Step (modelOf parse) c.view [] _ :=
          .route c.view (unpack frames) (rest.map unpack) (by simp [view, hsocket])
        simpa only [view, hmodel, listAt_set_update] using hroute

/-- A look into the buffer takes its first response out, if there is one. -/
theorem take_moves (call : Call) (c : Connection) :
    Machine.Router.Step (modelOf parse) c.view [] (c.take call).view := by
  cases hbuffer : c.buffers.listAt call.modelId with
  | nil =>
      simp only [take, hbuffer]
      have hsame : (c.buffers.set call.modelId []).listAt = c.buffers.listAt := by
        rw [listAt_set_update, ← hbuffer, Function.update_eq_self]
      exact stays (by simp only [view, hsame])
  | cons r rest =>
      simp only [take, hbuffer]
      have hhand : Machine.Router.Step (modelOf parse) c.view [] _ :=
        .hand c.view call.modelId r rest hbuffer
      simpa only [view, finish, handed_append, listAt_set_update] using hhand

/-- Every step is a move of the router, or none. -/
theorem step_moves {c : Connection} {a : Action} (hallowed : a.Allowed parse)
    (hreadable : Readable parse c) :
    Readable parse (c.step parse a) ∧
      Machine.Router.Step (modelOf parse) c.view (arrivals a) (c.step parse a).view := by
  cases a with
  | arrive frames =>
      constructor
      · exact parses_append hreadable hallowed
      · have harrive : Machine.Router.Step (modelOf parse) c.view [unpack frames] _ :=
          .arrive c.view (unpack frames)
        simpa only [step, arrivals, view, List.map_append, List.map_cons, List.map_nil] using harrive
  | getResult modelId timeoutMs now =>
      simp only [step, arrivals]
      split
      · exact ⟨hreadable, .stay _⟩
      · exact ⟨hreadable, stays rfl⟩
  | drain =>
      simp only [step, arrivals]
      split
      · next call hcall =>
          split
          · exact drain_moves hreadable call
          · exact ⟨hreadable, .stay _⟩
      · exact ⟨hreadable, .stay _⟩
  | take =>
      simp only [step, arrivals]
      split
      · next call hcall =>
          split
          · refine ⟨?_, take_moves call c⟩
            have hsocket : (c.take call).socket = c.socket := by
              unfold take
              split
              · rfl
              · rfl
            simpa only [Readable, hsocket] using hreadable
          · exact ⟨hreadable, .stay _⟩
      · exact ⟨hreadable, .stay _⟩
  | check now =>
      simp only [step, arrivals]
      split
      · split
        · split
          · exact ⟨hreadable, stays (by simp [view, finish, handed_append])⟩
          · exact ⟨hreadable, stays rfl⟩
        · exact ⟨hreadable, .stay _⟩
      · exact ⟨hreadable, .stay _⟩
  | poll =>
      simp only [step, arrivals]
      split
      · split
        · exact ⟨hreadable, stays rfl⟩
        · exact ⟨hreadable, .stay _⟩
      · exact ⟨hreadable, .stay _⟩

end Connection

/-! ## The asynchronous client -/

namespace AsyncConnection

variable {parse}

def Action.Allowed (parse : Bytes → Except String ModelResponse) : Action → Prop
  | .arrive frames => Parses parse frames
  | _ => True

def Readable (parse : Bytes → Except String ModelResponse) (c : AsyncConnection) : Prop :=
  ∀ frames ∈ c.socket, Parses parse frames

/-- A default queue is empty, as a missing one. -/
theorem listAt_setDefault (modelId : String) (queues : Dict String (List Response)) :
    (setDefault modelId queues).listAt = queues.listAt := by
  unfold setDefault
  split
  · rfl
  · next hmissing =>
      have hnone : queues.get? modelId = none := by
        rw [Dict.contains_iff] at hmissing
        exact Dict.get?_eq_none.mpr hmissing
      have hempty : queues.listAt modelId = [] := by simp [Dict.listAt, hnone]
      rw [listAt_set_update, ← hempty, Function.update_eq_self]

theorem ensureReader_view (c : AsyncConnection) :
    c.ensureReader.view = c.view ∧ c.ensureReader.socket = c.socket := by
  unfold ensureReader
  split
  · exact ⟨rfl, rfl⟩
  · exact ⟨rfl, rfl⟩

/-- The reader moves the first message to the queue of its model. -/
theorem read_moves {c : AsyncConnection} (hreadable : Readable parse c) :
    Readable parse (c.read parse) ∧
      Machine.Router.Step (modelOf parse) c.view [] (c.read parse).view := by
  cases hsocket : c.socket with
  | nil =>
      simp only [read, hsocket]
      exact ⟨hreadable, .stay _⟩
  | cons frames rest =>
      rcases hreadable frames (by simp [hsocket]) with ⟨resp, hparse⟩
      have hmodel : modelOf parse (unpack frames) = resp.modelId := by simp [modelOf, hparse]
      simp only [read, hsocket, hparse]
      constructor
      · intro frames' hframes'
        exact hreadable frames' (by simp [hsocket, hframes'])
      · have hroute : Machine.Router.Step (modelOf parse) c.view [] _ :=
          .route c.view (unpack frames) (rest.map unpack) (by simp [view, hsocket])
        simpa only [view, hmodel, listAt_set_update, listAt_setDefault] using hroute

theorem step_moves {c : AsyncConnection} {a : Action} (hallowed : a.Allowed parse)
    (hreadable : Readable parse c) :
    Readable parse (c.step parse a) ∧
      Machine.Router.Step (modelOf parse) c.view (arrivals a) (c.step parse a).view := by
  rcases c.ensureReader_view with ⟨hview, hsocket⟩
  have hensured : Readable parse c.ensureReader := by
    simpa only [Readable, hsocket] using hreadable
  cases a with
  | arrive frames =>
      constructor
      · exact parses_append hreadable hallowed
      · have harrive : Machine.Router.Step (modelOf parse) c.view [unpack frames] _ :=
          .arrive c.view (unpack frames)
        simpa only [step, arrivals, view, List.map_append, List.map_cons, List.map_nil] using harrive
  | send => exact ⟨hensured, stays hview⟩
  | getResult modelId timeoutMs =>
      refine ⟨hensured, stays ?_⟩
      calc
        (c.step parse (.getResult modelId timeoutMs)).view
            = { c.ensureReader.view with
                boxes := (setDefault modelId c.ensureReader.queues).listAt } := rfl
        _ = c.ensureReader.view := by rw [listAt_setDefault]; rfl
        _ = c.view := hview
  | read =>
      simp only [step, arrivals]
      split
      · exact read_moves hreadable
      · exact ⟨hreadable, .stay _⟩
  | get i =>
      simp only [step, arrivals]
      split
      · exact ⟨hreadable, .stay _⟩
      · next call hcall =>
          split
          · exact ⟨hreadable, .stay _⟩
          · next r rest hqueue =>
              refine ⟨hreadable, ?_⟩
              have hhand : Machine.Router.Step (modelOf parse) c.view [] _ :=
                .hand c.view call.modelId r rest hqueue
              simpa only [view, finish, handed_append, listAt_set_update] using hhand
  | timeout i =>
      simp only [step, arrivals]
      split
      · exact ⟨hreadable, .stay _⟩
      · split
        · exact ⟨hreadable, stays (by simp [view, finish, handed_append])⟩
        · exact ⟨hreadable, .stay _⟩

end AsyncConnection

/-! ## Runs -/

/-- For each model: what its handles were given is, in order, the beginning of what has arrived for
it, and the rest is in its buffer or still in the socket. -/
structure Routed (arrived : List Response) (r : Machine.Router String Response) : Prop where
  prefixed : ∀ modelId, r.handedTo modelId <+: Machine.Router.ofKey (modelOf parse) modelId arrived
  accounted : ∀ modelId, Machine.Router.ofKey (modelOf parse) modelId arrived =
    r.handedTo modelId ++ r.boxes modelId ++
      Machine.Router.ofKey (modelOf parse) modelId r.queue

variable {parse} in
theorem Routed.of_conserves {arrived : List Response} {r : Machine.Router String Response}
    (h : Machine.Router.Conserves (modelOf parse) arrived r) : Routed parse arrived r :=
  ⟨h.handed_prefix, h⟩

theorem Connection.conserves {actions : List Connection.Action}
    (hallowed : ∀ a ∈ actions, a.Allowed parse) :
    Machine.Router.Conserves (modelOf parse) (actions.flatMap Connection.arrivals)
      (actions.foldl (Connection.step parse) {}).view := by
  have hreadable : Connection.Readable parse {} := by simp [Connection.Readable]
  have hstart : Machine.Router.Conserves (modelOf parse) [] (Connection.view {}) :=
    Machine.Router.conserves_nil rfl (fun _ => rfl) rfl
  have hrun : Machine.Router.Conserves (modelOf parse) ([] ++ actions.flatMap Connection.arrivals)
      (actions.foldl (Connection.step parse) {}).view := by
    refine Machine.Router.conserves_run Connection.view ?_ hallowed hreadable hstart
    intro c a ha hc
    exact Connection.step_moves ha hc
  exact hrun

theorem AsyncConnection.conserves {actions : List AsyncConnection.Action}
    (hallowed : ∀ a ∈ actions, a.Allowed parse) :
    Machine.Router.Conserves (modelOf parse) (actions.flatMap AsyncConnection.arrivals)
      (actions.foldl (AsyncConnection.step parse) {}).view := by
  have hreadable : AsyncConnection.Readable parse {} := by simp [AsyncConnection.Readable]
  have hstart : Machine.Router.Conserves (modelOf parse) [] (AsyncConnection.view {}) :=
    Machine.Router.conserves_nil rfl (fun _ => rfl) rfl
  have hrun : Machine.Router.Conserves (modelOf parse) ([] ++ actions.flatMap AsyncConnection.arrivals)
      (actions.foldl (AsyncConnection.step parse) {}).view := by
    refine Machine.Router.conserves_run AsyncConnection.view ?_ hallowed hreadable hstart
    intro c a ha hc
    exact AsyncConnection.step_moves ha hc
  exact hrun

/-- In every run of a client in which all envelopes parse, every handle gets the responses of its
own model, in order and each once, and none is lost. -/
theorem responses_routed :
    (∀ actions : List Connection.Action, (∀ a ∈ actions, a.Allowed parse) →
      Routed parse (actions.flatMap Connection.arrivals)
        (actions.foldl (Connection.step parse) {}).view) ∧
    ∀ actions : List AsyncConnection.Action, (∀ a ∈ actions, a.Allowed parse) →
      Routed parse (actions.flatMap AsyncConnection.arrivals)
        (actions.foldl (AsyncConnection.step parse) {}).view := by
  constructor
  · intro actions hallowed
    exact .of_conserves (Connection.conserves parse hallowed)
  · intro actions hallowed
    exact .of_conserves (AsyncConnection.conserves parse hallowed)

/-! ### Two models on one connection -/

/-- The message of a response, as the server sends it. -/
def plainFrames (resp : ModelResponse) : List Bytes := [[], Wire.modelResponse resp, []]

def twoResponses : List ModelResponse := [plainResponse "policy" "1", plainResponse "telemetry" "2"]

/-- The answer for the policy arrives first, and the one for the telemetry is asked for first; then
a call for the policy is answered, and one times out. -/
def twoCalls : List Connection.Action :=
  [.arrive (plainFrames (plainResponse "policy" "1")),
    .arrive (plainFrames (plainResponse "telemetry" "2")), .getResult "telemetry" 100 0, .drain,
    .drain, .drain, .take, .getResult "policy" 100 0, .drain, .take, .getResult "policy" 0 0, .drain,
    .take, .check 0]

/-- The same with the reader; the call for the policy waits first and is answered last. -/
def twoWaiting : List AsyncConnection.Action :=
  [.getResult "policy" 100, .getResult "telemetry" 100,
    .arrive (plainFrames (plainResponse "policy" "1")),
    .arrive (plainFrames (plainResponse "telemetry" "2")), .read, .read, .get 1, .get 0]

theorem two_models_routed :
    let parse := parseAmong twoResponses
    let c := twoCalls.foldl (Connection.step parse) {}
    let c' := twoWaiting.foldl (AsyncConnection.step parse) {}
    (c.received.map Prod.fst = ["telemetry", "policy", "policy"] ∧
        c'.received.map Prod.fst = ["telemetry", "policy"]) ∧
      Routed parse (twoCalls.flatMap Connection.arrivals) c.view ∧
      Routed parse (twoWaiting.flatMap AsyncConnection.arrivals) c'.view := by
  intro parse c c'
  refine ⟨⟨by decide +kernel, by decide +kernel⟩, (responses_routed parse).1 twoCalls ?_,
    (responses_routed parse).2 twoWaiting ?_⟩
  · intro a ha
    simp only [twoCalls, List.mem_cons, List.not_mem_nil, or_false] at ha
    rcases ha with rfl | rfl | rfl | rfl | rfl | rfl | rfl | rfl | rfl | rfl | rfl | rfl | rfl | rfl
    · exact ⟨plainResponse "policy" "1", rfl⟩
    · exact ⟨plainResponse "telemetry" "2", rfl⟩
    all_goals trivial
  · intro a ha
    simp only [twoWaiting, List.mem_cons, List.not_mem_nil, or_false] at ha
    rcases ha with rfl | rfl | rfl | rfl | rfl | rfl | rfl | rfl
    · trivial
    · trivial
    · exact ⟨plainResponse "policy" "1", rfl⟩
    · exact ⟨plainResponse "telemetry" "2", rfl⟩
    all_goals trivial

end Client
end Inferential
